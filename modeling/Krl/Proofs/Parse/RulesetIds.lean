import Krl.Proofs.Parse.Naming
import Krl.Proofs.Token.Escapes

/-!
# Identifiers of rulesets

The identifier of a ruleset is what stands at its place in the source: words with dots and dashes
between them, and no space. All words will do, and as many of them as one likes. Space next to a
mark makes it no identifier.
-/

namespace Krl

open Grammar Productions Token

namespace Cursor.In

variable {source : String} {cursor other : Cursor}

/-- Places in a source at the same offset are the same. -/
theorem eq_of_offset (inside : cursor.In source) (inside' : other.In source)
    (same : cursor.offset = other.offset) : cursor = other := by
  obtain ⟨count, rfl⟩ := inside
  obtain ⟨count', rfl⟩ := inside'
  have further (count more : Nat)
      (same : (Cursor.advance ⟨0, source.toList⟩ count).offset =
        (Cursor.advance ⟨0, source.toList⟩ (count + more)).offset) :
      Cursor.advance ⟨0, source.toList⟩ count =
        Cursor.advance ⟨0, source.toList⟩ (count + more) := by
    rw [← Cursor.advance_advance] at same ⊢
    generalize Cursor.advance ⟨0, source.toList⟩ count = cursor at same ⊢
    have none_ : cursor.rest.take more = [] := by
      by_contra some_
      have := Text.byteLength_pos some_
      have same : cursor.offset = cursor.offset + Text.byteLength (cursor.rest.take more) := same
      omega
    rw [Cursor.advance, none_]
    have left := List.take_append_drop more cursor.rest
    rw [none_, List.nil_append] at left
    rw [left]
    rfl
  rcases Nat.le_total count count' with le | le
  · obtain ⟨more, rfl⟩ := Nat.exists_eq_add_of_le le
    exact further count more same
  · obtain ⟨more, rfl⟩ := Nat.exists_eq_add_of_le le
    exact (further count' more same.symm).symm

end Cursor.In

/-- Tokens of a source that touch are read one right after another. -/
theorem exists_readsAll_of_isContiguous {source : String} {lexemes : List Lexeme}
    (nonempty : lexemes ≠ []) (each : ∀ lexeme ∈ lexemes, ∃ cursor next : Cursor,
      cursor.In source ∧ Reads cursor lexeme next) (touch : isContiguous lexemes = true) :
    ∃ cursor final : Cursor, cursor.In source ∧ ReadsAll cursor lexemes final := by
  induction lexemes with
  | nil => exact absurd rfl nonempty
  | cons first others ih =>
      obtain ⟨⟨cursor, next, inside, reads⟩, rest⟩ := List.forall_mem_cons.mp each
      cases others with
      | nil => exact ⟨cursor, next, inside, .cons reads .nil⟩
      | cons second others =>
          rw [isContiguous, Bool.and_eq_true, beq_iff_eq] at touch
          obtain ⟨place, final, inside', more⟩ := ih (List.cons_ne_nil _ _) rest touch.2
          have same : next = place := by
            refine (inside.of_advances reads.advances).eq_of_offset inside' ?_
            rw [← reads.orderly.2.1, touch.1, more.start_eq]
          exact ⟨cursor, final, inside, .cons reads (same ▸ more)⟩

/-- Tokens that are read one right after another touch. -/
theorem Token.ReadsAll.isContiguous {cursor final : Cursor} {lexemes : List Lexeme}
    (reads : ReadsAll cursor lexemes final) : isContiguous lexemes = true := by
  induction reads with
  | nil => rfl
  | cons first rest ih =>
      cases rest with
      | nil => rfl
      | cons second rest =>
          rw [Krl.isContiguous, ih, Bool.and_true, beq_iff_eq, first.orderly.2.1, second.orderly.1]

/-- Tokens do not touch if there is something between two of them. -/
theorem not_isContiguous_of_apart {front back : List Lexeme} {cursor middle middle' final : Cursor}
    (reads : ReadsAll cursor front middle) (reads' : ReadsAll middle' back final)
    (some_ : front ≠ []) (some' : back ≠ []) (apart : middle.offset < middle'.offset) :
    isContiguous (front ++ back) = false := by
  induction reads with
  | nil => exact absurd rfl some_
  | @cons cursor next _ lexeme others first rest ih =>
      cases rest with
      | nil =>
          obtain ⟨second, others, rfl⟩ := List.exists_cons_of_ne_nil some'
          have stops := first.orderly.2.1
          have starts := reads'.start_eq
          rw [List.singleton_append, Krl.isContiguous, Bool.and_eq_false_iff]
          left
          rw [beq_eq_false_iff_ne]
          omega
      | cons second rest =>
          have others := ih (List.cons_ne_nil _ _) apart
          rw [List.cons_append, List.cons_append, Krl.isContiguous, Bool.and_eq_false_iff]
          exact .inr others

/-- The identifier is what stands at its place, and that is words with marks between them. -/
def RulesetId.Written (source : String) (rid : RulesetId) : Prop :=
  Span.slice? source rid.span = some rid.value ∧ Regex.joined.Matches rid.value.toList

theorem Stand.spanOf {input : Input Leaf} {first last : Nat} {lexemes : List Lexeme}
    {cursor final : Cursor} (stand : Stand input first lexemes last)
    (reads : ReadsAll cursor lexemes final) (nonempty : lexemes ≠ []) :
    SpanOf input first last ⟨cursor.offset, final.offset⟩ := by
  induction reads generalizing first with
  | nil => exact absurd rfl nonempty
  | @cons cursor next final lexeme others reads rest ih =>
      obtain ⟨found, stand⟩ := stand
      obtain ⟨starts, stops, _⟩ := reads.orderly
      have single := SpanOf.lexeme found
      rw [Lexeme.span, starts, stops] at single
      cases rest with
      | nil =>
          cases stand
          exact single
      | cons second rest => exact single.join (ih stand (List.cons_ne_nil _ _)) (Nat.le_refl _)

/-- Tokens that stand among those of a source are some of them. -/
theorem Stand.mem_of_mem {all lexemes : List Lexeme} {stop first last : Nat}
    (stand : Stand ⟨leavesOf all, stop⟩ first lexemes last) {lexeme : Lexeme}
    (member : lexeme ∈ lexemes) : lexeme ∈ all := by
  induction lexemes generalizing first with
  | nil => cases member
  | cons other others ih =>
      obtain ⟨found, stand⟩ := stand
      rcases List.mem_cons.mp member with rfl | member
      · obtain ⟨other, present, same⟩ := getElem?_leavesOf_iff.mp found
        have same := congrArg Leaf.lexeme same
        rw [lexeme_ofLexeme, lexeme_ofLexeme] at same
        exact same ▸ List.mem_of_getElem? present
      · exact ih stand member

/-- An identifier whose tokens stand among those of a source is written there. -/
theorem RulesetId.Stands.written {source : String} {lexemes : List Lexeme} {stop : Nat}
    {rid : RulesetId} (read : tokenize source = .ok lexemes)
    (stands : rid.Stands ⟨leavesOf (significant lexemes), stop⟩) : rid.Written source := by
  obtain ⟨first, last, piece, joins, stand, touch, span⟩ := stands
  have each : ∀ lexeme ∈ piece, ∃ cursor next : Cursor,
      cursor.In source ∧ Reads cursor lexeme next := by
    intro lexeme member
    exact exists_reads read (.inl (List.mem_filter.mp (stand.mem_of_mem member)).1)
  obtain ⟨cursor, final, inside, reads⟩ :=
    exists_readsAll_of_isContiguous joins.ne_nil each touch
  obtain ⟨matched, here⟩ := joins.rest_of_readsAll reads
  refine ⟨?_, matched⟩
  obtain ⟨count, rfl⟩ := reads.advances
  rw [span, (stand.spanOf reads joins.ne_nil).spanBetween_eq, inside.slice?_eq]
  have split := (List.take_append_drop count cursor.rest).trans here
  rw [List.append_cancel_right split, String.ofList_toList]

/-- The identifiers of rulesets in the tree of a source are written in it. -/
theorem written_of_parse {source : String} {options : ParseOptions} {program : Program}
    (parsed : parse source options = .ok program) :
    ∀ rid ∈ program.rulesetIds, rid.Written source := by
  rw [parse_eq] at parsed
  obtain ⟨lexemes, read, yields⟩ := exists_yields_of_parseSource parsed
  exact fun rid member => (stands_of_parseLeaves yields rid member).written read

namespace Productions

/-- The productions by which the words of an identifier go on. -/
theorem ridWords_mem {mark : Punct} (joint : mark ∈ joints) :
    rule .ridWords [the .ridWords, .terminal (.punct mark), token .symbol]
      (fun _ text _ name => text ++ String.ofList mark.chars ++ name.value) ∈ rulesetRules := by
  rw [joints, List.mem_cons, List.mem_singleton] at joint
  rcases joint with rfl | rfl
  · simp only [rulesetRules, rulesets, List.mem_append, List.mem_cons]
    exact .inl (.inl (.inl (.inr (.inr (.inr (.inr (.inr (.inl rfl))))))))
  · simp only [rulesetRules, rulesets, List.mem_append, List.mem_cons]
    exact .inl (.inl (.inl (.inr (.inr (.inr (.inr (.inr (.inr (.inl rfl)))))))))

end Productions

variable {input : Input Leaf} {first last : Nat} {lexemes : List Lexeme} {chars : List Char}

/-- Words with marks between them are the words of an identifier. -/
theorem Token.Joins.phrase (joins : Joins lexemes chars) (stand : Stand input first lexemes last) :
    Phrase input .ridWords first last (String.ofList chars) := by
  induction joins generalizing last with
  | word =>
      obtain ⟨found, rfl⟩ := stand
      rw [String.ofList_toList]
      exact phrase_of_rule (mem_of_rulesetRules rulesets_mem.2.2.2.1)
        (.terminal (congrArg (Option.bind · _) found) .nil)
  | @join lexemes chars mark word start middle middle' stop before joint ih =>
      obtain ⟨here, before, second, third, rfl⟩ := stand_append_iff.mp stand
      have second : input.tokens[here]? =
          some (.ofLexeme ((Fixed.mark mark).lexeme ⟨start, middle⟩)) := second
      obtain ⟨_, markRead⟩ := Fixed.exists_datum second
      have wordRead : (phrases input).datum .symbol (here + 1) ⟨word, ⟨middle', stop⟩⟩ :=
        congrArg (Option.bind · _) third
      have phrase := phrase_of_rule (mem_of_rulesetRules (ridWords_mem joint))
        (supplies_phrase (ih before) (.terminal markRead (.terminal wordRead .nil)))
      rwa [← String.ofList_append, ← String.ofList_toList (s := word), ← String.ofList_append,
        List.append_assoc] at phrase

/-- Words with marks between them that touch are an identifier. -/
theorem Token.Joins.phrase_rulesetId (joins : Joins lexemes chars)
    (stand : Stand input first lexemes last) {cursor final : Cursor}
    (reads : ReadsAll cursor lexemes final) :
    Phrase input .rulesetId first last ⟨String.ofList chars, ⟨cursor.offset, final.offset⟩⟩ := by
  have phrase := phrase_of_guarded (mem_of_rulesetRules rulesets_mem.2.2.1)
    (stand.contiguous_iff.mpr reads.isContiguous) (supplies_phrase (joins.phrase stand) .nil)
  rwa [(stand.spanOf reads joins.ne_nil).spanBetween_eq] at phrase

section EmptyRuleset

/-- The text of a ruleset with nothing in it. -/
def emptyRuleset (rid : String) : String :=
  "ruleset " ++ rid ++ " \x7b \x7d"

/-- The tokens of a ruleset with nothing in it, but for those of its identifier. -/
def emptyRulesetLexemes (rid : List Lexeme) (start : Nat) : List Lexeme :=
  (Fixed.word "ruleset").lexeme ⟨0, 7⟩ ::
    (rid ++ [(Fixed.mark .leftBrace).lexeme ⟨start + 1, start + 2⟩,
      (Fixed.mark .rightBrace).lexeme ⟨start + 3, start + 4⟩])

theorem reads_opening {behind : List Char}
    (solid : ∀ char ∈ behind.head?, isSpace char = false) :
    ∃ lexemes, ReadsAll ⟨0, "ruleset ".toList ++ behind⟩ lexemes ⟨8, behind⟩ ∧
      significant lexemes = [⟨.symbol "ruleset", 0, 7⟩] := by
  have named : Regex.name.Matches "ruleset".toList :=
    Regex.matches_name_iff.mpr ⟨'r', "uleset".toList, rfl, List.all_eq_true.mp rfl, rfl⟩
  have ends : Pattern.EndsWord (' ' :: behind) := by
    rintro _ ⟨⟩
    decide
  obtain ⟨space, gap, none_⟩ :=
    exists_readsAll_of_gap (List.forall_mem_singleton.mpr rfl : IsGap [' ']) solid 7
  refine ⟨_, .cons (reads_word named ends 0) gap, ?_⟩
  exact congrArg (_ :: ·) none_

theorem reads_closing (offset : Nat) :
    ∃ lexemes final, ReadsAll ⟨offset, " \x7b \x7d".toList⟩ lexemes final ∧ final.rest = [] ∧
      significant lexemes = [⟨.punct .leftBrace, offset + 1, offset + 2⟩,
        ⟨.punct .rightBrace, offset + 3, offset + 4⟩] := by
  have words : ∀ word ∈ [(['\x7b'], PlainToken.punct .leftBrace),
      (['\x7d'], .punct .rightBrace)], isPlain word = true := by
    decide +kernel
  exact (spaced_of_plain words offset).exists_readsAll

variable {rid : String} {inside : List Lexeme}

theorem emptyRuleset_toList (rid : String) :
    (emptyRuleset rid).toList = "ruleset ".toList ++ (rid.toList ++ " \x7b \x7d".toList) := by
  rw [emptyRuleset, String.toList_append, String.toList_append, List.append_assoc]

/-- The tokens of a ruleset with nothing in it. -/
theorem tokenize_emptyRuleset {offset : Nat}
    (solid : ∀ char ∈ (rid.toList ++ " \x7b \x7d".toList).head?, isSpace char = false)
    (reads : ReadsAll ⟨8, rid.toList ++ " \x7b \x7d".toList⟩ inside
      ⟨offset, " \x7b \x7d".toList⟩) :
    ∃ lexemes, tokenize (emptyRuleset rid) = .ok lexemes ∧
      significant lexemes = emptyRulesetLexemes (significant inside) offset := by
  obtain ⟨opening, before, opens⟩ := reads_opening solid
  obtain ⟨closing, final, behind, atEnd, closes⟩ := reads_closing offset
  refine ⟨opening ++ (inside ++ closing), tokenize_eq_ok_iff.mpr ⟨final, ?_, atEnd⟩, ?_⟩
  · rw [emptyRuleset_toList]
    exact before.append (reads.append behind)
  · rw [significant_append, significant_append, opens, closes]
    rfl

/-- The tokens of a ruleset whose last words are in a comment. -/
theorem tokenize_emptyRuleset_of_end {final : Cursor}
    (solid : ∀ char ∈ (rid.toList ++ " \x7b \x7d".toList).head?, isSpace char = false)
    (reads : ReadsAll ⟨8, rid.toList ++ " \x7b \x7d".toList⟩ inside final)
    (atEnd : final.rest = []) :
    ∃ lexemes, tokenize (emptyRuleset rid) = .ok lexemes ∧
      significant lexemes = ⟨.symbol "ruleset", 0, 7⟩ :: significant inside := by
  obtain ⟨opening, before, opens⟩ := reads_opening solid
  refine ⟨opening ++ inside, tokenize_eq_ok_iff.mpr ⟨final, ?_, atEnd⟩, ?_⟩
  · rw [emptyRuleset_toList]
    exact before.append reads
  · rw [significant_append, opens]
    rfl

/-- The opening brace of a ruleset with nothing in it is the only one. -/
theorem brace_of_emptyRulesetLexemes {rid : List Lexeme} {start index : Nat} {leaf : Leaf}
    (none_ : ∀ lexeme ∈ rid, lexeme.token ≠ .punct .leftBrace)
    (found : (leavesOf (emptyRulesetLexemes rid start))[index]? = some leaf)
    (brace : leaf.lexeme.token = .punct .leftBrace) : index = rid.length + 1 := by
  rw [getElem?_leavesOf_iff] at found
  obtain ⟨lexeme, found, rfl⟩ := found
  rw [lexeme_ofLexeme] at brace
  rw [emptyRulesetLexemes] at found
  cases index with
  | zero =>
      cases found
      cases brace
  | succ index =>
      rw [List.getElem?_cons_succ] at found
      rcases Nat.lt_or_ge index rid.length with before | behind
      · rw [List.getElem?_append_left before] at found
        exact absurd brace (none_ lexeme (List.mem_of_getElem? found))
      · rw [List.getElem?_append_right behind] at found
        match more : index - rid.length, found with
        | 0, _ => omega
        | 1, found =>
            cases found
            cases brace

/-- In a source that begins like a ruleset, a brace stands behind an identifier. -/
theorem exists_brace_of_main {tokens : List Leaf} {leaf : Leaf} {tree : Derivation}
    (found : tokens[0]? = some leaf) (isRuleset : leaf.lexeme.token = .symbol "ruleset")
    (derivation : language.grammar.IsDerivation tokens .main 0 tokens.length tree) :
    ∃ brace behind, tokens[brace]? = some behind ∧ behind.lexeme.token = .punct .leftBrace ∧
      contiguous tokens 1 brace = true := by
  obtain ⟨index, production, children, listed, lhs, _, derived, _⟩ :=
    derives_nonterminal_iff.mp derivation
  have rightSide := mem_rightSides (List.mem_of_getElem? listed)
  simp only [lhs, Distinction.rightSides_main, List.mem_cons, List.not_mem_nil, or_false]
    at rightSide
  rcases rightSide with same | same <;> rw [same] at derived
  · obtain ⟨_, ruleset⟩ := Distinction.isDerivation_of_derives derived
    obtain ⟨index, production, children, listed, lhs, _, derived, _⟩ :=
      derives_nonterminal_iff.mp ruleset
    have rightSide := mem_rightSides (List.mem_of_getElem? listed)
    rw [lhs, Distinction.rightSides_ruleset, List.mem_singleton] at rightSide
    rw [rightSide] at derived
    obtain ⟨_, _, _, _, derived, _⟩ := derives_terminal_cons_iff.mp derived
    obtain ⟨brace, _, _, named, derived, _⟩ := derives_nonterminal_cons_iff.mp derived
    obtain ⟨behind, _, present, isBrace, _⟩ := derives_terminal_cons_iff.mp derived
    exact ⟨brace, behind, present, Terminal.token_of_punct isBrace,
      Productions.contiguous_of_rulesetId named⟩
  · obtain ⟨_, statements⟩ := Distinction.isDerivation_of_derives derived
    exact (not_statements_of_ruleset found isRuleset statements).elim

section Rejected

variable {ids : List Lexeme} {start : Nat} {tree : Derivation}
  (none_ : ∀ lexeme ∈ ids, lexeme.token ≠ .punct .leftBrace)

include none_

/-- A ruleset whose identifier has gaps is not derived. -/
theorem not_main_of_gap (gap : isContiguous ids = false) :
    ¬language.grammar.IsDerivation (leavesOf (emptyRulesetLexemes ids start)) .main 0
      (leavesOf (emptyRulesetLexemes ids start)).length tree := by
  intro derivation
  obtain ⟨brace, behind, found, isBrace, touch⟩ := exists_brace_of_main rfl rfl derivation
  obtain rfl := brace_of_emptyRulesetLexemes none_ found isBrace
  obtain ⟨_, stand⟩ := stand_leavesOf (emptyRulesetLexemes ids start) 0
  obtain ⟨middle, stand, _⟩ := stand_append_iff.mp stand
  have last : middle = ids.length + 1 := stand.last_eq.trans (by omega)
  rw [last] at stand
  have contiguous := stand.contiguous_iff.mp touch
  rw [gap] at contiguous
  cases contiguous

/-- A ruleset without an opening brace is not derived. -/
theorem not_main_of_open :
    ¬language.grammar.IsDerivation (leavesOf (⟨.symbol "ruleset", 0, 7⟩ :: ids)) .main 0
      (leavesOf (⟨.symbol "ruleset", 0, 7⟩ :: ids)).length tree := by
  intro derivation
  obtain ⟨brace, behind, found, isBrace, _⟩ := exists_brace_of_main rfl rfl derivation
  obtain ⟨lexeme, listed, rfl⟩ := getElem?_leavesOf_iff.mp found
  rw [lexeme_ofLexeme] at isBrace
  rcases List.mem_cons.mp (List.mem_of_getElem? listed) with rfl | member
  · cases isBrace
  · exact none_ lexeme member isBrace

end Rejected

/-- Tokens of a ruleset with nothing in it have one derivation at most. -/
theorem subsingleton_emptyRulesetLexemes {ids : List Lexeme} {start : Nat}
    (none_ : ∀ lexeme ∈ ids, lexeme.token ≠ .punct .leftBrace) :
    {tree | language.grammar.IsDerivation (leavesOf (emptyRulesetLexemes ids start)) .main 0
      (leavesOf (emptyRulesetLexemes ids start)).length tree}.Subsingleton := by
  rw [main_subsingleton_iff]
  rintro ⟨_, _, _, _, derived, _⟩
  obtain ⟨_, _, _, _, derived, _⟩ := derives_terminal_cons_iff.mp derived
  obtain ⟨brace, _, _, _, derived, _⟩ := derives_nonterminal_cons_iff.mp derived
  obtain ⟨opening, _, opens, isOpening, derived, _⟩ := derives_terminal_cons_iff.mp derived
  obtain ⟨_, _, _, _, derived, _⟩ := derives_terminal_cons_iff.mp derived
  obtain ⟨inner, _, second, isInner, _⟩ := derives_terminal_cons_iff.mp derived
  have here := brace_of_emptyRulesetLexemes none_ opens (Terminal.token_of_punct isOpening)
  have there := brace_of_emptyRulesetLexemes none_ second (Terminal.token_of_punct isInner)
  omega

/-- Words with marks between them are the identifier of a ruleset. -/
theorem parse_emptyRuleset (matched : Regex.joined.Matches rid.toList) (options : ParseOptions) :
    ∃ ruleset, parse (emptyRuleset rid) options = .ok (.ruleset ruleset) ∧
      ruleset.rid.value = rid := by
  have ends : Pattern.EndsWord " \x7b \x7d".toList := by
    rintro _ ⟨⟩
    decide
  obtain ⟨ids, joins, reads⟩ := exists_joins matched 8 ends
  have solid : ∀ char ∈ (rid.toList ++ " \x7b \x7d".toList).head?, isSpace char = false := by
    obtain ⟨first, others, same, starts⟩ := starts_of_joined matched
    rw [same]
    rintro _ ⟨⟩
    exact Pattern.isSpace_of_isWordStart starts
  obtain ⟨lexemes, read, written⟩ := tokenize_emptyRuleset solid reads
  rw [significant_of_forall fun lexeme member => (joins.forall_mem lexeme member).1] at written
  have single := @subsingleton_emptyRulesetLexemes ids (8 + Text.byteLength rid.toList)
    fun lexeme member => (joins.forall_mem lexeme member).2
  have stand := stand_leavesOf (emptyRulesetLexemes ids (8 + Text.byteLength rid.toList))
    (Text.byteLength (emptyRuleset rid).toList)
  obtain ⟨opens, stand⟩ := stand
  obtain ⟨middle, idStand, opening, closing, done⟩ := stand_append_iff.mp stand
  obtain ⟨_, opensRead⟩ := Fixed.exists_datum opens
  obtain ⟨_, openingRead⟩ := Fixed.exists_datum opening
  obtain ⟨_, closingRead⟩ := Fixed.exists_datum closing
  obtain ⟨main, whole, _, _, properties, globals⟩ := rulesets_mem
  have phrase := phrase_of_rule (mem_of_rulesetRules whole)
    (.terminal opensRead (supplies_phrase (joins.phrase_rulesetId idStand reads)
      (.terminal openingRead (supplies_omitted (mem_of_rulesetRules properties)
        (supplies_omitted (mem_of_rulesetRules globals)
          (supplies_omitted (mem_of_ruleRules rules_mem.1) (.terminal closingRead .nil)))))))
  rw [done] at phrase
  have program := phrase_of_rule (mem_of_rulesetRules main) (supplies_phrase phrase .nil)
  exact ⟨_, congrArg (Except.mapError _) (outcome_of_phrase .main read written single program _),
    String.ofList_toList⟩

/-- Tokens that have no derivation are a syntax error. -/
theorem parse_of_underivable {source : String} {lexemes : List Lexeme}
    (read : tokenize source = .ok lexemes)
    (none_ : ∀ tree, ¬language.grammar.IsDerivation (leavesOf (significant lexemes)) .main 0
      (leavesOf (significant lexemes)).length tree) (options : ParseOptions) :
    ∃ offset message location,
      parse source options = .error (.syntactic offset message location) := by
  cases parsed : parse source options with
  | ok program =>
      rw [parse_eq] at parsed
      obtain ⟨lexemes', read', yields⟩ := exists_yields_of_parseSource parsed
      cases read.symm.trans read'
      obtain ⟨tree, derivation, _⟩ := exists_derivation_of_parseLeaves yields
      rw [← length_leavesOf] at derivation
      exact absurd derivation (none_ tree)
  | error error =>
      rw [parse_eq] at parsed
      rcases outcome_parseSource .main source
          [.parsing (Text.byteLength source.toList) options.filename] with
        ⟨_, failed, _⟩ | ⟨lexemes', read', outcome⟩
      · cases read.symm.trans failed
      · cases read.symm.trans read'
        rw [significantLeaves_leavesOf] at outcome
        rcases outcome with ⟨_, same, _⟩ | ⟨offset, found, same, _⟩ | ⟨_, _, several⟩
        · rw [same] at parsed
          cases parsed
        · rw [same] at parsed
          cases parsed
          obtain ⟨message, location, located⟩ := ParseError.locate_syntactic _ _ _ _ _
          exact ⟨_, message, location, congrArg Except.error located⟩
        · exact absurd (fun one derivation => absurd derivation (none_ one)) several

/-- An identifier with space or a comment in it is a syntax error. -/
theorem parse_emptyRuleset_apart {front blank back : List Char} (first : Token.Fragment front)
    (last : Token.Fragment back) (blank_ : IsBlank blank) (some_ : blank ≠ [])
    (options : ParseOptions) :
    ∃ offset message location,
      parse (emptyRuleset (String.ofList (front ++ (blank ++ back)))) options =
        .error (.syntactic offset message location) := by
  have solid : ∀ char ∈ back ++ " \x7b \x7d".toList, char ≠ '\n' := by
    refine List.forall_mem_append.mpr ⟨?_, by simp⟩
    rintro char member rfl
    cases last.solid _ member
  have begins : ∀ char ∈ (back ++ " \x7b \x7d".toList).head?, isSpace char = false := by
    obtain ⟨char, others, rfl⟩ := List.exists_cons_of_ne_nil last.nonempty
    rintro _ ⟨⟩
    exact last.solid _ List.mem_cons_self
  have begins' : ∀ char ∈ ((String.ofList (front ++ (blank ++ back))).toList ++
      " \x7b \x7d".toList).head?, isSpace char = false := by
    obtain ⟨char, others, rfl⟩ := List.exists_cons_of_ne_nil first.nonempty
    rw [String.toList_ofList]
    rintro _ ⟨⟩
    exact first.solid _ List.mem_cons_self
  obtain ⟨ids, someIds, inIds, readsIds⟩ :=
    first.reads (blank ++ (back ++ " \x7b \x7d".toList)) (blank_.begins some_) 8
  obtain ⟨trivia, final, readsTrivia, noTrivia, ends⟩ :=
    blank_.exists_readsAll begins (fun member => solid _ member rfl) (8 + Text.byteLength front)
  have whole : (String.ofList (front ++ (blank ++ back))).toList ++ " \x7b \x7d".toList =
      front ++ (blank ++ (back ++ " \x7b \x7d".toList)) := by
    rw [String.toList_ofList, List.append_assoc, List.append_assoc]
  have seen := significant_of_forall fun lexeme member => (inIds lexeme member).1
  rcases ends with rfl | atEnd
  · have closing : BeginsBlank " \x7b \x7d".toList := by
      rintro _ ⟨⟩
      exact .inl rfl
    obtain ⟨ids', someIds', inIds', readsIds'⟩ := last.reads _ closing
      (8 + Text.byteLength front + Text.byteLength blank)
    have seen' := significant_of_forall fun lexeme member => (inIds' lexeme member).1
    have reads := readsIds.append (readsTrivia.append readsIds')
    rw [← whole] at reads
    obtain ⟨lexemes, read, written⟩ := tokenize_emptyRuleset begins' reads
    rw [significant_append, significant_append, noTrivia, List.nil_append, seen, seen'] at written
    have braces := List.forall_mem_append.mpr ⟨fun lexeme member => (inIds lexeme member).2,
      fun lexeme member => (inIds' lexeme member).2⟩
    have gap := not_isContiguous_of_apart readsIds readsIds' someIds someIds'
      (Nat.lt_add_of_pos_right (Text.byteLength_pos some_))
    refine parse_of_underivable read (fun tree => ?_) options
    rw [written]
    exact not_main_of_gap braces gap
  · have reads := readsIds.append readsTrivia
    rw [← whole] at reads
    obtain ⟨lexemes, read, written⟩ := tokenize_emptyRuleset_of_end begins' reads atEnd
    rw [significant_append, noTrivia, List.append_nil, seen] at written
    refine parse_of_underivable read (fun tree => ?_) options
    rw [written]
    exact not_main_of_open fun lexeme member => (inIds lexeme member).2

end EmptyRuleset

/-- The identifiers of rulesets in a tree are exactly words with dots and dashes between them. Each
one in a tree, be it that of the ruleset or one in its properties, is what stands at its place, and
has this form. The other way round, every text of this form is read as the identifier of a ruleset,
whether there are reserved words in it or not. With space or a comment next to one of its marks, it
is a syntax error. -/
theorem parse_rulesetIds (options : ParseOptions) :
    (∀ source program, parse source options = .ok program → ∀ rid ∈ program.rulesetIds,
      Span.slice? source rid.span = some rid.value ∧ Regex.joined.Matches rid.value.toList) ∧
    ∀ rid : String, Regex.joined.Matches rid.toList →
      (∃ ruleset, parse (emptyRuleset rid) options = .ok (.ruleset ruleset) ∧
        ruleset.rid.value = rid) ∧
      ∀ before mark behind, rid.toList = before ++ mark :: behind → isJoint mark = true →
        ∀ blank, IsBlank blank → blank ≠ [] →
          ∀ text ∈ [before ++ (blank ++ mark :: behind), before ++ mark :: (blank ++ behind)],
            ∃ offset message location, parse (emptyRuleset (String.ofList text)) options =
              .error (.syntactic offset message location) := by
  refine ⟨fun source program parsed => written_of_parse parsed, fun rid matched => ?_⟩
  refine ⟨parse_emptyRuleset matched options, ?_⟩
  intro before mark behind same joint blank blank_ some_ text member
  rw [same] at matched
  obtain ⟨first, last⟩ := matched.joined_split joint
  rw [List.mem_cons, List.mem_singleton] at member
  rcases member with rfl | rfl
  · exact parse_emptyRuleset_apart (fragment_joined first) (fragment_cons joint last) blank_ some_
      options
  · rw [List.append_cons]
    exact parse_emptyRuleset_apart (fragment_snoc first joint) (fragment_joined last) blank_ some_
      options

/-- Reserved words are the identifier of a ruleset, but not with a comment between them. -/
theorem parse_rulesetIds_reserved :
    (∃ ruleset, parse "ruleset meta.rule-x \x7b \x7d" .none = .ok (.ruleset ruleset) ∧
      ruleset.rid.value = "meta.rule-x" ∧
        Span.slice? "ruleset meta.rule-x \x7b \x7d" ruleset.rid.span = some "meta.rule-x") ∧
    ∃ offset message location, parse "ruleset meta./**/rule-x \x7b \x7d" .none =
      .error (.syntactic offset message location) := by
  have name (first : Char) (others : List Char) (starts : isWordStart first = true)
      (accepted : others.all isWordPart = true) : Regex.name.Matches (first :: others) :=
    Regex.matches_name_iff.mpr ⟨first, others, starts, List.all_eq_true.mp accepted, rfl⟩
  have dotted : Regex.joined.Matches "meta.rule".toList :=
    (Regex.joined_name (name 'm' ['e', 't', 'a'] rfl rfl)).joined_snoc
      (show isJoint '.' = true from rfl) (name 'r' ['u', 'l', 'e'] rfl rfl)
  have matched : Regex.joined.Matches "meta.rule-x".toList :=
    dotted.joined_snoc (show isJoint '-' = true from rfl) (name 'x' [] rfl rfl)
  have blank : IsBlank "/**/".toList :=
    ⟨_, tokenize_eq_ok_iff.mpr ⟨_, .cons (.blockComment (Pattern.longest?_blockComment ['*', '/'])
      rfl) .nil, rfl⟩, rfl⟩
  have source : emptyRuleset "meta.rule-x" = "ruleset meta.rule-x \x7b \x7d" := by decide
  have apart : emptyRuleset
      (String.ofList ("meta".toList ++ '.' :: ("/**/".toList ++ "rule-x".toList))) =
        "ruleset meta./**/rule-x \x7b \x7d" := by decide
  obtain ⟨written, accepts⟩ := parse_rulesetIds .none
  obtain ⟨⟨ruleset, parsed, same⟩, rejects⟩ := accepts "meta.rule-x" matched
  rw [source] at parsed
  have slice := (written _ _ parsed ruleset.rid List.mem_cons_self).1
  rw [same] at slice
  refine ⟨⟨ruleset, parsed, same, slice⟩, ?_⟩
  rw [← apart]
  exact rejects "meta".toList '.' "rule-x".toList rfl rfl "/**/".toList blank
    (List.cons_ne_nil _ _) _ (List.mem_cons_of_mem _ List.mem_cons_self)

end Krl
