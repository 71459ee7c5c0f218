import Krl.Proofs.Grammar.Judgement
import Krl.Proofs.Language.Ranks
import Krl.Proofs.Language.Readings
import Krl.Proofs.Parse.Alike

/-!
# Parsing tokens that are alike

Tokens that are alike are parsed alike: to values that are equal after each has got other
offsets, or to errors of the same kind that blame the same place. The replacement of the
offsets has to map the places of tokens that correspond to one place.
-/

namespace Krl

open Grammar (Indistinct)

/-- Syntax errors that blame the same token, or none, at offsets that are related. -/
inductive SameError (blame : Nat → Nat → Prop) : ParseError → ParseError → Prop where
  | noParse {offset offset' : Option Nat} {found : Option String}
      (same : Option.Rel blame offset offset') :
      SameError blame (.noParse offset found) (.noParse offset' found)

/-- Syntax errors that blame a token or a closing brace, at offsets that are related. -/
inductive SameFault (blame : Nat → Nat → Prop) : ParseError → ParseError → Prop where
  | noParse {offset offset' : Nat} {found : Option String} (same : blame offset offset') :
      SameFault blame (.noParse (some offset) found) (.noParse (some offset') found)

theorem SameFault.sameError {blame : Nat → Nat → Prop} {error error' : ParseError}
    (same : SameFault blame error error') : SameError blame error error' := by
  cases same with
  | noParse same => exact .noParse (.some same)

/-- Offsets are replaced in order, and those that an error can blame meet in one place. -/
structure Placement (blame : Nat → Nat → Prop) (place place' : Nat → Nat) : Prop where
  monotone : Monotone place
  monotone' : Monotone place'
  meet : ∀ {offset offset' : Nat}, blame offset offset' → place offset = place' offset'

/-- Tokens as the grammar sees them that are the same word with parts that agree. -/
structure LeafAlike (blame : Nat → Nat → Prop) (place place' : Nat → Nat) (leaf leaf' : Leaf) :
    Prop where
  bare : leaf.lexeme.token.bare = leaf'.lexeme.token.bare
  blamed : blame leaf.lexeme.start leaf'.lexeme.start
  starts : place leaf.lexeme.start = place' leaf'.lexeme.start
  stops : place leaf.lexeme.stop = place' leaf'.lexeme.stop
  parts : Traced.Agrees (SameFault blame) (SamePlaced place place') leaf.parts leaf'.parts

section Leaves

variable {blame : Nat → Nat → Prop} {place place' : Nat → Nat} {leaf leaf' : Leaf}

theorem LeafAlike.span (alike : LeafAlike blame place place' leaf leaf') :
    leaf.lexeme.span.placed place = leaf'.lexeme.span.placed place' := by
  rw [Span.placed, Span.placed]
  exact congrArg₂ Span.mk alike.starts alike.stops

theorem Token.bare_eq_chevron_iff {token : Token} :
    token.bare = .chevron [] ↔ ∃ parts, token = .chevron parts := by
  cases token <;> simp [Token.bare]

theorem Token.bare_of_plain {token : Token} (plain : ∀ parts, token ≠ .chevron parts) :
    token.bare = token := by
  cases token <;> first | rfl | exact absurd rfl (plain _)

theorem Token.display_bare (token : Token) : token.bare.display = token.display := by
  cases token <;> rfl

/-- Tokens that are alike mean the same as members of every class, up to places. -/
theorem LeafAlike.read (alike : LeafAlike blame place place' leaf leaf') {terminal : Terminal}
    {datum : terminal.Datum} (found : terminal.read leaf = some datum) :
    ∃ datum', terminal.read leaf' = some datum' ∧
      SameDatum (SameFault blame) place place' terminal datum datum' := by
  obtain ⟨⟨token, start, stop⟩, parts⟩ := leaf
  obtain ⟨⟨token', start', stop'⟩, parts'⟩ := leaf'
  have span := alike.span
  have agree := alike.parts
  have bare := alike.bare
  simp only at bare agree
  by_cases isTemplate : ∃ parts, token = .chevron parts
  · obtain ⟨_, rfl⟩ := isTemplate
    obtain ⟨_, rfl⟩ := Token.bare_eq_chevron_iff.mp bare.symm
    cases terminal <;> simp only [Terminal.read, Option.some.injEq, reduceCtorEq] at found
    subst found
    refine ⟨_, rfl, ?_⟩
    refine agree.bind fun values values' same => .pure ?_
    have same : values.map (Expr.placed place) = values'.map (Expr.placed place') := same
    show Expr.placed place ⟨.chevron values, _⟩ = Expr.placed place' ⟨.chevron values', _⟩
    rw [Expr.placed, Expr.placed, ExprKind.placed, ExprKind.placed, exprsPlaced_eq, exprsPlaced_eq,
      same, span]
  · rw [Token.bare_of_plain (not_exists.mp isTemplate)] at bare
    have plain : ∀ parts, token' ≠ .chevron parts := by
      rintro parts rfl
      exact isTemplate ⟨[], bare⟩
    rw [Token.bare_of_plain plain] at bare
    subst bare
    have same : ∀ kind, kind.placed place = kind → kind.placed place' = kind →
        SamePlaced place place' (Expr.mk kind ⟨start, stop⟩) (Expr.mk kind ⟨start', stop'⟩) := by
      intro kind fixed fixed'
      show Expr.placed place ⟨kind, _⟩ = Expr.placed place' ⟨kind, _⟩
      rw [Expr.placed, Expr.placed, fixed, fixed']
      exact congrArg (Expr.mk kind) span
    have name : ∀ text, SamePlaced place place' (Identifier.mk text ⟨start, stop⟩)
        (Identifier.mk text ⟨start', stop'⟩) :=
      fun text => congrArg (Identifier.mk text) span
    cases terminal <;> cases token <;>
      simp only [Terminal.read, Option.ite_none_right_eq_some, Option.some.injEq, reduceCtorEq]
        at found ⊢
    all_goals
      first
      | obtain ⟨condition, rfl⟩ := found
        refine ⟨_, ⟨condition, rfl⟩, ?_⟩
      | subst found
        refine ⟨_, rfl, ?_⟩
      | refine ⟨(), found, ?_⟩
    all_goals
      first
      | exact absurd rfl (plain _)
      | exact name _
      | exact same _ rfl rfl
      | exact span
      | rfl

/-- Which classes a token belongs to depends neither on places nor on the parts of a
template. -/
theorem isSome_read_bare (terminal : Terminal) (leaf : Leaf) :
    (terminal.read leaf).isSome =
      (terminal.read ⟨⟨leaf.lexeme.token.bare, 0, 0⟩, pure []⟩).isSome := by
  obtain ⟨⟨token, start, stop⟩, parts⟩ := leaf
  cases terminal <;> cases token <;> simp only [Terminal.read, Token.bare] <;>
    first | rfl | (split <;> rfl)

theorem LeafAlike.accepts_eq (alike : LeafAlike blame place place' leaf leaf')
    (terminal : Terminal) :
    language.grammar.accepts terminal leaf = language.grammar.accepts terminal leaf' := by
  show (terminal.read leaf).isSome = (terminal.read leaf').isSome
  rw [isSome_read_bare, isSome_read_bare terminal leaf', alike.bare]

end Leaves

section Lists

/-- Both lists hold tokens that are alike and touch at the same places. -/
structure LeavesAlike (blame : Nat → Nat → Prop) (place place' : Nat → Nat)
    (leaves leaves' : List Leaf) : Prop where
  pointwise : List.Forall₂ (LeafAlike blame place place') leaves leaves'
  contiguous : ∀ start count,
    isContiguous (((leaves.drop start).take count).map Leaf.lexeme) =
      isContiguous (((leaves'.drop start).take count).map Leaf.lexeme)

variable {blame : Nat → Nat → Prop} {place place' : Nat → Nat} {leaves leaves' : List Leaf}

theorem LeavesAlike.getElem? (alike : LeavesAlike blame place place' leaves leaves') (index : Nat) :
    (leaves[index]? = none ∧ leaves'[index]? = none) ∨ ∃ leaf leaf', leaves[index]? = some leaf ∧
      leaves'[index]? = some leaf' ∧ LeafAlike blame place place' leaf leaf' := by
  have pointwise := alike.pointwise
  clear alike
  induction pointwise generalizing index with
  | nil => exact .inl ⟨rfl, rfl⟩
  | cons first _ ih =>
      cases index with
      | zero => exact .inr ⟨_, _, rfl, rfl, first⟩
      | succ index => exact ih index

theorem LeavesAlike.map_bare_eq (alike : LeavesAlike blame place place' leaves leaves') :
    leaves.map (fun leaf => leaf.lexeme.token.bare) =
      leaves'.map (fun leaf => leaf.lexeme.token.bare) := by
  have pointwise := alike.pointwise
  clear alike
  induction pointwise with
  | nil => rfl
  | cons first _ ih => rw [List.map_cons, List.map_cons, ih, first.bare]

theorem notAfterGroup_eq (leaves : List Leaf) (start stop : Nat) :
    notAfterGroup leaves start stop =
      match (leaves.map fun leaf => leaf.lexeme.token.bare)[start]? with
      | none => true
      | some first =>
          !(isAggregatorName first && endsInGroup
            ((leaves.map fun leaf => leaf.lexeme.token.bare).take start).reverse) := by
  rw [notAfterGroup, List.getElem?_map]
  cases leaves[start]? with
  | none => rfl
  | some first =>
      simp only [Option.map_some, isAggregatorName_bare]
      rw [← endsInGroup_map_bare, List.map_reverse, List.map_reverse, List.map_map, List.map_take]
      rfl

/-- The grammar cannot tell tokens that are alike from each other. -/
theorem LeavesAlike.indistinct (alike : LeavesAlike blame place place' leaves leaves') :
    language.grammar.Indistinct leaves leaves' where
  length := alike.pointwise.length_eq
  accepts := by
    intro index expected
    rcases alike.getElem? index with ⟨none_, none_'⟩ | ⟨leaf, leaf', found, found', same⟩
    · rw [none_, none_']
    · rw [found, found', Option.any_some, Option.any_some, same.accepts_eq]
  guards := by
    intro production listed guard carried start stop
    obtain ⟨entry, member, rfl⟩ := List.mem_map.mp listed
    rcases (Productions.natural_of_mem entry member).guard_known guard carried with rfl | rfl
    · exact alike.contiguous start (stop - start)
    · rw [notAfterGroup_eq, notAfterGroup_eq, alike.map_bare_eq]

theorem LeavesAlike.reads (alike : LeavesAlike blame place place' leaves leaves')
    (stop stop' first last : Nat) :
    language.Reads (placing (SameFault blame) place place') 0 ⟨leaves, stop⟩
      ⟨leaves', stop'⟩ first last := by
  intro index _ _ terminal datum found
  rcases alike.getElem? index with ⟨none_, _⟩ | ⟨leaf, leaf', atIndex, atIndex', same⟩
  · rw [show (Input.mk leaves stop).tokens[index]? = leaves[index]? from rfl, none_] at found
    cases found
  · rw [show (Input.mk leaves stop).tokens[index]? = leaves[index]? from rfl, atIndex,
      Option.bind_some] at found
    obtain ⟨datum', found', related⟩ := same.read found
    refine ⟨datum', ?_, related⟩
    rw [show (Input.mk leaves' stop').tokens[index + 0]? = leaves'[index]? from rfl, atIndex',
      Option.bind_some]
    exact found'

/-- The bytes of phrases over tokens that are alike correspond. -/
theorem LeavesAlike.spanBetween {stop stop' : Nat}
    (alike : LeavesAlike blame place place' leaves leaves') (stops : place stop = place' stop')
    (first last : Nat) :
    (language.spanBetween ⟨leaves, stop⟩ first last).placed place =
      (language.spanBetween ⟨leaves', stop'⟩ first last).placed place' := by
  have atEnd : (Span.emptyAt stop).placed place = (Span.emptyAt stop').placed place' :=
    congrArg₂ Span.mk stops stops
  rcases alike.getElem? first with ⟨none_, none_'⟩ | ⟨leaf, leaf', found, found', same⟩
  · simp only [Language.spanBetween, none_, none_']
    exact atEnd
  · simp only [Language.spanBetween, found, found']
    by_cases covers : first < last
    · rw [if_pos covers, if_pos covers]
      rcases alike.getElem? (last - 1) with
        ⟨none_, none_'⟩ | ⟨final, final', atLast, atLast', same'⟩
      · simp only [none_, none_']
        exact atEnd
      · simp only [atLast, atLast']
        exact congrArg₂ Span.mk same.starts same'.stops
    · rw [if_neg covers, if_neg covers]
      exact congrArg₂ Span.mk same.starts same.starts

end Lists

section Outcomes

/-- The leaves that the grammar sees. -/
def significantLeaves (leaves : List Leaf) : List Leaf :=
  leaves.filter fun leaf => !leaf.lexeme.token.isTrivia

/-- What is made of a verdict about some tokens. -/
def conclude (start : StartSymbol) (tokens : List Leaf) (atEnd : Option Nat) :
    Verdict (Traced start.nonterminal.Value) → Traced start.nonterminal.Value
  | .rejected reason => throw (reason.toError tokens atEnd)
  | .derived count value => do
      Traced.log (.accepted tokens.length)
      Traced.log (.counted count start.label)
      if 1 < count then
        Traced.log (.ambiguous count)
      match ParseError.ofDerivations? count with
      | some error => throw error
      | none => value

theorem parseLeaves_eq (start : StartSymbol) (leaves : List Leaf) (stop : Nat)
    (atEnd : Option Nat) :
    parseLeaves start leaves stop atEnd = conclude start (significantLeaves leaves) atEnd
      (language.judge start.nonterminal ⟨significantLeaves leaves, stop⟩) :=
  rfl

/-- Only the trace tells that a single derivation was counted. -/
theorem outcomeFrom_conclude_one (start : StartSymbol) (tokens : List Leaf) (atEnd : Option Nat)
    (value : Traced start.nonterminal.Value) (trace : List TraceEvent) :
    (conclude start tokens atEnd (.derived 1 value)).outcomeFrom trace =
      value.outcomeFrom (trace ++ [.accepted tokens.length] ++ [.counted 1 start.label]) :=
  rfl

theorem outcomeFrom_conclude_several (start : StartSymbol) (tokens : List Leaf)
    (atEnd : Option Nat) {count : Nat} (several : 1 < count)
    (value : Traced start.nonterminal.Value) (trace : List TraceEvent) :
    ((conclude start tokens atEnd (.derived count value)).outcomeFrom trace).1 =
      .error (.ambiguous count) := by
  match count with
  | count + 2 => rw [conclude, if_pos several]; rfl

/-- What becomes of some tokens. There is no derivation, and a token or the end is blamed;
or there is one, and it is evaluated; or there are several. -/
theorem parseLeaves_cases (start : StartSymbol) (leaves : List Leaf) (stop : Nat)
    (atEnd : Option Nat) :
    let tokens := significantLeaves leaves
    (∃ reason, language.grammar.survey start.nonterminal tokens = .error reason ∧
      ∀ trace, ((parseLeaves start leaves stop atEnd).outcomeFrom trace).1 =
        .error (reason.toError tokens atEnd)) ∨
    (∃ tally tree, language.grammar.survey start.nonterminal tokens = .ok tally ∧
      tally.count = 1 ∧
      language.grammar.IsDerivation tokens start.nonterminal 0 tokens.length tree ∧
      (∀ other, language.grammar.IsDerivation tokens start.nonterminal 0 tokens.length other →
        other = tree) ∧
      ∀ trace, ∃ traced, ((parseLeaves start leaves stop atEnd).outcomeFrom trace).1 =
        ((language.evaluate ⟨tokens, stop⟩ start.nonterminal tree).outcomeFrom traced).1) ∨
    ∃ tally, language.grammar.survey start.nonterminal tokens = .ok tally ∧
      1 < tally.count ∧
      tally.Counts (language.grammar.wholes tokens start.nonterminal 0 tokens.length) ∧
      ∀ trace, ((parseLeaves start leaves stop atEnd).outcomeFrom trace).1 =
        .error (.ambiguous tally.reported) := by
  intro tokens
  rw [parseLeaves_eq]
  rcases language.judged erasesFreely_language isRanked_language start.nonterminal
      ⟨tokens, stop⟩ with
    ⟨reason, surveyed, rejected, _⟩ | ⟨tally, tree, surveyed, counts, some_, sample, derivation,
      derived⟩
  · rw [rejected]
    exact .inl ⟨reason, surveyed, fun _ => rfl⟩
  · rw [derived]
    rcases Nat.lt_or_eq_of_le (Nat.one_le_iff_ne_zero.mpr some_) with several | one
    · refine .inr (.inr ⟨tally, surveyed, several, counts, fun trace => ?_⟩)
      exact outcomeFrom_conclude_several start tokens atEnd (Tally.one_lt_reported several) _ trace
    · refine .inr (.inl ⟨tally, tree, surveyed, one.symm, derivation,
        fun _ => Grammar.eq_of_count_eq_one counts one.symm sample, fun trace => ?_⟩)
      rw [Tally.reported_eq_one_iff.mpr one.symm]
      exact ⟨_, congrArg Prod.fst (outcomeFrom_conclude_one start tokens atEnd _ trace)⟩

variable {blame : Nat → Nat → Prop} {place place' : Nat → Nat}

/-- The errors for tokens that are alike: both blame the end, or tokens that correspond. -/
theorem LeavesAlike.toError (reason : Rejection) {leaves leaves' : List Leaf}
    (alike : LeavesAlike blame place place' leaves leaves') (atEnd atEnd' : Option Nat) :
    (reason.toError leaves atEnd = .noParse atEnd none ∧
      reason.toError leaves' atEnd' = .noParse atEnd' none) ∨
    SameFault blame (reason.toError leaves atEnd) (reason.toError leaves' atEnd') := by
  cases reason with
  | short => exact .inl ⟨rfl, rfl⟩
  | stuck token =>
      rw [Rejection.toError, Rejection.toError]
      rcases alike.getElem? token with ⟨none_, none_'⟩ | ⟨leaf, leaf', found, found', same⟩
      · rw [none_, none_']
        exact .inl ⟨rfl, rfl⟩
      · have display : leaf.lexeme.token.display = leaf'.lexeme.token.display := by
          rw [← Token.display_bare, same.bare, Token.display_bare]
        simp only [found, found', display]
        exact .inr (.noParse same.blamed)

/-- What becomes of tokens that are alike. Both end too early, or they are parsed alike, or
both are ambiguous to the same degree. -/
theorem LeavesAlike.parseLeaves_cases (placement : Placement blame place place')
    (start : StartSymbol) {leaves leaves' : List Leaf}
    (alike : LeavesAlike blame place place' (significantLeaves leaves) (significantLeaves leaves'))
    {stop stop' : Nat} (stops : place stop = place' stop') (atEnd atEnd' : Option Nat) :
    (∀ trace trace',
      ((Krl.parseLeaves start leaves stop atEnd).outcomeFrom trace).1 =
        .error (.noParse atEnd none) ∧
      ((Krl.parseLeaves start leaves' stop' atEnd').outcomeFrom trace').1 =
        .error (.noParse atEnd' none)) ∨
    Traced.Agrees (SameFault blame) (SamePlaced place place')
      (Krl.parseLeaves start leaves stop atEnd) (Krl.parseLeaves start leaves' stop' atEnd') ∨
    ∃ tally : Tally, 1 < tally.count ∧
      tally.Counts (language.grammar.wholes (significantLeaves leaves) start.nonterminal 0
        (significantLeaves leaves).length) ∧
      ∀ trace trace',
        ((Krl.parseLeaves start leaves stop atEnd).outcomeFrom trace).1 =
          .error (.ambiguous tally.reported) ∧
        ((Krl.parseLeaves start leaves' stop' atEnd').outcomeFrom trace').1 =
          .error (.ambiguous tally.reported) := by
  have same := alike.indistinct
  have surveys := same.survey_eq start.nonterminal
  rcases Krl.parseLeaves_cases start leaves stop atEnd with
    ⟨reason, surveyed, fails⟩ | ⟨tally, tree, surveyed, one, derivation, _, yields⟩ |
      ⟨tally, surveyed, several, counts, fails⟩ <;>
    rcases Krl.parseLeaves_cases start leaves' stop' atEnd' with
      ⟨reason', surveyed', fails'⟩ | ⟨tally', tree', surveyed', one', _, unique', yields'⟩ |
        ⟨tally', surveyed', several', _, fails'⟩ <;>
    rw [surveyed, surveyed'] at surveys <;> cases surveys
  · rcases alike.toError reason atEnd atEnd' with ⟨early, early'⟩ | fault
    · left
      intro trace trace'
      rw [fails, fails', early, early']
      exact ⟨rfl, rfl⟩
    · right; left
      intro trace trace'
      rw [fails, fails']
      exact .error fault
  · right; left
    intro trace trace'
    obtain ⟨traced, yields⟩ := yields trace
    obtain ⟨traced', yields'⟩ := yields' trace'
    rw [yields, yields']
    have derived := same.derives derivation
    rw [same.length] at derived
    obtain rfl := unique' tree derived
    have outcome := Language.outcome_evaluate
      (Productions.respects_language (SameFault blame) placement.monotone placement.monotone')
      derivation (alike.reads stop stop' _ _)
      (fun extent _ => alike.spanBetween stops extent.1 extent.2)
    rw [Derivation.moved_zero] at outcome
    exact outcome _ _
  · omega
  · omega
  · exact .inr (.inr ⟨tally, several, counts, fun trace trace' => ⟨fails trace, fails' trace'⟩⟩)

/-- Tokens that are alike are parsed alike, unless they have several derivations, in which
case both are ambiguous to the same degree. -/
theorem LeavesAlike.parseLeaves (placement : Placement blame place place')
    (start : StartSymbol) {leaves leaves' : List Leaf}
    (alike : LeavesAlike blame place place' (significantLeaves leaves) (significantLeaves leaves'))
    {stop stop' : Nat} (stops : place stop = place' stop') {atEnd atEnd' : Option Nat}
    (ends : Option.Rel blame atEnd atEnd') :
    Traced.Agrees (SameError blame) (SamePlaced place place')
      (Krl.parseLeaves start leaves stop atEnd) (Krl.parseLeaves start leaves' stop' atEnd') ∨
    ∃ tally : Tally, 1 < tally.count ∧
      tally.Counts (language.grammar.wholes (significantLeaves leaves) start.nonterminal 0
        (significantLeaves leaves).length) ∧
      ∀ trace trace',
        ((Krl.parseLeaves start leaves stop atEnd).outcomeFrom trace).1 =
          .error (.ambiguous tally.reported) ∧
        ((Krl.parseLeaves start leaves' stop' atEnd').outcomeFrom trace').1 =
          .error (.ambiguous tally.reported) := by
  rcases alike.parseLeaves_cases placement start stops atEnd atEnd' with
    early | agrees | ambiguous
  · left
    intro trace trace'
    obtain ⟨fails, fails'⟩ := early trace trace'
    rw [fails, fails']
    exact .error (.noParse ends)
  · exact .inl (agrees.mono fun _ _ same => same.sameError)
  · exact .inr ambiguous

end Outcomes

section Templates

variable {blame : Nat → Nat → Prop} {place place' : Nat → Nat}

/-- The places of tokens that correspond become one place. -/
abbrev Meet (place place' : Nat → Nat) (offset offset' : Nat) : Prop :=
  place offset = place' offset'

/-- Expressions over tokens that are alike are parsed alike, as they are never ambiguous. -/
theorem LeavesAlike.parseExpression (placement : Placement blame place place')
    {leaves leaves' : List Leaf}
    (alike : LeavesAlike blame place place' (significantLeaves leaves) (significantLeaves leaves'))
    {stop stop' atEnd atEnd' : Nat} (stops : place stop = place' stop')
    (ends : blame atEnd atEnd') :
    Traced.Agrees (SameFault blame) (SamePlaced place place')
      (Krl.parseLeaves .expression leaves stop (some atEnd))
      (Krl.parseLeaves .expression leaves' stop' (some atEnd')) := by
  rcases alike.parseLeaves_cases placement .expression stops (some atEnd) (some atEnd') with
    early | agrees | ⟨tally, several, counts, _⟩
  · intro trace trace'
    obtain ⟨fails, fails'⟩ := early trace trace'
    rw [fails, fails']
    exact .error (.noParse ends)
  · exact agrees
  · exact absurd (Grammar.count_le_one counts fun _ derivation _ derivation' =>
      Distinction.expression_unique derivation derivation') (Nat.not_le_of_lt several)

@[simp] theorem lexeme_ofLexeme (lexeme : Lexeme) : (Leaf.ofLexeme lexeme).lexeme = lexeme := by
  cases lexeme
  rw [Leaf.ofLexeme]

@[simp] theorem map_lexeme_leavesOf (lexemes : List Lexeme) :
    (leavesOf lexemes).map Leaf.lexeme = lexemes := by
  induction lexemes with
  | nil => rfl
  | cons first others ih => rw [leavesOf, List.map_cons, ih, lexeme_ofLexeme]

theorem leavesOf_eq_map (lexemes : List Lexeme) : leavesOf lexemes = lexemes.map Leaf.ofLexeme := by
  induction lexemes with
  | nil => rfl
  | cons first others ih => rw [leavesOf, ih, List.map_cons]

theorem length_leavesOf (lexemes : List Lexeme) : (leavesOf lexemes).length = lexemes.length := by
  rw [leavesOf_eq_map, List.length_map]

theorem getElem?_leavesOf_iff {lexemes : List Lexeme} {index : Nat} {leaf : Leaf} :
    (leavesOf lexemes)[index]? = some leaf ↔
      ∃ lexeme, lexemes[index]? = some lexeme ∧ Leaf.ofLexeme lexeme = leaf := by
  rw [leavesOf_eq_map, List.getElem?_map, Option.map_eq_some_iff]

/-- The span of some tokens begins with the first of them and ends with the last. -/
theorem spanBetween_leavesOf {lexemes : List Lexeme} {first last stop : Nat}
    (covers : first < last) (bound : last ≤ lexemes.length) :
    language.spanBetween ⟨leavesOf lexemes, stop⟩ first last =
      ⟨lexemes[first].start, lexemes[last - 1].stop⟩ := by
  have found (index : Nat) (below : index < lexemes.length) :
      (leavesOf lexemes)[index]? = some (.ofLexeme lexemes[index]) :=
    getElem?_leavesOf_iff.mpr ⟨_, List.getElem?_eq_getElem below, rfl⟩
  simp only [Language.spanBetween, found first (by omega), found (last - 1) (by omega),
    if_pos covers]
  simp [language, Lexeme.span]

theorem significantLeaves_leavesOf (lexemes : List Lexeme) :
    significantLeaves (leavesOf lexemes) = leavesOf (significant lexemes) := by
  induction lexemes with
  | nil => rfl
  | cons first others ih =>
      rw [leavesOf, significantLeaves, significant, List.filter_cons, List.filter_cons,
        lexeme_ofLexeme]
      split
      · exact congrArg (List.cons (Leaf.ofLexeme first)) ih
      · exact ih

theorem LexemesAlike.leavesAlike {lexemes lexemes' : List Lexeme}
    (alike : LexemesAlike blame (Meet place place') lexemes lexemes')
    (pointwise : List.Forall₂ (LeafAlike blame place place') (leavesOf lexemes)
      (leavesOf lexemes')) :
    LeavesAlike blame place place' (leavesOf lexemes) (leavesOf lexemes') where
  pointwise := pointwise
  contiguous := by
    intro start count
    rw [List.map_take, List.map_take, List.map_drop, List.map_drop, map_lexeme_leavesOf,
      map_lexeme_leavesOf]
    exact (alike.drop start).isContiguous_take count

mutual

/-- The parts of templates that are alike have values that agree. The induction is on how
the tokens are alike. -/
theorem Token.Alike.templateParts (placement : Placement blame place place')
    {token token' : Token} : Token.Alike blame (Meet place place') token token' →
      Traced.Agrees (SameFault blame) (SamePlaced place place') (Krl.templateParts token)
        (Krl.templateParts token')
  | @Token.Alike.plain _ _ token plain => by
      have empty : Krl.templateParts token = pure [] := by
        cases token <;> first | rfl | exact absurd rfl (plain _)
      rw [empty]
      exact .pure rfl
  | .chevron alike => alike.partValues placement

theorem PartsAlike.partValues (placement : Placement blame place place')
    {parts parts' : List TemplatePart} : PartsAlike blame (Meet place place') parts parts' →
      Traced.Agrees (SameFault blame) (SamePlaced place place') (Krl.partValues parts)
        (Krl.partValues parts')
  | .nil => .pure rfl
  | @PartsAlike.text _ _ value _ _ _ _ _ _ starts stops rest => by
      rw [Krl.partValues, Krl.partValues, Krl.partValue, Krl.partValue]
      have text : SamePlaced place place' (Expr.mk (.string value) ⟨_, _⟩)
          (Expr.mk (.string value) ⟨_, _⟩) :=
        congrArg (Expr.mk (.string value)) (congrArg₂ Span.mk starts stops)
      refine Traced.Agrees.bind (.pure text) fun part part' same => ?_
      refine (rest.partValues placement).bind fun others others' same' => .pure ?_
      exact congrArg₂ List.cons same same'
  | .interpolation alike closes rest => by
      rw [Krl.partValues, Krl.partValues, Krl.partValue, Krl.partValue]
      have leaves := alike.leavesAlike (alike.leaves placement)
      rw [← significantLeaves_leavesOf, ← significantLeaves_leavesOf] at leaves
      have parts := leaves.parseExpression placement (placement.meet closes) closes
      refine parts.bind fun part part' same => ?_
      refine (rest.partValues placement).bind fun others others' same' => .pure ?_
      exact congrArg₂ List.cons same same'

theorem LexemesAlike.leaves (placement : Placement blame place place')
    {lexemes lexemes' : List Lexeme} : LexemesAlike blame (Meet place place') lexemes lexemes' →
      List.Forall₂ (LeafAlike blame place place') (leavesOf lexemes) (leavesOf lexemes')
  | .nil => .nil
  | .cons alike starts stops _ rest =>
      .cons ⟨alike.bare_eq, starts, placement.meet starts, stops, alike.templateParts placement⟩
        (rest.leaves placement)

end

end Templates

end Krl
