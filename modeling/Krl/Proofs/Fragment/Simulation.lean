import Krl.Fragment.Parse
import Krl.Proofs.Fragment.Performing
import Krl.Proofs.Grammar.Assembly
import Krl.Proofs.Language.Ranks

/-!
# Parsing by fragments is parsing

The walk over the chart leaves a fragment that is read as the value of the derivation. So a source
comes to the same by fragments without types as it does by actions that have types: the same
value, the same error, and the same trace.
-/

namespace Krl

open Fragment Productions Traced

section Table

theorem exists_of_forall₂ {α β : Type} {fits : α → β → Prop} {items : List α} {others : List β}
    (every : List.Forall₂ fits items others) {index : Nat} {other : β}
    (listed : others[index]? = some other) : ∃ item, items[index]? = some item ∧ fits item other := by
  induction every generalizing index with
  | nil => cases listed
  | @cons item _ _ _ here _ ih =>
      cases index with
      | zero =>
          cases listed
          exact ⟨item, rfl, here⟩
      | succ index => exact ih listed

/-- A reducer stands beside every production, and does what its action does. -/
theorem exists_assembling {index : Nat} {entry : Entry}
    (listed : language.reductions[index]? = some entry) :
    ∃ reducer, assembly.productions[index]? =
      some (Reducer.assembling entry.toProduction reducer) ∧ Performs reducer entry := by
  obtain ⟨reducer, there, performs⟩ := exists_of_forall₂ performs_all listed
  refine ⟨reducer, ?_, performs⟩
  rw [assembly, List.getElem?_zipWith, Language.grammar, List.getElem?_map, listed, there]
  rfl

/-- The reducers leave the grammar as it is. -/
theorem grammar_assembly : assembly.grammar = language.grammar := by
  have length := performs_all.length_eq
  have productions : assembly.grammar.productions = language.grammar.productions := by
    apply List.ext_getElem?
    intro index
    rw [Assembly.grammar, List.getElem?_map]
    cases listed : language.reductions[index]? with
    | some entry =>
        obtain ⟨reducer, found, _⟩ := exists_assembling listed
        rw [found, Language.grammar, List.getElem?_map, listed]
        rfl
    | none =>
        have outside : assembly.productions[index]? = none := by
          rw [assembly, List.getElem?_zipWith, Language.grammar, List.getElem?_map, listed]
          rfl
        rw [outside, Language.grammar, List.getElem?_map, listed]
        rfl
  exact congrArg (Grammar.mk · language.grammar.accepts) productions

end Table

section Derivations

variable {input : Input Leaf}

/-- Each fragment for a token holds the token. -/
abbrev Holds (tokens : List Leaf) : List Derivation → List Fragment → Prop :=
  List.Forall₂ fun tree part =>
    ∀ index leaf, tree = .leaf index → tokens[index]? = some leaf → part = .piece .token leaf

/-- A phrase of one token covers the bytes of this token. -/
theorem spanBetween_of_holds {expected : Terminal} {start stop : Nat} {trees : List Derivation}
    {leaf : Leaf}
    (derived : language.grammar.Derives input.tokens [.terminal expected] start stop trees)
    (hold : Holds input.tokens trees [.piece .token leaf]) :
    language.spanBetween input start stop = leaf.lexeme.span := by
  obtain ⟨rfl, rfl, token, found, _⟩ := Grammar.derives_terminal_iff.mp derived
  cases (List.forall₂_cons.mp hold).1 start token rfl found
  rw [Language.spanBetween, found]
  simp only [Nat.lt_succ_self, if_true, Nat.add_sub_cancel, found]
  rfl

/-- What is made of the fragments of derivations is read as what an action makes of their values.
The induction is on the derivations, and what has been made of the first parts is left open. -/
theorem readsAs_parts {symbols : List (Symbol Nonterminal Terminal)} {start stop : Nat}
    {trees : List Derivation}
    (derived : language.grammar.Derives input.tokens symbols start stop trees)
    {Result : Type} {reading : Fragment → Except ParseError Result}
    {finish : List Fragment → Traced Fragment} {allowed : List Fragment → Prop}
    {action : Curried Nonterminal.Value Terminal.Datum symbols (Traced Result)}
    (mirrors : Mirrors
      (fun parts computation => allowed parts → ReadsAs reading (finish parts) computation)
      symbols action)
    (holds : ∀ parts, Holds input.tokens trees parts → allowed parts) :
    ReadsAs reading
      (assembly.assembleAll input.tokens (language.spanBetween input) trees >>= finish)
      (language.apply input Result symbols action trees) := by
  induction derived generalizing Result finish allowed with
  | nil =>
      refine (mirrors (holds [] .nil)).congr ?_ (Language.apply_nil language action)
      rw [Assembly.assembleAll, pure_bind]
  | @leaf expected others here stop siblings token found accepted rest ih =>
      obtain ⟨datum, read⟩ := Option.isSome_iff_exists.mp accepted
      have known : (input.tokens[here]?).bind (language.read expected) = some datum := by
        rw [found, Option.bind_some, read]
      have gives : expected.Gives token datum := Terminal.gives_of_read read
      have behind : Mirrors
          (fun parts computation => allowed (.piece .token token :: parts) →
            ReadsAs reading (finish (.piece .token token :: parts)) computation)
          others (action datum) :=
        mirrors datum token gives
      refine (ih behind fun parts hold => holds _ (.cons ?_ hold)).congr ?_
        (Language.apply_leaf language known action)
      · intro index leaf same there
        cases same
        rw [found] at there
        cases there
        rfl
      · rw [Assembly.assembleAll_cons_bind, Assembly.assemble_leaf found, pure_bind]
        rfl
  | @node index production others start middle stop children siblings listed _ inner rest innerIh
      restIh =>
      obtain ⟨entry, there, rfl⟩ := Language.production_of_reduction listed
      obtain ⟨reducer, assembled, performs⟩ := exists_assembling there
      have made : ReadsAs entry.lhs.reading
          (assembly.assemble input.tokens (language.spanBetween input)
            (.node index start middle children))
          (language.evaluate input entry.lhs (.node index start middle children)) := by
        refine (innerIh (performs _) ?covers).congr (Assembly.assemble_node assembled children)
          (Language.evaluate_node there input start middle children)
        rintro _ hold tokens leaf single rfl
        exact spanBetween_of_holds (single ▸ inner) hold
      refine (made.bind fun part value read => ?_).congr (Assembly.assembleAll_cons_bind ..)
        (Language.apply_node language action)
      have behind : Mirrors
          (fun parts computation => allowed (part :: parts) →
            ReadsAs reading (finish (part :: parts)) computation)
          others (action value) :=
        mirrors value part read
      exact restIh behind fun parts hold => holds _ (.cons (fun _ _ same => by cases same) hold)

/-- The fold of the reducers over a derivation is read as the value of the derivation. -/
theorem readsAs_assemble {name : Nonterminal} {start stop : Nat} {tree : Derivation}
    (derivation : language.grammar.IsDerivation input.tokens name start stop tree) :
    ReadsAs name.reading (assembly.assemble input.tokens (language.spanBetween input) tree)
      (language.evaluate input name tree) := by
  have mirrors : Mirrors
      (fun parts computation =>
        True → ReadsAs name.reading (pure (parts.headD .nothing)) computation)
      [.nonterminal name] (fun value => (pure value : Traced name.Value)) :=
    fun _ _ read _ => .pure read
  refine (readsAs_parts derivation mirrors fun _ _ => trivial).congr ?_ ?_
  · rw [Assembly.assembleAll, Assembly.assembleAll]
    simp only [pure_bind, bind_assoc]
    exact (bind_pure (assembly.assemble _ _ tree)).symm
  · refine Eq.symm ((Language.apply_node language _).trans ?_)
    exact (congrArg (language.evaluate input name tree >>= ·)
      (funext fun value => Language.apply_nil language _)).trans (bind_pure _)

end Derivations

section Sources

theorem ParseError.ofDerivations?_eq_none_iff {count : Nat} :
    ofDerivations? count = none ↔ count = 1 := by
  match count with
  | 0 | 1 | count + 2 => simp [ofDerivations?]

/-- The fragment of some tokens is read as their value. -/
theorem readsAs_ofLeaves (start : StartSymbol) (leaves : List Leaf) (stop : Nat)
    (atEnd : Option Nat) :
    ReadsAs start.nonterminal.reading (Fragment.ofLeaves start leaves stop atEnd)
      (parseLeaves start leaves stop atEnd) := by
  rw [Fragment.ofLeaves, parseLeaves, Language.judge, Grammar.survey, grammar_assembly]
  generalize leaves.filter (fun leaf => !leaf.lexeme.token.isTrivia) = tokens
  have outcome := Grammar.recognized_recognize erasesFreely_language start.nonterminal tokens
  dsimp only
  cases recognized : language.grammar.recognize start.nonterminal tokens with
  | error reason => exact .throw _
  | ok chart =>
      rw [recognized] at outcome
      obtain ⟨exact_, size, _⟩ := outcome
      have inside : tokens.length < chart.size := by omega
      obtain ⟨counts, sound⟩ := Grammar.counts_derivations exact_ isRanked_language inside .first
        Grammar.faithful_empty
      rcases surveyed : language.grammar.derivations chart start.nonterminal 0 tokens.length .empty
        with ⟨tally, answers⟩
      rw [surveyed] at counts sound
      dsimp only at counts sound
      cases verdict : ParseError.ofDerivations? tally.reported with
      | some error =>
          simp only [surveyed, verdict]
          refine .after _ fun _ => .after _ fun _ => ?_
          split
          · exact .after _ fun _ => .throw error
          · exact .throw error
      | none =>
          have reported := ParseError.ofDerivations?_eq_none_iff.mp verdict
          have one := Tally.reported_eq_one_iff.mp reported
          obtain ⟨tree, member, sample⟩ := counts.sample (one ▸ Nat.one_ne_zero)
          have derivation : language.grammar.IsDerivation (Input.mk tokens stop).tokens
              start.nonterminal 0 tokens.length tree :=
            member
          have unique : ∀ other, language.grammar.IsDerivation tokens start.nonterminal 0
              tokens.length other → other = tree :=
            fun _ => Grammar.eq_of_count_eq_one counts one sample.symm
          have built : assembly.build chart tokens (language.spanBetween ⟨tokens, stop⟩)
              start.nonterminal tally answers =
                assembly.assemble tokens (language.spanBetween ⟨tokens, stop⟩) tree :=
            Assembly.build_eq (grammar_assembly ▸ exact_) (grammar_assembly ▸ isRanked_language)
              inside sample.symm (grammar_assembly ▸ derivation) (grammar_assembly ▸ unique)
              (grammar_assembly ▸ sound)
          have concluded := readsAs_assemble derivation
          rw [← built] at concluded
          simp only [surveyed, ← sample, reported, Nat.lt_irrefl, if_false]
          exact .after _ fun _ => .after _ fun _ => concluded

namespace Fragment

-- Interpolations nest, so that the tokens and all that is in them are compared at once.
mutual

theorem leafOf_eq : (lexeme : Lexeme) → leafOf lexeme = Leaf.ofLexeme lexeme
  | ⟨token, start, stop⟩ => by
      rw [leafOf, Leaf.ofLexeme, partsOf_eq token]

theorem partsOf_eq : (token : Token) → partsOf token = templateParts token
  | .chevron parts => by
      rw [partsOf, templateParts, expressionsOf_eq parts]
  | .whitespace | .lineComment | .blockComment | .number _ | .string _ | .regexp ..
  | .symbol _ | .domainName .. | .punct _ => by
      simp [partsOf, templateParts]

theorem expressionsOf_eq : (parts : List TemplatePart) → expressionsOf parts = partValues parts
  | [] => by
      rw [expressionsOf, partValues]
  | part :: others => by
      rw [expressionsOf, partValues, expressionOf_eq part, expressionsOf_eq others]

theorem expressionOf_eq : (part : TemplatePart) → expressionOf part = partValue part
  | .text value start stop => by
      rw [expressionOf, partValue]
  | .interpolation tokens start close => by
      rw [expressionOf, partValue, leavesOf_eq tokens]
      exact (readsAs_ofLeaves .expression (Krl.leavesOf tokens) close (some close)).eq

theorem leavesOf_eq : (lexemes : List Lexeme) → leavesOf lexemes = Krl.leavesOf lexemes
  | [] => by
      rw [leavesOf, Krl.leavesOf]
  | lexeme :: others => by
      rw [leavesOf, Krl.leavesOf, leafOf_eq lexeme, leavesOf_eq others]

end

theorem readsAs_ofSource (start : StartSymbol) (source : String) :
    ReadsAs start.nonterminal.reading (ofSource start source) (parseSource start source) := by
  rw [ofSource, parseSource]
  cases Token.tokenize source with
  | error error => exact .throw _
  | ok lexemes =>
      dsimp only
      rw [leavesOf_eq]
      exact .after _ fun _ => readsAs_ofLeaves start _ _ none

/-- By fragments, a source has the same outcome and the same trace. -/
theorem parseTraced_eq (source : String) (options : ParseOptions) :
    parseTraced source options = Krl.parseTraced source options := by
  rw [parseTraced, Krl.parseTraced, ← (readsAs_ofSource .main source).eq]
  rfl

theorem parse_eq (source : String) (options : ParseOptions) :
    parse source options = Krl.parse source options :=
  congrArg Prod.fst (parseTraced_eq source options)

theorem parseExpression_eq (source : String) :
    parseExpression source = Krl.parseExpression source := by
  rw [parseExpression, Krl.parseExpression, ← (readsAs_ofSource .expression source).eq]
  rfl

end Fragment

end Sources

end Krl
