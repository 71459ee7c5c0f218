import Krl.Parse
import Krl.Proofs.Language.Evaluation
import Krl.Proofs.Language.Layers

/-!
# Phrases with their values

That some tokens form a phrase with a certain value is put together from the parts, production
by production. This is the way from the right sides of productions to what they make, where an
invariant goes the other way.
-/

namespace Krl

/-- The tokens from one index up to another form a phrase with the value. -/
def Phrase (input : Input Leaf) (name : Nonterminal) (first last : Nat) (value : name.Value) :
    Prop :=
  ∃ tree, language.grammar.IsDerivation input.tokens name first last tree ∧
    Traced.Settles (language.evaluate input name tree) value

/-- What the parts of phrases have to be: phrases and tokens with their meaning. -/
def phrases (input : Input Leaf) : Invariant where
  value := Phrase input
  datum := fun tokens index datum => (input.tokens[index]?).bind tokens.read = some datum

variable {input : Input Leaf}

theorem Phrase.le {name : Nonterminal} {first last : Nat} {value : name.Value}
    (phrase : Phrase input name first last value) : first ≤ last := by
  obtain ⟨tree, derivation, _⟩ := phrase
  exact derivation.le

/-- Arguments that are supplied are the values of derivations. The induction is on the
arguments. -/
theorem Invariant.Supplies.exists_derives {Result : Type}
    {symbols : List (Symbol Nonterminal Terminal)} {first last : Nat}
    {function : Curried Nonterminal.Value Terminal.Datum symbols Result} {value : Result}
    (supplies : (phrases input).Supplies symbols first last function value) :
    ∃ children, language.grammar.Derives input.tokens symbols first last children ∧
      Traced.Settles (language.apply input Result symbols (Curried.map pure symbols function)
        children) value := by
  induction supplies with
  | nil => exact ⟨[], .nil, (Traced.settles_pure _).congr (Language.apply_nil language _).symm⟩
  | nonterminal _ known _ ih =>
      obtain ⟨tree, derivation, evaluated⟩ := known
      obtain ⟨siblings, derived, applied⟩ := ih
      refine ⟨tree :: siblings, Grammar.derives_nonterminal_cons_iff.mpr
        ⟨_, _, _, derivation, derived, rfl⟩, ?_⟩
      exact (evaluated.bind applied).congr (Language.apply_node language _).symm
  | @terminal tokens others here last function datum result known _ ih =>
      obtain ⟨siblings, derived, applied⟩ := ih
      obtain ⟨leaf, found, read⟩ := Option.bind_eq_some_iff.mp known
      have accepted : language.grammar.accepts tokens leaf = true :=
        Option.isSome_iff_exists.mpr ⟨datum, read⟩
      have step : _ = language.apply input Result others _ siblings :=
        Language.apply_leaf language known (Curried.map pure (.terminal tokens :: others) function)
      exact ⟨.leaf here :: siblings, .leaf found accepted derived, applied.congr step.symm⟩

namespace Productions

variable {lhs : Nonterminal} {rhs : List (Symbol Nonterminal Terminal)}
  {action : Span → Curried Nonterminal.Value Terminal.Datum rhs lhs.Value} {first last : Nat}
  {value : lhs.Value}

/-- The parts of a production form what it makes of them. -/
theorem phrase_of_rule (listed : rule lhs rhs action ∈ language.reductions)
    (supplies : (phrases input).Supplies rhs first last
      (action (language.spanBetween input first last)) value) :
    Phrase input lhs first last value := by
  obtain ⟨children, derived, applied⟩ := supplies.exists_derives
  obtain ⟨tree, derivation, evaluated⟩ := Language.exists_node listed rfl derived
  exact ⟨tree, derivation, applied.congr evaluated.symm⟩

/-- The parts of a production with a guard do so if the guard lets the tokens stand. -/
theorem phrase_of_guarded {guard : Guard Leaf}
    (listed : guarded guard (rule lhs rhs action) ∈ language.reductions)
    (admitted : guard input.tokens first last = true)
    (supplies : (phrases input).Supplies rhs first last
      (action (language.spanBetween input first last)) value) :
    Phrase input lhs first last value := by
  have admits : (guarded guard (rule lhs rhs action)).toProduction.Admits input.tokens first
      last := by
    intro other same
    cases same
    exact admitted
  obtain ⟨children, derived, applied⟩ := supplies.exists_derives
  obtain ⟨tree, derivation, evaluated⟩ := Language.exists_node_of_admits listed admits derived
  exact ⟨tree, derivation, applied.congr evaluated.symm⟩

/-- A production that passes on a phrase passes on its value. -/
theorem phrase_of_same {name : Nonterminal} {pass : name.Value → lhs.Value} {value : name.Value}
    (listed : same lhs name pass ∈ language.reductions)
    (phrase : Phrase input name first last value) : Phrase input lhs first last (pass value) :=
  phrase_of_rule listed (.nonterminal phrase.le phrase .nil)

section Supplies

variable {name : Nonterminal} {others : List (Symbol Nonterminal Terminal)} {Result : Type}
  {function : name.Value → Curried Nonterminal.Value Terminal.Datum others Result}
  {result : Result} {middle : Nat} {value : name.Value}

theorem supplies_phrase (phrase : Phrase input name first middle value)
    (rest : (phrases input).Supplies others middle last (function value) result) :
    (phrases input).Supplies (the name :: others) first last function result :=
  .nonterminal phrase.le phrase rest

/-- A phrase that may be left out, and is. -/
theorem supplies_omitted (listed : rule name [] (fun _ => value) ∈ language.reductions)
    (rest : (phrases input).Supplies others first last (function value) result) :
    (phrases input).Supplies (the name :: others) first last function result :=
  supplies_phrase (phrase_of_rule listed .nil) rest

end Supplies

/-- Two phrases with a token between them are what an infix production calls for. -/
theorem supplies_joined {left right : Nonterminal} {tokens : Terminal} {Result : Type}
    {function : left.Value → tokens.Datum → right.Value → Result} {first middle last : Nat}
    {value : left.Value} {datum : tokens.Datum} {other : right.Value}
    (leftSide : Phrase input left first middle value)
    (between : (phrases input).datum tokens middle datum)
    (rightSide : Phrase input right (middle + 1) last other) :
    (phrases input).Supplies [the left, token tokens, the right] first last function
      (function value datum other) :=
  supplies_phrase leftSide (.terminal between (supplies_phrase rightSide .nil))

end Productions

/-- The tokens stand in the input from one index up to another. -/
def Stand (input : Input Leaf) : Nat → List Lexeme → Nat → Prop
  | first, [], last => first = last
  | first, lexeme :: others, last =>
      input.tokens[first]? = some (.ofLexeme lexeme) ∧ Stand input (first + 1) others last

theorem stand_append_iff {first last : Nat} {before behind : List Lexeme} :
    Stand input first (before ++ behind) last ↔
      ∃ middle, Stand input first before middle ∧ Stand input middle behind last := by
  induction before generalizing first with
  | nil => simp [Stand]
  | cons lexeme before ih => simp only [List.cons_append, Stand, ih, and_assoc, exists_and_left]

namespace Stand

variable {first last : Nat} {lexemes : List Lexeme}

theorem le (stand : Stand input first lexemes last) : first ≤ last := by
  induction lexemes generalizing first with
  | nil => exact Nat.le_of_eq stand
  | cons lexeme lexemes ih => exact Nat.le_of_succ_le (ih stand.2)

theorem last_eq (stand : Stand input first lexemes last) : last = first + lexemes.length := by
  induction lexemes generalizing first with
  | nil => exact stand.symm
  | cons lexeme others ih =>
      rw [ih stand.2, List.length_cons]
      omega

theorem single {lexeme : Lexeme} (found : input.tokens[first]? = some (.ofLexeme lexeme)) :
    Stand input first [lexeme] (first + 1) :=
  ⟨found, rfl⟩

/-- Tokens are a piece of the input where they stand. -/
theorem piece_eq (stand : Stand input first lexemes last) :
    (input.tokens.drop first).take (last - first) = lexemes.map Leaf.ofLexeme := by
  induction lexemes generalizing first with
  | nil =>
      cases stand
      rw [Nat.sub_self, List.take_zero, List.map_nil]
  | cons lexeme others ih =>
      obtain ⟨found, stand⟩ := stand
      obtain ⟨below, same⟩ := List.getElem?_eq_some_iff.mp found
      have longer : last - first = last - (first + 1) + 1 := by
        have := stand.le
        omega
      rw [longer, List.drop_eq_getElem_cons below, List.take_succ_cons, ih stand, same,
        List.map_cons]

end Stand

theorem stand_leavesOf (lexemes : List Lexeme) (stop : Nat) :
    Stand ⟨leavesOf lexemes, stop⟩ 0 lexemes (leavesOf lexemes).length := by
  suffices behind : ∀ before, Stand ⟨before ++ leavesOf lexemes, stop⟩ before.length lexemes
      (before ++ leavesOf lexemes).length from behind []
  induction lexemes with
  | nil =>
      intro before
      rw [leavesOf, List.append_nil]
      rfl
  | cons lexeme others ih =>
      intro before
      have rest := ih (before ++ [.ofLexeme lexeme])
      rw [List.append_assoc, List.length_append] at rest
      refine ⟨?_, rest⟩
      show (before ++ leavesOf (lexeme :: others))[before.length]? = _
      rw [leavesOf, List.getElem?_append_right (Nat.le_refl _), Nat.sub_self]
      rfl

/-- Something at its place in a source. -/
structure Spanned (α : Type) where
  value : α
  span : Span

/-- The name as a token. -/
def Identifier.lexeme (name : Identifier) : Lexeme :=
  ⟨.symbol name.value, name.span.start, name.span.stop⟩

/-- A delimiter, an operator, or a word that is written in one way only. -/
inductive Fixed where
  | mark (punct : Punct)
  | word (text : String)

namespace Fixed

/-- The token that it is. -/
def token : Fixed → Token
  | mark punct => .punct punct
  | word text => .symbol text

/-- The class of tokens that has only this one. -/
def terminal : Fixed → Terminal
  | mark punct => .punct punct
  | word text => .word text

/-- The token at its place. -/
def lexeme (fixed : Fixed) (span : Span) : Lexeme :=
  ⟨fixed.token, span.start, span.stop⟩

/-- A fixed token is what a place for it calls for. -/
theorem exists_datum {fixed : Fixed} {span : Span} {index : Nat}
    (found : input.tokens[index]? = some (.ofLexeme (fixed.lexeme span))) :
    ∃ datum, (phrases input).datum fixed.terminal index datum := by
  cases fixed with
  | mark punct => exact ⟨(), (congrArg (Option.bind · _) found).trans (if_pos rfl)⟩
  | word text => exact ⟨span, (congrArg (Option.bind · _) found).trans (if_pos rfl)⟩

end Fixed

/-- The span is that of some tokens, which are not none. -/
structure SpanOf (input : Input Leaf) (first last : Nat) (span : Span) : Prop where
  nonempty : first < last
  opens : ∃ leaf, input.tokens[first]? = some leaf ∧ leaf.lexeme.start = span.start
  closes : ∃ leaf, input.tokens[last - 1]? = some leaf ∧ leaf.lexeme.stop = span.stop

namespace SpanOf

variable {first middle last : Nat} {left right : Span}

theorem spanBetween_eq (covers : SpanOf input first last left) :
    language.spanBetween input first last = left := by
  obtain ⟨nonempty, ⟨opening, opens, starts⟩, ⟨closing, closes, stops⟩⟩ := covers
  simp only [Language.spanBetween, opens, closes, if_pos nonempty]
  exact congrArg₂ Span.mk starts stops

/-- A phrase with tokens has their span. -/
theorem between (nonempty : first < last) (bound : last ≤ input.tokens.length) :
    SpanOf input first last (language.spanBetween input first last) := by
  have opens := List.getElem?_eq_getElem (Nat.lt_of_lt_of_le nonempty bound)
  have closes := List.getElem?_eq_getElem (show last - 1 < input.tokens.length by omega)
  simp only [Language.spanBetween, opens, closes, if_pos nonempty]
  exact ⟨nonempty, ⟨_, opens, rfl⟩, _, closes, rfl⟩

/-- The span of tokens up to those of another span. -/
theorem join (covers : SpanOf input first middle left) {middle' : Nat}
    (others : SpanOf input middle' last right) (ordered : middle ≤ middle') :
    SpanOf input first last ⟨left.start, right.stop⟩ :=
  ⟨by have := covers.nonempty; have := others.nonempty; omega, covers.opens, others.closes⟩

theorem lexeme {index : Nat} {lexeme : Lexeme}
    (found : input.tokens[index]? = some (.ofLexeme lexeme)) :
    SpanOf input index (index + 1) lexeme.span := by
  obtain ⟨token, start, stop⟩ := lexeme
  exact ⟨Nat.lt_succ_self _, ⟨_, found, rfl⟩, ⟨_, found, rfl⟩⟩

end SpanOf

end Krl
