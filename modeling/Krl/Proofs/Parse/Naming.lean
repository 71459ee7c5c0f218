import Krl.Proofs.Parse.EventPrecedence
import Krl.Proofs.Parse.Templates
import Krl.Proofs.Token.Joins

/-!
# Identifiers of rulesets in trees

The identifiers in the tree of a ruleset are its own and those in its properties. Each of them is
made of tokens that are words and the marks between them, and that touch.
-/

namespace Krl

open Token

/-- The identifiers of rulesets in a value. -/
def MetaValue.rulesetIds : MetaValue → List RulesetId
  | .use _ rid _ _ _ | .errors rid _ => [rid]
  | .provides _ _ rids => rids
  | _ => []

/-- The identifiers of rulesets in the properties of a ruleset. -/
def RulesetMeta.rulesetIds (properties : RulesetMeta) : List RulesetId :=
  properties.properties.flatMap fun property => property.value.rulesetIds

/-- The identifier of a ruleset, and those in its properties. -/
def Ruleset.rulesetIds (ruleset : Ruleset) : List RulesetId :=
  ruleset.rid :: ruleset.properties.toList.flatMap RulesetMeta.rulesetIds

/-- The identifiers of rulesets in a program. -/
def Program.rulesetIds : Program → List RulesetId
  | ruleset value => value.rulesetIds
  | statements _ => []

/-- The identifiers of rulesets in what a phrase stands for. -/
def Nonterminal.named : (name : Nonterminal) → name.Value → List RulesetId
  | .main, value => value.rulesetIds
  | .ruleset, value => value.rulesetIds
  | .rulesetId, value => [value]
  | .rulesetIds, items => items
  | .metaOpt, value => value.toList.flatMap RulesetMeta.rulesetIds
  | .metaBlock, value => value.rulesetIds
  | .metaProperties, items => items.flatMap fun item => item.value.rulesetIds
  | .metaProperty, value => value.value.rulesetIds
  | _, _ => []

/-- The phrases that may have identifiers of rulesets in them. -/
def naming : List Nonterminal :=
  [.main, .ruleset, .rulesetId, .rulesetIds, .metaOpt, .metaBlock, .metaProperties, .metaProperty]

theorem Nonterminal.named_eq_nil {name : Nonterminal} (other : name ∉ naming)
    (value : name.Value) : name.named value = [] := by
  cases name <;> first | rfl | exact absurd (by decide) other

theorem Stand.contiguous_iff {input : Input Leaf} {first last : Nat} {lexemes : List Lexeme}
    (stand : Stand input first lexemes last) :
    contiguous input.tokens first last = true ↔ isContiguous lexemes = true := by
  rw [contiguous, stand.piece_eq, List.map_map, List.map_congr_left fun lexeme _ =>
    show (Leaf.lexeme ∘ Leaf.ofLexeme) lexeme = id lexeme from lexeme_ofLexeme lexeme, List.map_id]

/-- The identifier is written by words and marks of the input, which touch. -/
def RulesetId.Stands (input : Input Leaf) (rid : RulesetId) : Prop :=
  ∃ first last lexemes, Joins lexemes rid.value.toList ∧ Stand input first lexemes last ∧
    isContiguous lexemes = true ∧ rid.span = language.spanBetween input first last

/-- What is known of phrases and tokens about the identifiers of rulesets. -/
def standing (input : Input Leaf) : Invariant where
  value
    | .ridWords, first, last, text =>
        ∃ lexemes, Joins lexemes text.toList ∧ Stand input first lexemes last
    | name, _, _, value => ∀ rid ∈ name.named value, rid.Stands input
  datum
    | .symbol, index, name => input.tokens[index]? = some (.ofLexeme name.lexeme)
    | .punct mark, index, _ => ∃ start stop,
        input.tokens[index]? = some (.ofLexeme ⟨.punct mark, start, stop⟩)
    | _, _, _ => True

variable {input : Input Leaf}

theorem standing_of_not_mem {name : Nonterminal} (other : name ∉ naming)
    (notWords : name ≠ .ridWords) {first last : Nat} (value : name.Value) :
    (standing input).value name first last value := by
  have none_ := Nonterminal.named_eq_nil other value
  cases name <;> first
    | exact absurd rfl notWords
    | (intro rid member
       rw [none_] at member
       cases member)

namespace Productions

/-- The production makes what the invariant says of what it says of the parts. The guard of
identifiers has let the tokens stand. -/
def Names (input : Input Leaf) (entry : Entry) : Prop :=
  ∀ first last computation value,
    (entry.lhs = .rulesetId → contiguous input.tokens first last = true) →
      (standing input).Supplies entry.rhs first last
        (entry.action (language.spanBetween input first last)) computation →
          Traced.Yields computation value → (standing input).value entry.lhs first last value

/-- What a production makes holds no other identifiers than its parts. -/
abbrev PassesNames (input : Input Leaf) : Entry → Prop :=
  Makes (fun name value (_ _ : Unit) => ∀ rid ∈ name.named value, rid.Stands input)
    (fun _ _ _ _ => True) () (fun name _ _ value => ∀ rid ∈ name.named value, rid.Stands input)

theorem standing_iff {name : Nonterminal} (notWords : name ≠ .ridWords) {first last : Nat}
    {value : name.Value} : (standing input).value name first last value ↔
      ∀ rid ∈ name.named value, rid.Stands input := by
  cases name <;> first
    | exact absurd rfl notWords
    | exact .rfl

theorem named_of_standing {name : Nonterminal} {first last : Nat} {value : name.Value}
    (known : (standing input).value name first last value) :
    ∀ rid ∈ name.named value, rid.Stands input := by
  by_cases words : name = .ridWords
  · subst words
    exact List.forall_mem_nil _
  · exact (standing_iff words).mp known

theorem names_of_passes {entry : Entry} (notWords : entry.lhs ≠ .ridWords)
    (passes : PassesNames input entry) : Names input entry := by
  intro first last computation value _ supplies yields
  let reached : Unit → Nat → Prop := fun _ _ => True
  have begins : reached () first := trivial
  obtain ⟨_, _, made⟩ := supplies.threads
    (fun _ _ _ _ state known _ => ⟨state, named_of_standing known, trivial⟩)
    (fun _ _ _ state _ _ => ⟨state, trivial, trivial⟩) begins (passes _)
  exact (standing_iff notWords).mpr (made value yields)

/-- A word is the words of an identifier. -/
theorem names_word : Names input (rule .ridWords [token .symbol] fun _ name => name.value) := by
  intro first last computation value _ supplies yields
  rcases supplies with _ | _ | ⟨found, ⟨⟩⟩
  cases Traced.yields_pure_iff.mp yields
  exact ⟨_, .word, Stand.single found⟩

/-- The words of an identifier go on with a mark and another word. -/
theorem names_joined {mark : Punct} (joint : mark ∈ joints) {sign : String}
    (same : sign.toList = mark.chars) : Names input
      (rule .ridWords [the .ridWords, .terminal (.punct mark), token .symbol]
        fun _ text _ name => text ++ sign ++ name.value) := by
  intro first last computation value _ supplies yields
  rcases supplies with _ | ⟨_, ⟨lexemes, joins, stand⟩, _ | _ | ⟨⟨start, stop, second⟩,
    _ | _ | ⟨third, ⟨⟩⟩⟩⟩
  cases Traced.yields_pure_iff.mp yields
  refine ⟨lexemes ++ [⟨.punct mark, start, stop⟩, _], ?_,
    stand_append_iff.mpr ⟨_, stand, second, third, rfl⟩⟩
  rw [String.toList_append, String.toList_append, same, List.append_assoc]
  exact .join joins joint

/-- The words of an identifier are one, if they touch. -/
theorem names_rulesetId : Names input
    (guarded contiguous <| rule .rulesetId [the .ridWords] fun span text => ⟨text, span⟩) := by
  intro first last computation value admitted supplies yields
  rcases supplies with _ | ⟨_, ⟨lexemes, joins, stand⟩, ⟨⟩⟩
  cases Traced.yields_pure_iff.mp yields
  exact List.forall_mem_singleton.mpr
    ⟨_, _, _, joins, stand, stand.contiguous_iff.mp (admitted rfl), rfl⟩

theorem names_rulesetRules : ∀ entry ∈ rulesetRules, Names input entry := by
  simp only [rulesetRules, rulesets, descriptions, connections, connectionParts,
    List.forall_mem_append, List.forall_mem_cons, List.forall_mem_flatMap, List.map_cons,
    List.map_nil]
  repeat' apply And.intro
  all_goals
    first
    | exact List.forall_mem_nil _
    | exact names_rulesetId
    | exact names_word
    | exact names_joined (by decide) rfl
    | refine names_of_passes (by decide) (makes_rule_iff.mpr ?_)
      simp +contextual [Threads, Nonterminal.named, Program.rulesetIds, Ruleset.rulesetIds,
        RulesetMeta.rulesetIds, MetaValue.rulesetIds, or_imp, forall_and, -List.mem_flatMap,
        -Option.mem_toList]
    | refine names_of_passes (by decide) (makes_template_iff.mpr ?_)
      simp [Nonterminal.named]

theorem names_others : ∀ entry ∈ declarationRules ++ ruleRules ++ eventRules ++ expressionRules,
    Names input entry := by
  have others : ∀ entry ∈ declarationRules ++ ruleRules ++ eventRules ++ expressionRules,
      entry.lhs ∉ naming ∧ entry.lhs ≠ .ridWords := by
    decide +kernel
  intro entry listed first last computation value _ _ _
  exact standing_of_not_mem (others entry listed).1 (others entry listed).2 value

/-- The invariant is kept by every production. -/
theorem names_of_mem : ∀ entry ∈ language.reductions, Names input entry := by
  have others := @names_others input
  show ∀ entry ∈ rulesetRules ++ declarationRules ++ ruleRules ++ eventRules ++ expressionRules,
    Names input entry
  simp only [List.forall_mem_append] at others ⊢
  exact ⟨⟨⟨⟨names_rulesetRules, others.1.1.1⟩, others.1.1.2⟩, others.1.2⟩, others.2⟩

set_option maxRecDepth 20000 in
theorem rulesetId_productions :
    (language.grammar.productions.filter fun production => production.lhs = .rulesetId) =
      [⟨.rulesetId, [the .ridWords], some contiguous⟩] :=
  rfl

/-- The tokens of an identifier touch. -/
theorem contiguous_of_rulesetId {tokens : List Leaf} {first last : Nat} {tree : Derivation}
    (derivation : language.grammar.IsDerivation tokens .rulesetId first last tree) :
    contiguous tokens first last = true := by
  obtain ⟨index, production, _, listed, lhs, admitted, _⟩ :=
    Grammar.derives_nonterminal_iff.mp derivation
  have member : production ∈ language.grammar.productions.filter fun production =>
      production.lhs = .rulesetId :=
    List.mem_filter.mpr ⟨List.mem_of_getElem? listed, decide_eq_true lhs⟩
  rw [rulesetId_productions, List.mem_singleton] at member
  cases member
  exact admitted contiguous rfl

end Productions

/-- The identifiers in the tree of a source stand among its tokens. -/
theorem stands_of_parseLeaves {lexemes : List Lexeme} {stop : Nat} {atEnd : Option Nat}
    {program : Program}
    (yields : Traced.Yields (parseLeaves .main (leavesOf lexemes) stop atEnd) program) :
    ∀ rid ∈ program.rulesetIds, rid.Stands ⟨leavesOf (significant lexemes), stop⟩ := by
  suffices known : (standing ⟨leavesOf (significant lexemes), stop⟩).value .main 0
      (significant lexemes).length program from known
  refine Invariant.holds_parseLeaves ?_ ?_ yields
  · intro index lexeme found tokens datum read
    have present : (leavesOf (significant lexemes))[index]? = some (.ofLexeme lexeme) :=
      getElem?_leavesOf_iff.mpr ⟨lexeme, found, rfl⟩
    obtain ⟨token, start, stop⟩ := lexeme
    have means := means_of_read read
    cases means with
    | punct => exact ⟨start, stop, present⟩
    | symbol => exact present
    | _ => trivial
  · intro entry listed first last tree computation value derivation
    refine Productions.names_of_mem entry listed first last computation value fun same => ?_
    exact Productions.contiguous_of_rulesetId (same ▸ derivation)

end Krl
