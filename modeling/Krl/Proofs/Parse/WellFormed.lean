import Krl.Proofs.Language.WellFormed
import Krl.Proofs.Parse.Ambiguity
import Krl.Proofs.Parse.Templates

/-!
# Accepted trees are well formed

The productions make well-formed trees of well-formed parts, and tokens are well formed because
the expressions in templates are parsed by the same productions.
-/

namespace Krl

open Productions

/-- The forms of phrases and tokens, wherever they stand. -/
def forming : Invariant where
  value := fun name _ _ value => name.WellFormed value
  datum := fun tokens _ datum => tokens.WellFormed datum

theorem forming_made : ∀ entry ∈ language.reductions, ∀ first last span computation value,
    forming.Supplies entry.rhs first last (entry.action span) computation →
      Traced.Yields computation value → forming.value entry.lhs first last value := by
  intro entry listed first last span computation value supplies yields
  have keeps := keepsForm_of_mem entry listed span
  let reached : Unit → Nat → Prop := fun _ _ => True
  have begins : reached () first := trivial
  obtain ⟨_, _, made⟩ := supplies.threads
    (fun _ _ _ _ state known _ => ⟨state, known, trivial⟩)
    (fun _ _ _ state known _ => ⟨state, known, trivial⟩) begins keeps
  exact made value yields

/-- The value of a part of a template is well formed. -/
def FormedPart (_ : TemplatePart) (value : Expr) : Prop :=
  value.WellFormed

theorem formed_of_forall₂ {parts : List TemplatePart} {values : List Expr}
    (formed : List.Forall₂ FormedPart parts values) : ∀ value ∈ values, value.WellFormed := by
  induction formed with
  | nil => exact List.forall_mem_nil _
  | cons first _ ih => exact List.forall_mem_cons.mpr ⟨first, ih⟩

/-- What a token means is well formed, if the values are that a template gets. -/
theorem wellFormed_of_means {start stop : Nat} {token : Token} {tokens : Terminal}
    {datum : tokens.Datum} (parts : PartsRelated FormedPart token)
    (means : Means start stop token tokens datum) : tokens.WellFormed datum := by
  cases means with
  | persistent name persistent => simpa [isPersistentDomain] using persistent
  | chevron texts ends =>
      intro value yields
      obtain ⟨values, yielded, rfl⟩ := ends value yields
      exact ⟨trivial, exprsWellFormed_iff.mpr (formed_of_forall₂ (parts values yielded))⟩
  | punct | word | identifier | symbol | number | string | regexp | domainName => simp

theorem wellFormed_parseLeaves {start : StartSymbol} {lexemes : List Lexeme} {stop : Nat}
    {atEnd : Option Nat} {value : start.nonterminal.Value}
    (parts : ∀ lexeme ∈ lexemes, PartsRelated FormedPart lexeme.token)
    (yields : Traced.Yields (parseLeaves start (leavesOf lexemes) stop atEnd) value) :
    start.nonterminal.WellFormed value := by
  suffices known : forming.value start.nonterminal 0 (significant lexemes).length value from known
  refine Invariant.holds_parseLeaves ?_ ?_ yields
  · intro index lexeme found tokens datum read
    have member : lexeme ∈ lexemes := (List.mem_filter.mp (List.mem_of_getElem? found)).1
    exact wellFormed_of_means (parts lexeme member) (means_of_read read)
  · intro entry listed first last tree computation value _
    exact forming_made entry listed first last _ computation value

theorem relatesParts_formed : RelatesParts FormedPart where
  text := fun _ _ _ => trivial
  interpolation := fun _ _ _ _ parts yields => wellFormed_parseLeaves parts yields

/-- Every accepted tree is well formed. Effects and conditions are in postludes only, actions
are defined in `global` and in preludes, and so on for all that the types of the tree leave
open. -/
theorem parse_wellFormed {source : String} {options : ParseOptions} {program : Program}
    (parsed : parse source options = .ok program) : program.WellFormed := by
  rw [parse_eq] at parsed
  obtain ⟨lexemes, _, yields⟩ := exists_yields_of_parseSource parsed
  exact wellFormed_parseLeaves (relatesParts_formed.inside lexemes) yields

/-- A source with a property of a ruleset, a group with an aggregator, a block that chooses, and a
statement under a condition. -/
def selectingSource : String :=
  "ruleset r{meta{logging on}rule s{select when count 2(a b)max(c)choose d{e()}always{last if f}}}"

theorem parse_wellFormed_ruleset :
    ∃ program, parse selectingSource .none = .ok program ∧ program.WellFormed := by
  -- The productions of the one derivation, a node before its children.
  have accepted : (valueOfLeftParse? selectingSource
      [0, 2, 3, 4, 12, 13, 15, 14, 23, 9, 90, 89, 91, 92, 96, 97, 168, 170, 174, 177, 180, 195,
        189, 190, 193, 85, 198, 200, 87, 98, 114, 117, 120, 70, 75, 204, 207, 209, 220, 223, 227,
        231, 232, 237, 76, 78, 80, 82, 83, 268, 269, 85, 122, 123, 132, 134, 136, 140, 148, 204,
        207, 209, 220, 223, 227, 231, 232, 237]).isSome = true := by
    decide +kernel
  obtain ⟨program, parsed⟩ := exists_ok_of_isSome accepted
  exact ⟨program, parsed, parse_wellFormed parsed⟩

end Krl
