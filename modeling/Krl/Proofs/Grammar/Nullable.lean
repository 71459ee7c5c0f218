import Krl.Proofs.Grammar.Derivation
import Mathlib.Data.List.Perm.Subperm
import Mathlib.Data.List.Nodup

/-!
# What can match nothing

The passes over the table find exactly the nonterminals that derive no tokens when
guards are left aside. Each pass but the last adds a nonterminal that has a
production, and the table has no more of these than productions.
-/

namespace Krl

namespace Grammar

variable {N T K : Type}

/-- Symbols that derive no tokens, guards left aside. -/
inductive Erases (grammar : Grammar N T K) : List (Symbol N T) → Prop where
  | nil : Erases grammar []
  | cons {production : Production N T K} {others : List (Symbol N T)}
      (listed : production ∈ grammar.productions)
      (inner : Erases grammar production.rhs)
      (rest : Erases grammar others) :
      Erases grammar (.nonterminal production.lhs :: others)

theorem Erases.append {grammar : Grammar N T K} {before behind : List (Symbol N T)}
    (first : grammar.Erases before) (second : grammar.Erases behind) :
    grammar.Erases (before ++ behind) := by
  induction first with
  | nil => exact second
  | cons listed inner _ _ ih => exact .cons listed inner ih

/-- Symbols with a derivation that covers no tokens are erased. -/
theorem Derives.erases {grammar : Grammar N T K} {tokens : List K}
    {symbols : List (Symbol N T)} {start stop : Nat} {trees : List Derivation}
    (derived : grammar.Derives tokens symbols start stop trees) (empty : stop ≤ start) :
    grammar.Erases symbols := by
  induction derived with
  | nil => exact .nil
  | leaf _ _ rest _ =>
      have := rest.le
      omega
  | node listed _ inner rest innerIh restIh =>
      have := inner.le
      have := rest.le
      exact .cons (List.mem_of_getElem? listed) (innerIh (by omega)) (restIh (by omega))

/-- Nonterminals of the table, none of them twice. -/
def IsSelection (productions : List (Production N T K)) (known : List N) : Prop :=
  known.Nodup ∧ known ⊆ productions.map Production.lhs

theorem IsSelection.add {productions : List (Production N T K)} {known : List N}
    (selection : IsSelection productions known) {production : Production N T K}
    (listed : production ∈ productions) (new : production.lhs ∉ known) :
    IsSelection productions (production.lhs :: known) :=
  ⟨List.nodup_cons.mpr ⟨new, selection.1⟩,
    List.cons_subset.mpr ⟨List.mem_map_of_mem listed, selection.2⟩⟩

section Passes

variable [DecidableEq N]

/-- A set of nonterminals that no production extends. -/
def IsClosed (productions : List (Production N T K)) (known : List N) : Prop :=
  ∀ production ∈ productions,
    production.rhs.all (isNullableSymbol known) = true → production.lhs ∈ known

theorem nullablePass_cons (production : Production N T K)
    (others : List (Production N T K)) (known : List N) :
    nullablePass (production :: others) known =
      nullablePass others
        (if !known.contains production.lhs && production.rhs.all (isNullableSymbol known) then
          production.lhs :: known
        else
          known) := by
  rfl

theorem length_le_nullablePass (productions : List (Production N T K)) (known : List N) :
    known.length ≤ (nullablePass productions known).length := by
  induction productions generalizing known with
  | nil => exact Nat.le_refl _
  | cons production others ih =>
      rw [nullablePass_cons]
      split
      · exact Nat.le_trans (Nat.le_succ _) (ih (production.lhs :: known))
      · exact ih _

/-- A pass that adds nothing finds a closed set. -/
theorem isClosed_of_nullablePass (productions : List (Production N T K)) (known : List N)
    (same : (nullablePass productions known).length = known.length) :
    IsClosed productions known := by
  induction productions with
  | nil =>
      intro production listed
      cases listed
  | cons first others ih =>
      rw [nullablePass_cons] at same
      split at same
      next added =>
          have grown := length_le_nullablePass others (first.lhs :: known)
          rw [List.length_cons] at grown
          omega
      next settled =>
          intro production listed matchesNothing
          rcases List.mem_cons.mp listed with rfl | later
          · by_contra missing
            apply settled
            simp [missing, matchesNothing]
          · exact ih same production later matchesNothing

/-- What a pass keeps, if each addition keeps it. -/
theorem nullablePass_preserves (motive : List N → Prop) (productions : List (Production N T K))
    (step : ∀ production ∈ productions, ∀ known, production.lhs ∉ known →
      production.rhs.all (isNullableSymbol known) = true → motive known →
        motive (production.lhs :: known))
    (known : List N) (holds : motive known) : motive (nullablePass productions known) := by
  induction productions generalizing known with
  | nil => exact holds
  | cons production others ih =>
      rw [nullablePass_cons]
      have later : ∀ other ∈ others, ∀ known, other.lhs ∉ known →
          other.rhs.all (isNullableSymbol known) = true → motive known →
            motive (other.lhs :: known) :=
        fun other listed => step other (List.mem_cons_of_mem _ listed)
      split
      next added =>
          rw [Bool.and_eq_true, Bool.not_eq_true', List.contains_eq_mem,
            decide_eq_false_iff_not] at added
          exact ih later _ (step production List.mem_cons_self known added.1 added.2 holds)
      next => exact ih later known holds

theorem nullableFrom_preserves (motive : List N → Prop) (productions : List (Production N T K))
    (step : ∀ production ∈ productions, ∀ known, production.lhs ∉ known →
      production.rhs.all (isNullableSymbol known) = true → motive known →
        motive (production.lhs :: known))
    (fuel : Nat) (known : List N) (holds : motive known) :
    motive (nullableFrom productions fuel known) := by
  induction fuel generalizing known with
  | zero => exact holds
  | succ fuel ih =>
      rw [nullableFrom]
      split
      · exact holds
      · exact ih _ (nullablePass_preserves motive productions step known holds)

theorem IsSelection.pass {productions : List (Production N T K)} {known : List N}
    (selection : IsSelection productions known) :
    IsSelection productions (nullablePass productions known) :=
  nullablePass_preserves (IsSelection productions) productions
    (fun _ listed _ new _ smaller => smaller.add listed new) known selection

/-- A selection as long as the table is closed, since it has every nonterminal that
has a production. -/
theorem IsSelection.isClosed {productions : List (Production N T K)} {known : List N}
    (selection : IsSelection productions known) (long : productions.length ≤ known.length) :
    IsClosed productions known := by
  intro production listed _
  have all : known.Perm (productions.map Production.lhs) :=
    (List.Nodup.subperm selection.1 selection.2).perm_of_length_le (by simpa using long)
  exact all.mem_iff.mpr (List.mem_map_of_mem listed)

theorem isClosed_nullableFrom (productions : List (Production N T K)) (fuel : Nat)
    (known : List N) (selection : IsSelection productions known)
    (enough : productions.length ≤ fuel + known.length) :
    IsClosed productions (nullableFrom productions fuel known) := by
  induction fuel generalizing known with
  | zero => exact selection.isClosed (by omega)
  | succ fuel ih =>
      rw [nullableFrom]
      split
      next same => exact isClosed_of_nullablePass productions known same
      next grown =>
          have longer := length_le_nullablePass productions known
          exact ih _ selection.pass (by omega)

theorem isClosed_nullable (grammar : Grammar N T K) :
    IsClosed grammar.productions grammar.nullable :=
  isClosed_nullableFrom grammar.productions _ [] ⟨List.nodup_nil, List.nil_subset _⟩ (by simp)

/-- Every nonterminal that is found derives no tokens. -/
theorem erases_of_mem_nullable (grammar : Grammar N T K) :
    ∀ name ∈ grammar.nullable, grammar.Erases [.nonterminal name] := by
  apply nullableFrom_preserves (fun known => ∀ name ∈ known, grammar.Erases [.nonterminal name])
  · intro production listed known _ matchesNothing erased name found
    rcases List.mem_cons.mp found with rfl | old
    · refine .cons listed ?_ .nil
      have symbolwise : ∀ symbols : List (Symbol N T),
          symbols.all (isNullableSymbol known) = true → grammar.Erases symbols := by
        intro symbols
        induction symbols with
        | nil => exact fun _ => .nil
        | cons symbol others ih =>
            intro all
            rw [List.all_cons, Bool.and_eq_true] at all
            cases symbol with
            | nonterminal inner =>
                have member : inner ∈ known := by simpa [isNullableSymbol] using all.1
                exact (erased inner member).append (ih all.2)
            | terminal expected => simp [isNullableSymbol] at all
      exact symbolwise production.rhs matchesNothing
    · exact erased name old
  · intro name found
    cases found

/-- Every symbol that derives no tokens is known as such. -/
theorem Erases.all_nullable {grammar : Grammar N T K} {symbols : List (Symbol N T)}
    (erased : grammar.Erases symbols) :
    symbols.all (isNullableSymbol grammar.nullable) = true := by
  induction erased with
  | nil => rfl
  | cons listed _ _ innerIh restIh =>
      have member := isClosed_nullable grammar _ listed innerIh
      simp [isNullableSymbol, member, restIh]

theorem Erases.mem_nullable {grammar : Grammar N T K} {name : N}
    (erased : grammar.Erases [.nonterminal name]) : name ∈ grammar.nullable := by
  simpa [isNullableSymbol] using erased.all_nullable

/-- The nonterminals that match nothing are free of guards, as a guard could veto
the match at one place and let it stand at another. -/
def ErasesFreely (grammar : Grammar N T K) : Prop :=
  ∀ production ∈ grammar.productions, production.lhs ∈ grammar.nullable →
    production.guard = none

instance (grammar : Grammar N T K) : Decidable grammar.ErasesFreely :=
  inferInstanceAs (Decidable (∀ production ∈ grammar.productions,
    production.lhs ∈ grammar.nullable → production.guard = none))

/-- Without guards in the way, what is erased has a derivation everywhere. -/
theorem Erases.derives {grammar : Grammar N T K} (free : grammar.ErasesFreely) (tokens : List K)
    {symbols : List (Symbol N T)} (erased : grammar.Erases symbols) (here : Nat) :
    ∃ trees, grammar.Derives tokens symbols here here trees := by
  induction erased with
  | nil => exact ⟨[], .nil⟩
  | cons listed inner _ innerIh restIh =>
      obtain ⟨index, found⟩ := List.getElem?_of_mem listed
      obtain ⟨children, derived⟩ := innerIh
      obtain ⟨siblings, rest⟩ := restIh
      have unguarded := free _ listed (Erases.cons listed inner .nil).mem_nullable
      have admitted := Production.admits_of_unguarded unguarded tokens here here
      exact ⟨_, .node found admitted derived rest⟩

end Passes

end Grammar

end Krl
