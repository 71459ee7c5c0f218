import Krl.Proofs.Grammar.Sights

/-!
# Telling derivations apart

A grammar leaves no choice when the next token and the one behind it always decide:
which of the productions of a nonterminal applies, whether a phrase that could go on
does so, and where each phrase ends. Productions that begin in the same way are
compared behind their common beginning. A nonterminal may stand first in its own
productions, as in lists and chains of operators; its phrases are then taken for a
shortest one and a series of extensions. All this can be checked by looking at the
productions alone, and the pairs of productions for which it fails can be excused,
if something else tells them apart.
-/

namespace Krl

variable {N T K : Type}

/-- The production lengthens a phrase of its own nonterminal. -/
def Production.lengthens [DecidableEq N] (production : Production N T K) : Bool :=
  match production.rhs with
  | .nonterminal name :: _ => name = production.lhs
  | _ => false

/-- What decides between derivations. -/
structure Criteria (N T : Type) extends View N T where
  /-- Masks of what may come behind a phrase, one for each kind of place where the
  phrase can stand. -/
  limits : N → List Nat
  /-- No token is of both classes. -/
  clash : T → T → Bool
  /-- Something else tells the productions with these right sides apart. -/
  excused : List (Symbol N T) → List (Symbol N T) → Bool

/-- A test holds of any two members of a list, in their order. -/
def holdsPairwise {α : Type} (test : α → α → Bool) : List α → Bool
  | [] => true
  | first :: others => others.all (test first) && holdsPairwise test others

theorem holdsPairwise_iff {α : Type} {test : α → α → Bool} {list : List α} :
    holdsPairwise test list = true ↔ list.Pairwise fun left right => test left right = true := by
  induction list with
  | nil => simp [holdsPairwise]
  | cons first others ih => simp [holdsPairwise, ih]

theorem pair_sublist {α : Type} {list : List α} {left right : Nat} {first second : α}
    (atLeft : list[left]? = some first) (atRight : list[right]? = some second)
    (before : left < right) : [first, second].Sublist list := by
  induction list generalizing left right with
  | nil => cases atLeft
  | cons head others ih =>
      cases right with
      | zero => omega
      | succ right =>
          rw [List.getElem?_cons_succ] at atRight
          cases left with
          | zero =>
              cases atLeft
              exact .cons_cons _ (List.singleton_sublist.mpr (List.mem_of_getElem? atRight))
          | succ left => exact .cons _ (ih atLeft atRight (Nat.lt_of_succ_lt_succ before))

/-- A test that holds pairwise of some parts of a list holds of the parts of any two
members that are kept. -/
theorem test_of_holdsPairwise {α β : Type} {test : β → β → Bool} {keep : α → Bool}
    {part : α → β} {list : List α} (holds : holdsPairwise test ((list.filter keep).map part) = true)
    {left right : Nat} {first second : α} (atLeft : list[left]? = some first)
    (atRight : list[right]? = some second) (before : left < right)
    (keepFirst : keep first = true) (keepSecond : keep second = true) :
    test (part first) (part second) = true := by
  have kept : [first, second].Sublist (list.filter keep) := by
    have filtered := (pair_sublist atLeft atRight before).filter keep
    rw [List.filter_cons_of_pos keepFirst, List.filter_cons_of_pos keepSecond] at filtered
    exact filtered
  have pairs := (holdsPairwise_iff.mp holds).sublist (kept.map part)
  exact List.rel_of_pairwise_cons pairs List.mem_cons_self

/-- A member that is the only one kept has one index. -/
theorem index_eq_of_single {α β : Type} {keep : α → Bool} {part : α → β} {list : List α}
    {only : β} (single : (list.filter keep).map part = [only]) {left right : Nat}
    {first second : α} (atLeft : list[left]? = some first) (atRight : list[right]? = some second)
    (keepFirst : keep first = true) (keepSecond : keep second = true) : left = right := by
  have never : holdsPairwise (fun _ _ => false) ((list.filter keep).map part) = true := by
    rw [single]
    rfl
  rcases Nat.lt_trichotomy left right with before | same | after
  · cases test_of_holdsPairwise never atLeft atRight before keepFirst keepSecond
  · exact same
  · cases test_of_holdsPairwise never atRight atLeft after keepSecond keepFirst

namespace Criteria

variable [DecidableEq N] (criteria : Criteria N T)

/-- The phrase may stand before what shows one of these sights. -/
def permits (name : N) (mask : Nat) : Bool :=
  (criteria.limits name).any fun limit => mask ||| limit == limit

/-- Every phrase among some symbols may stand before what comes behind it. -/
def endsSeen (tail : Nat) : List (Symbol N T) → Bool
  | [] => true
  | .nonterminal name :: others =>
      criteria.permits name (criteria.mask tail others) && endsSeen tail others
  | .terminal _ :: others => endsSeen tail others

/-- Two lists of symbols derive nothing from the same index. -/
def apart (tail : Nat) : List (Symbol N T) → List (Symbol N T) → Bool
  | .terminal first :: left, .terminal second :: right =>
      criteria.mask tail (.terminal first :: left) &&&
          criteria.mask tail (.terminal second :: right) == 0 ||
        criteria.clash first second || apart tail left right
  | .nonterminal first :: left, .nonterminal second :: right =>
      criteria.mask tail (.nonterminal first :: left) &&&
          criteria.mask tail (.nonterminal second :: right) == 0 ||
        first = second &&
          criteria.permits first (criteria.mask tail left ||| criteria.mask tail right) &&
            apart tail left right
  | left, right => criteria.mask tail left &&& criteria.mask tail right == 0

/-- The right sides of the productions that begin phrases of a nonterminal. -/
def beginnings (grammar : Grammar N T K) (name : N) : List (List (Symbol N T)) :=
  (grammar.productions.filter fun production =>
    production.lhs = name && !production.lengthens).map Production.rhs

/-- What lengthens phrases of a nonterminal. -/
def extensions (grammar : Grammar N T K) (name : N) : List (List (Symbol N T)) :=
  (grammar.productions.filter fun production =>
    production.lhs = name && production.lengthens).map fun production => production.rhs.tail

/-- The sights that some lists of symbols begin with. -/
def starts (tail : Nat) (lists : List (List (Symbol N T))) : Nat :=
  lists.foldr (fun symbols known => criteria.mask tail symbols ||| known) 0

/-- The sights that a phrase can go on with, given what may follow it. Extensions
may follow one another, and a first look tells which letters they begin with. -/
def continuation (grammar : Grammar N T K) (name : N) (limit : Nat) : Nat :=
  let extensions := extensions grammar name
  criteria.starts (limit ||| criteria.starts criteria.everywhere extensions) extensions

/-- The sights from where a phrase ends or goes on. -/
def behind (grammar : Grammar N T K) (name : N) (limit : Nat) : Nat :=
  limit ||| criteria.continuation grammar name limit

/-- The productions of a nonterminal leave no choice where something of the limit
follows the phrase. -/
def decides (grammar : Grammar N T K) (name : N) (limit : Nat) : Bool :=
  let beginnings := beginnings grammar name
  let extensions := extensions grammar name
  let tail := criteria.behind grammar name limit
  criteria.continuation grammar name limit &&& limit == 0 &&
    beginnings.all (criteria.endsSeen tail) && extensions.all (criteria.endsSeen tail) &&
      holdsPairwise (fun left right => criteria.excused left right ||
        criteria.mask tail left &&& criteria.mask tail right &&& criteria.allowed name == 0 ||
          criteria.apart tail left right) beginnings &&
        holdsPairwise (criteria.apart tail) extensions

/-- Two tokens of clashing classes are not the same. -/
def Clashes (grammar : Grammar N T K) : Prop :=
  ∀ first second token, criteria.clash first second = true →
    grammar.accepts first token = true → grammar.accepts second token = false

omit [DecidableEq N] in
/-- Classes with a token in common do not clash. -/
theorem Clashes.eq_false {criteria : Criteria N T} {grammar : Grammar N T K}
    (clashes : criteria.Clashes grammar) {first second : T} {token : K}
    (accepted : grammar.accepts first token = true)
    (accepted' : grammar.accepts second token = true) :
    criteria.clash first second = false := by
  cases clash : criteria.clash first second with
  | false => rfl
  | true =>
      rw [clashes first second token clash accepted] at accepted'
      cases accepted'

end Criteria

namespace Grammar

variable {criteria : Criteria N T} {grammar : Grammar N T K} {tokens : List K}
  {scene : Scene criteria.toView grammar tokens} {horizon : Nat}

variable (criteria) in
/-- Derivations of the same nonterminal from the same index, each followed by what
one limit permits, are the same. This is said of derivations that together cover
fewer tokens than a bound, or no more and have a smaller weight. -/
def OneWay (scene : Scene criteria.toView grammar tokens) (horizon extent weight : Nat) : Prop :=
  ∀ (name : N), ∀ limit ∈ criteria.limits name, ∀ (start first second : Nat)
    (one other : Derivation),
    grammar.IsDerivation tokens name start first one →
      grammar.IsDerivation tokens name start second other →
        first ≤ horizon → second ≤ horizon →
          scene.Sees horizon (criteria.allowed name) start →
            scene.Sees horizon limit first → scene.Sees horizon limit second →
              (first - start) + (second - start) < extent ∨
                (first - start) + (second - start) ≤ extent ∧
                  one.weight + other.weight < weight →
                first = second ∧ one = other

/-- Where fewer tokens are covered, the weight does not matter. -/
theorem OneWay.narrow {extent weight extent' : Nat}
    (oneWay : OneWay criteria scene horizon extent weight)
    (fewer : extent' < extent) (weight' : Nat) : OneWay criteria scene horizon extent' weight' := by
  intro name limit member start first second one other derivation derivation' first_le second_le
    allowed seen seen' bounds
  exact oneWay name limit member start first second one other derivation derivation' first_le
    second_le allowed seen seen' (.inl (by omega))

/-- What two derivations have to do with bounds that they must keep. -/
structure Within (horizon extent weight start first second : Nat) (one other : List Derivation) :
    Prop where
  first_le : first ≤ horizon
  second_le : second ≤ horizon
  extent_le : (first - start) + (second - start) ≤ extent
  weight_lt : Derivation.totalWeight one + Derivation.totalWeight other < weight

theorem Within.symm {extent weight start first second : Nat} {one other : List Derivation}
    (within : Within horizon extent weight start first second one other) :
    Within horizon extent weight start second first other one where
  first_le := within.second_le
  second_le := within.first_le
  extent_le := by
    rw [Nat.add_comm]
    exact within.extent_le
  weight_lt := by
    rw [Nat.add_comm]
    exact within.weight_lt

theorem permitted {name : N} {mask : Nat} (permits : criteria.permits name mask = true) :
    ∃ limit ∈ criteria.limits name, mask ||| limit = limit := by
  rw [Criteria.permits, List.any_eq_true] at permits
  obtain ⟨limit, member, contained⟩ := permits
  exact ⟨limit, member, beq_iff_eq.mp contained⟩

/-- Two lists of symbols whose masks are disjoint derive nothing from the same index. -/
theorem Derives.not_disjoint (covered : grammar.Covered criteria.toView) (heeded : Heeded scene)
    {left right : List (Symbol N T)} {tail start first second mask : Nat}
    {one other : List Derivation}
    (derived : grammar.Derives tokens left start first one)
    (derived' : grammar.Derives tokens right start second other)
    (remains : grammar.Remains tokens left start) (remains' : grammar.Remains tokens right start)
    (seen : scene.Sees horizon tail first) (seen' : scene.Sees horizon tail second)
    (first_le : first ≤ horizon) (second_le : second ≤ horizon)
    (allowed : scene.Sees horizon mask start) :
    criteria.mask tail left &&& criteria.mask tail right &&& mask ≠ 0 := by
  intro disjoint
  have both := ((derived.sees covered heeded remains first_le seen).and
    (derived'.sees covered heeded remains' second_le seen')).and allowed
  rw [disjoint] at both
  exact Scene.not_sees_zero both

theorem Derives.masks_meet (covered : grammar.Covered criteria.toView) (heeded : Heeded scene)
    {left right : List (Symbol N T)} {tail start first second : Nat}
    {one other : List Derivation}
    (derived : grammar.Derives tokens left start first one)
    (derived' : grammar.Derives tokens right start second other)
    (remains : grammar.Remains tokens left start) (remains' : grammar.Remains tokens right start)
    (seen : scene.Sees horizon tail first) (seen' : scene.Sees horizon tail second)
    (first_le : first ≤ horizon) (second_le : second ≤ horizon) :
    (criteria.mask tail left &&& criteria.mask tail right == 0) = false := by
  rw [beq_eq_false_iff_ne]
  intro disjoint
  have meet := derived.not_disjoint covered heeded derived' remains remains' seen seen' first_le
    second_le (Scene.sees_everywhere covered.ranked)
  rw [disjoint, Nat.zero_and] at meet
  exact meet rfl

/-- Phrases of the same nonterminal that begin two derivations end at the same index
and are the same. -/
theorem OneWay.first_eq {extent weight : Nat} (oneWay : OneWay criteria scene horizon extent weight)
    (covered : grammar.Covered criteria.toView) (heeded : Heeded scene) {name : N}
    {left right : List (Symbol N T)} {tail start middle middle' first second : Nat}
    {tree tree' : Derivation} {siblings siblings' : List Derivation}
    (derivation : grammar.IsDerivation tokens name start middle tree)
    (rest : grammar.Derives tokens left middle first siblings)
    (derivation' : grammar.IsDerivation tokens name start middle' tree')
    (rest' : grammar.Derives tokens right middle' second siblings')
    (remains : grammar.Remains tokens (.nonterminal name :: left) start)
    (remains' : grammar.Remains tokens (.nonterminal name :: right) start)
    (permits : criteria.permits name (criteria.mask tail left ||| criteria.mask tail right) = true)
    (seen : scene.Sees horizon tail first) (seen' : scene.Sees horizon tail second)
    (within : Within horizon extent weight start first second (tree :: siblings)
      (tree' :: siblings')) :
    middle = middle' ∧ tree = tree' := by
  obtain ⟨limit, member, contained⟩ := permitted permits
  have behind := rest.sees covered heeded (remains.next derivation) within.first_le seen
  have behind' := rest'.sees covered heeded (remains'.next derivation') within.second_le seen'
  have inside := Nat.le_trans rest.le within.first_le
  have inside' := Nat.le_trans rest'.le within.second_le
  have extents := within.extent_le
  have weights := within.weight_lt
  rw [Derivation.totalWeight_cons, Derivation.totalWeight_cons] at weights
  have := rest.le
  have := rest'.le
  exact oneWay name limit member start middle middle' tree tree' derivation derivation' inside
    inside' (heeded name left start middle horizon tree remains derivation inside)
    ((behind.left _).mono contained) ((behind'.right _).mono contained)
    (.inr ⟨by omega, by omega⟩)

/-- The same symbols have no two derivations from the same index. -/
theorem Derives.agree (covered : grammar.Covered criteria.toView) (heeded : Heeded scene)
    {extent weight : Nat} (oneWay : OneWay criteria scene horizon extent weight)
    {symbols : List (Symbol N T)} {tail start first second : Nat} {one other : List Derivation}
    (derived : grammar.Derives tokens symbols start first one)
    (derived' : grammar.Derives tokens symbols start second other)
    (remains : grammar.Remains tokens symbols start)
    (ends : criteria.endsSeen tail symbols = true)
    (seen : scene.Sees horizon tail first) (seen' : scene.Sees horizon tail second)
    (within : Within horizon extent weight start first second one other) :
    first = second ∧ one = other := by
  induction symbols generalizing start one other with
  | nil =>
      obtain ⟨rfl, rfl⟩ := derives_nil_iff.mp derived
      obtain ⟨rfl, rfl⟩ := derives_nil_iff.mp derived'
      exact ⟨rfl, rfl⟩
  | cons symbol others ih =>
      cases symbol with
      | terminal expected =>
          obtain ⟨token, siblings, found, accepted, rest, rfl⟩ :=
            derives_terminal_cons_iff.mp derived
          obtain ⟨_, siblings', _, _, rest', rfl⟩ := derives_terminal_cons_iff.mp derived'
          have next := remains.next (.leaf found accepted .nil)
          have ⟨first_le, second_le, extent_le, weight_lt⟩ := within
          rw [Derivation.totalWeight_cons, Derivation.totalWeight_cons] at weight_lt
          obtain ⟨rfl, rfl⟩ := ih rest rest' next ends
            ⟨first_le, second_le, by omega, by omega⟩
          exact ⟨rfl, rfl⟩
      | nonterminal name =>
          obtain ⟨middle, tree, siblings, derivation, rest, rfl⟩ :=
            derives_nonterminal_cons_iff.mp derived
          obtain ⟨middle', tree', siblings', derivation', rest', rfl⟩ :=
            derives_nonterminal_cons_iff.mp derived'
          rw [Criteria.endsSeen, Bool.and_eq_true] at ends
          obtain ⟨rfl, rfl⟩ := oneWay.first_eq covered heeded derivation rest derivation' rest'
            remains remains (by rw [Nat.or_self]; exact ends.1) seen seen' within
          have next := remains.next derivation
          have ⟨first_le, second_le, extent_le, weight_lt⟩ := within
          rw [Derivation.totalWeight_cons, Derivation.totalWeight_cons] at weight_lt
          have := derivation.le
          obtain ⟨rfl, rfl⟩ := ih rest rest' next ends.2
            ⟨first_le, second_le, by omega, by omega⟩
          exact ⟨rfl, rfl⟩

variable [DecidableEq N]

/-- Lists of symbols that derive something from the same index are not apart. -/
theorem Derives.not_apart (covered : grammar.Covered criteria.toView) (heeded : Heeded scene)
    (clashes : criteria.Clashes grammar) {extent weight : Nat}
    (oneWay : OneWay criteria scene horizon extent weight) {left right : List (Symbol N T)}
    {tail start first second : Nat} {one other : List Derivation}
    (derived : grammar.Derives tokens left start first one)
    (derived' : grammar.Derives tokens right start second other)
    (remains : grammar.Remains tokens left start) (remains' : grammar.Remains tokens right start)
    (seen : scene.Sees horizon tail first) (seen' : scene.Sees horizon tail second)
    (within : Within horizon extent weight start first second one other) :
    criteria.apart tail left right = false := by
  induction left generalizing right start one other with
  | nil =>
      cases right <;> exact derived.masks_meet covered heeded derived' remains remains' seen seen'
        within.first_le within.second_le
  | cons symbol left ih =>
      have meet := derived.masks_meet covered heeded derived' remains remains' seen seen'
        within.first_le within.second_le
      have ⟨first_le, second_le, extent_le, weight_lt⟩ := within
      cases right with
      | nil => cases symbol <;> exact meet
      | cons symbol' right =>
          cases symbol with
          | terminal expected =>
              cases symbol' with
              | nonterminal name => exact meet
              | terminal expected' =>
                  obtain ⟨token, siblings, found, accepted, rest, rfl⟩ :=
                    derives_terminal_cons_iff.mp derived
                  obtain ⟨token', siblings', found', accepted', rest', rfl⟩ :=
                    derives_terminal_cons_iff.mp derived'
                  obtain rfl : token = token' := by
                    rw [found] at found'
                    exact Option.some.inj found'
                  rw [Derivation.totalWeight_cons, Derivation.totalWeight_cons] at weight_lt
                  have behind := ih rest rest' (remains.next (.leaf found accepted .nil))
                    (remains'.next (.leaf found accepted' .nil))
                    ⟨first_le, second_le, by omega, by omega⟩
                  rw [Criteria.apart, meet, clashes.eq_false accepted accepted', behind]
                  rfl
          | nonterminal name =>
              cases symbol' with
              | terminal expected => exact meet
              | nonterminal name' =>
                  rw [Criteria.apart, meet, Bool.false_or]
                  rw [Bool.eq_false_iff]
                  intro decided
                  rw [Bool.and_eq_true, Bool.and_eq_true, decide_eq_true_eq] at decided
                  obtain ⟨⟨rfl, permits⟩, separate⟩ := decided
                  obtain ⟨middle, tree, siblings, derivation, rest, rfl⟩ :=
                    derives_nonterminal_cons_iff.mp derived
                  obtain ⟨middle', tree', siblings', derivation', rest', rfl⟩ :=
                    derives_nonterminal_cons_iff.mp derived'
                  obtain ⟨rfl, rfl⟩ := oneWay.first_eq covered heeded derivation rest derivation'
                    rest' remains remains' permits seen seen' within
                  rw [Derivation.totalWeight_cons, Derivation.totalWeight_cons] at weight_lt
                  have := derivation.le
                  rw [ih rest rest' (remains.next derivation) (remains'.next derivation')
                    ⟨first_le, second_le, by omega, by omega⟩] at separate
                  cases separate

/-- A derivation of a nonterminal that begins at an index is lengthened to another. -/
inductive Lengthened (grammar : Grammar N T K) (tokens : List K) (name : N) (start : Nat) :
    Nat → Derivation → Nat → Derivation → Prop where
  | refl {stop : Nat} {tree : Derivation} :
      Lengthened grammar tokens name start stop tree stop tree
  | step {index middle next stop : Nat} {production : Production N T K}
      {tree final : Derivation} {children : List Derivation}
      (listed : grammar.productions[index]? = some production)
      (lhs : production.lhs = name) (lengthens : production.lengthens = true)
      (remains : grammar.Remains tokens production.rhs.tail middle)
      (derived : grammar.Derives tokens production.rhs.tail middle next children)
      (rest : Lengthened grammar tokens name start next
        (.node index start next (tree :: children)) stop final) :
      Lengthened grammar tokens name start middle tree stop final

theorem Lengthened.snoc {name : N} {start middle stop : Nat} {tree final : Derivation}
    (lengthened : grammar.Lengthened tokens name start middle tree stop final)
    {index next : Nat} {production : Production N T K} {children : List Derivation}
    (listed : grammar.productions[index]? = some production) (lhs : production.lhs = name)
    (lengthens : production.lengthens = true)
    (remains : grammar.Remains tokens production.rhs.tail stop)
    (derived : grammar.Derives tokens production.rhs.tail stop next children) :
    grammar.Lengthened tokens name start middle tree next
      (.node index start next (final :: children)) := by
  induction lengthened with
  | refl => exact .step listed lhs lengthens remains derived .refl
  | step listed' lhs' lengthens' remains' derived' _ ih =>
      exact .step listed' lhs' lengthens' remains' derived' (ih remains derived)

theorem Lengthened.le {name : N} {start middle stop : Nat} {tree final : Derivation}
    (lengthened : grammar.Lengthened tokens name start middle tree stop final) :
    middle ≤ stop ∧ tree.weight ≤ final.weight := by
  induction lengthened with
  | refl => exact ⟨Nat.le_refl _, Nat.le_refl _⟩
  | step _ _ _ _ derived _ ih =>
      have := derived.le
      rw [Derivation.weight_node, Derivation.totalWeight_cons] at ih
      exact ⟨by omega, by omega⟩

theorem rhs_of_lengthens {production : Production N T K}
    (lengthens : production.lengthens = true) :
    production.rhs = .nonterminal production.lhs :: production.rhs.tail := by
  rw [Production.lengthens] at lengthens
  split at lengthens
  next name others same =>
      rw [decide_eq_true_eq] at lengthens
      rw [same, lengthens]
      rfl
  next => cases lengthens

/-- Every derivation of a nonterminal lengthens one whose production does not begin
with the nonterminal itself. -/
theorem IsDerivation.lengthened {name : N} {start stop : Nat} {tree : Derivation}
    (derivation : grammar.IsDerivation tokens name start stop tree) :
    ∃ index production middle children,
      grammar.productions[index]? = some production ∧ production.lhs = name ∧
        production.lengthens = false ∧
          grammar.Derives tokens production.rhs start middle children ∧
            grammar.Lengthened tokens name start middle (.node index start middle children)
              stop tree := by
  induction size : tree.weight using Nat.strongRecOn generalizing tree stop with
  | ind extent ih =>
  obtain ⟨index, production, children, listed, lhs, admitted, derived, same⟩ :=
    derives_nonterminal_iff.mp derivation
  cases same
  cases lengthens : production.lengthens with
  | false => exact ⟨index, production, stop, children, listed, lhs, lengthens, derived, .refl⟩
  | true =>
      have remains := remains_rhs tokens (List.mem_of_getElem? listed) start
      have begins := rhs_of_lengthens lengthens
      rw [begins] at derived remains
      obtain ⟨middle, shorter, siblings, first, rest, rfl⟩ :=
        derives_nonterminal_cons_iff.mp derived
      rw [Derivation.weight_node, Derivation.totalWeight_cons] at size
      obtain ⟨index', production', middle', children', listed', lhs', base, derived', lengthened⟩ :=
        ih shorter.weight (by omega) (by rw [← lhs]; exact first) rfl
      exact ⟨index', production', middle', children', listed', lhs', base, derived',
        lengthened.snoc listed lhs lengthens (remains.next first) rest⟩

variable (criteria) in
/-- The conditions under which criteria decide. -/
structure Sound (scene : Scene criteria.toView grammar tokens) : Prop where
  covered : grammar.Covered criteria.toView
  heeded : Heeded scene
  clashes : criteria.Clashes grammar

omit [DecidableEq N] in
theorem sees_starts {lists : List (List (Symbol N T))} {tail here : Nat}
    {symbols : List (Symbol N T)} (member : symbols ∈ lists)
    (seen : scene.Sees horizon (criteria.mask tail symbols) here) :
    scene.Sees horizon (criteria.starts tail lists) here := by
  induction lists with
  | nil => cases member
  | cons head others ih =>
      rw [Criteria.starts, List.foldr_cons]
      rcases List.mem_cons.mp member with rfl | later
      · exact seen.left _
      · exact (ih later).right _

theorem mem_extensions {production : Production N T K} (listed : production ∈ grammar.productions)
    (lengthens : production.lengthens = true) :
    production.rhs.tail ∈ Criteria.extensions grammar production.lhs := by
  rw [Criteria.extensions, List.mem_map]
  refine ⟨production, List.mem_filter.mpr ⟨listed, ?_⟩, rfl⟩
  rw [lengthens, decide_eq_true rfl]
  rfl

theorem mem_beginnings {production : Production N T K} (listed : production ∈ grammar.productions)
    (begins : production.lengthens = false) :
    production.rhs ∈ Criteria.beginnings grammar production.lhs := by
  rw [Criteria.beginnings, List.mem_map]
  refine ⟨production, List.mem_filter.mpr ⟨listed, ?_⟩, rfl⟩
  rw [begins, decide_eq_true rfl]
  rfl

section Lengthening

variable {name : N} {limit start : Nat}

/-- Before a phrase ends, one sees what it goes on with. -/
theorem Lengthened.goes_on (sound : Sound criteria scene) {middle stop : Nat}
    {tree final : Derivation}
    (lengthened : grammar.Lengthened tokens name start middle tree stop final)
    (within : stop ≤ horizon) (seen : scene.Sees horizon limit stop) :
    middle = stop ∧ tree = final ∨
      scene.Sees horizon (criteria.continuation grammar name limit) middle := by
  have covered := sound.covered
  -- A first look: the phrase ends, or goes on with some extension.
  have rough : ∀ {middle tree}, grammar.Lengthened tokens name start middle tree stop final →
      scene.Sees horizon (limit ||| criteria.starts criteria.everywhere
        (Criteria.extensions grammar name)) middle := by
    intro middle tree lengthened
    cases lengthened with
    | refl => exact seen.left _
    | step listed lhs lengthens remains derived rest =>
        have inside := Nat.le_trans rest.le.1 within
        have begins := derived.sees covered sound.heeded remains inside
          (Scene.sees_everywhere covered.ranked)
        have member := mem_extensions (List.mem_of_getElem? listed) lengthens
        rw [lhs] at member
        exact (sees_starts member begins).right _
  cases lengthened with
  | refl => exact .inl ⟨rfl, rfl⟩
  | step listed lhs lengthens remains derived rest =>
      right
      have inside := Nat.le_trans rest.le.1 within
      have begins := derived.sees covered sound.heeded remains inside (rough rest)
      have member := mem_extensions (List.mem_of_getElem? listed) lengthens
      rw [lhs] at member
      exact sees_starts member begins

theorem Lengthened.sees (sound : Sound criteria scene) {middle stop : Nat} {tree final : Derivation}
    (lengthened : grammar.Lengthened tokens name start middle tree stop final)
    (within : stop ≤ horizon) (seen : scene.Sees horizon limit stop) :
    scene.Sees horizon (criteria.behind grammar name limit) middle := by
  rcases lengthened.goes_on sound within seen with ⟨rfl, _⟩ | further
  · exact seen.left _
  · exact further.right _

/-- What the check of a nonterminal with a limit tells. -/
structure Decided (criteria : Criteria N T) (grammar : Grammar N T K) (name : N) (limit : Nat) :
    Prop where
  ends : criteria.continuation grammar name limit &&& limit = 0
  beginnings : ∀ symbols ∈ Criteria.beginnings grammar name,
    criteria.endsSeen (criteria.behind grammar name limit) symbols = true
  extensions : ∀ symbols ∈ Criteria.extensions grammar name,
    criteria.endsSeen (criteria.behind grammar name limit) symbols = true
  beginningsApart : holdsPairwise (fun left right => criteria.excused left right ||
    criteria.mask (criteria.behind grammar name limit) left &&&
        criteria.mask (criteria.behind grammar name limit) right &&&
          criteria.allowed name == 0 ||
      criteria.apart (criteria.behind grammar name limit) left right)
    (Criteria.beginnings grammar name) = true
  extensionsApart : holdsPairwise (criteria.apart (criteria.behind grammar name limit))
    (Criteria.extensions grammar name) = true

theorem decided_of_decides (decides : criteria.decides grammar name limit = true) :
    Decided criteria grammar name limit := by
  simp only [Criteria.decides, Bool.and_eq_true, beq_iff_eq, List.all_eq_true] at decides
  obtain ⟨⟨⟨⟨ends, beginnings⟩, extensions⟩, beginningsApart⟩, extensionsApart⟩ := decides
  exact ⟨ends, beginnings, extensions, beginningsApart, extensionsApart⟩

/-- A phrase cannot both end and go on at the same index. -/
theorem Decided.not_goes_on (decided : Decided criteria grammar name limit) {here : Nat}
    (ends : scene.Sees horizon limit here) :
    ¬scene.Sees horizon (criteria.continuation grammar name limit) here := by
  intro goesOn
  have both := goesOn.and ends
  rw [decided.ends] at both
  exact Scene.not_sees_zero both

/-- The productions that lengthen two derivations of a nonterminal are the same. -/
theorem Decided.extension_eq (sound : Sound criteria scene)
    (decided : Decided criteria grammar name limit) {extent weight : Nat}
    (oneWay : OneWay criteria scene horizon extent weight) {left right middle first second : Nat}
    {production production' : Production N T K} {one other : List Derivation}
    (listed : grammar.productions[left]? = some production)
    (listed' : grammar.productions[right]? = some production')
    (lhs : production.lhs = name) (lhs' : production'.lhs = name)
    (lengthens : production.lengthens = true) (lengthens' : production'.lengthens = true)
    (derived : grammar.Derives tokens production.rhs.tail middle first one)
    (derived' : grammar.Derives tokens production'.rhs.tail middle second other)
    (remains : grammar.Remains tokens production.rhs.tail middle)
    (remains' : grammar.Remains tokens production'.rhs.tail middle)
    (seen : scene.Sees horizon (criteria.behind grammar name limit) first)
    (seen' : scene.Sees horizon (criteria.behind grammar name limit) second)
    (within : Within horizon extent weight middle first second one other)
    (before : left < right) : False := by
  have separate := test_of_holdsPairwise decided.extensionsApart listed listed' before
    (by rw [lengthens, decide_eq_true lhs]; rfl) (by rw [lengthens', decide_eq_true lhs']; rfl)
  rw [derived.not_apart sound.covered sound.heeded sound.clashes oneWay derived' remains remains'
    seen seen' within] at separate
  cases separate

/-- A derivation can be lengthened in one way only. -/
theorem Lengthened.agree (sound : Sound criteria scene)
    (decided : Decided criteria grammar name limit)
    {extent weight : Nat} (oneWay : OneWay criteria scene horizon extent weight)
    {middle first second : Nat} {tree one other : Derivation}
    (lengthened : grammar.Lengthened tokens name start middle tree first one)
    (lengthened' : grammar.Lengthened tokens name start middle tree second other)
    (seen : scene.Sees horizon limit first) (seen' : scene.Sees horizon limit second)
    (first_le : first ≤ horizon) (second_le : second ≤ horizon) (start_le : start ≤ middle)
    (extent_le : (first - start) + (second - start) ≤ extent)
    (weight_le : one.weight + other.weight ≤ weight) : first = second ∧ one = other := by
  induction lengthened generalizing other with
  | refl =>
      rcases lengthened'.goes_on sound second_le seen' with ⟨rfl, rfl⟩ | further
      · exact ⟨rfl, rfl⟩
      · exact absurd further (decided.not_goes_on seen)
  | @step index middle next first production tree final children listed lhs lengthens remains
      derived rest ih =>
      have entire := Lengthened.step listed lhs lengthens remains derived rest
      cases lengthened' with
      | refl =>
          rcases entire.goes_on sound first_le seen with ⟨rfl, same⟩ | further
          · exact ⟨rfl, same.symm⟩
          · exact absurd further (decided.not_goes_on seen')
      | @step index' _ next' _ production' _ _ children' listed' lhs' lengthens' remains' derived'
          rest' =>
          have behind := rest.sees sound first_le seen
          have behind' := rest'.sees sound second_le seen'
          have within : Within horizon extent weight middle next next' children children' := by
            have := derived.le
            have := derived'.le
            have := rest.le
            have := rest'.le
            rw [Derivation.weight_node, Derivation.totalWeight_cons] at *
            exact ⟨by omega, by omega, by omega, by omega⟩
          rcases Nat.lt_trichotomy index index' with before | rfl | after
          · exact (decided.extension_eq sound oneWay listed listed' lhs lhs' lengthens lengthens'
              derived derived' remains remains' behind behind' within before).elim
          · rw [listed] at listed'
            cases listed'
            have member := mem_extensions (List.mem_of_getElem? listed) lengthens
            rw [lhs] at member
            obtain ⟨rfl, rfl⟩ := derived.agree sound.covered sound.heeded oneWay derived' remains
              (decided.extensions _ member) behind behind' within
            exact ih rest' seen first_le (Nat.le_trans start_le derived.le) extent_le weight_le
          · exact (decided.extension_eq sound oneWay listed' listed lhs' lhs lengthens' lengthens
              derived' derived remains' remains behind' behind within.symm after).elim

end Lengthening

variable (criteria) in
/-- Whatever tells excused productions apart does so: they derive nothing from the
same index, when smaller derivations leave no choice. -/
def Resolved (scene : Scene criteria.toView grammar tokens) (horizon : Nat) : Prop :=
  ∀ (extent weight : Nat), OneWay criteria scene horizon extent weight →
    ∀ (name : N), ∀ limit ∈ criteria.limits name,
      ∀ left ∈ grammar.productions, ∀ right ∈ grammar.productions,
        left.lhs = name → right.lhs = name → criteria.excused left.rhs right.rhs = true →
          ∀ (start first second : Nat) (one other : List Derivation),
            grammar.Derives tokens left.rhs start first one →
              grammar.Derives tokens right.rhs start second other →
                scene.Sees horizon (criteria.behind grammar name limit) first →
                  scene.Sees horizon (criteria.behind grammar name limit) second →
                    Within horizon extent weight start first second one other → False

/-- The productions that begin two derivations of a nonterminal are the same. -/
theorem Decided.beginning_eq (sound : Sound criteria scene)
    (resolved : Resolved criteria scene horizon)
    {name : N} {limit : Nat} (member : limit ∈ criteria.limits name)
    (decided : Decided criteria grammar name limit) {extent weight : Nat}
    (oneWay : OneWay criteria scene horizon extent weight) {left right start first second : Nat}
    {production production' : Production N T K} {one other : List Derivation}
    (listed : grammar.productions[left]? = some production)
    (listed' : grammar.productions[right]? = some production')
    (lhs : production.lhs = name) (lhs' : production'.lhs = name)
    (begins : production.lengthens = false) (begins' : production'.lengthens = false)
    (derived : grammar.Derives tokens production.rhs start first one)
    (derived' : grammar.Derives tokens production'.rhs start second other)
    (allowed : scene.Sees horizon (criteria.allowed name) start)
    (seen : scene.Sees horizon (criteria.behind grammar name limit) first)
    (seen' : scene.Sees horizon (criteria.behind grammar name limit) second)
    (within : Within horizon extent weight start first second one other)
    (before : left < right) : False := by
  have isListed := List.mem_of_getElem? listed
  have isListed' := List.mem_of_getElem? listed'
  have remains := remains_rhs tokens isListed start
  have remains' := remains_rhs tokens isListed' start
  have test := test_of_holdsPairwise decided.beginningsApart listed listed' before
    (by rw [begins, decide_eq_true lhs]; rfl) (by rw [begins', decide_eq_true lhs']; rfl)
  rw [Bool.or_eq_true, Bool.or_eq_true, beq_iff_eq] at test
  rcases test with (excused | disjoint) | separate
  · exact resolved extent weight oneWay name limit member production isListed production'
      isListed' lhs lhs' excused start first second one other derived derived' seen seen' within
  · exact derived.not_disjoint sound.covered sound.heeded derived' remains remains' seen seen'
      within.first_le within.second_le allowed disjoint
  · rw [derived.not_apart sound.covered sound.heeded sound.clashes oneWay derived' remains
      remains' seen seen' within] at separate
    cases separate

/-- Where the check of a nonterminal succeeds, its derivations agree if smaller ones
do. -/
theorem Decided.agree (sound : Sound criteria scene)
    (resolved : Resolved criteria scene horizon) {name : N} {limit : Nat}
    (member : limit ∈ criteria.limits name)
    (decided : Decided criteria grammar name limit) {extent weight : Nat}
    (oneWay : OneWay criteria scene horizon extent weight) {start first second : Nat}
    {one other : Derivation} (derivation : grammar.IsDerivation tokens name start first one)
    (derivation' : grammar.IsDerivation tokens name start second other)
    (first_le : first ≤ horizon) (second_le : second ≤ horizon)
    (allowed : scene.Sees horizon (criteria.allowed name) start)
    (seen : scene.Sees horizon limit first) (seen' : scene.Sees horizon limit second)
    (extent_le : (first - start) + (second - start) ≤ extent)
    (weight_le : one.weight + other.weight ≤ weight) : first = second ∧ one = other := by
  obtain ⟨index, production, middle, children, listed, lhs, begins, derived, lengthened⟩ :=
    derivation.lengthened
  obtain ⟨index', production', middle', children', listed', lhs', begins', derived',
    lengthened'⟩ := derivation'.lengthened
  have behind := lengthened.sees sound first_le seen
  have behind' := lengthened'.sees sound second_le seen'
  have within : Within horizon extent weight start middle middle' children children' := by
    have bounds := lengthened.le
    have bounds' := lengthened'.le
    rw [Derivation.weight_node] at bounds bounds'
    exact ⟨by omega, by omega, by omega, by omega⟩
  rcases Nat.lt_trichotomy index index' with before | rfl | after
  · exact (decided.beginning_eq sound resolved member oneWay listed listed' lhs lhs' begins begins'
      derived derived' allowed behind behind' within before).elim
  · rw [listed] at listed'
    cases listed'
    have isListed := List.mem_of_getElem? listed
    have beginning := mem_beginnings isListed begins
    rw [lhs] at beginning
    obtain ⟨rfl, rfl⟩ := derived.agree sound.covered sound.heeded oneWay derived'
      (remains_rhs tokens isListed start) (decided.beginnings _ beginning) behind behind' within
    exact lengthened.agree sound decided oneWay lengthened' seen seen' first_le second_le
      derived.le extent_le weight_le
  · exact (decided.beginning_eq sound resolved member oneWay listed' listed lhs' lhs begins' begins
      derived' derived allowed behind' behind within.symm after).elim

omit [DecidableEq N] in
/-- Bounds on the tokens covered come before bounds on the weight. -/
theorem oneWay_of_smaller {extent weight : Nat}
    (smaller : ∀ extent' < extent, ∀ weight', OneWay criteria scene horizon extent' weight')
    (light : ∀ (name : N), ∀ limit ∈ criteria.limits name, ∀ (start first second : Nat)
      (one other : Derivation),
      grammar.IsDerivation tokens name start first one →
        grammar.IsDerivation tokens name start second other →
          first ≤ horizon → second ≤ horizon →
            scene.Sees horizon (criteria.allowed name) start →
              scene.Sees horizon limit first → scene.Sees horizon limit second →
                (first - start) + (second - start) ≤ extent →
                  one.weight + other.weight < weight → first = second ∧ one = other) :
    OneWay criteria scene horizon extent weight := by
  intro name limit member start first second one other derivation derivation' first_le second_le
    allowed seen seen' bounds
  rcases bounds with fewer | ⟨extent_le, weight_lt⟩
  · exact smaller _ fewer (one.weight + other.weight + 1) name limit member start first second one
      other derivation derivation' first_le second_le allowed seen seen'
      (.inr ⟨Nat.le_refl _, Nat.lt_succ_self _⟩)
  · exact light name limit member start first second one other derivation derivation' first_le
      second_le allowed seen seen' extent_le weight_lt

/-- If the check succeeds for every nonterminal and each of its limits, derivations
followed by what a limit permits leave no choice. The induction is on the number of
tokens covered, and for equal numbers on the weight. -/
theorem oneWay (sound : Sound criteria scene) (resolved : Resolved criteria scene horizon)
    (decides : ∀ production ∈ grammar.productions, ∀ limit ∈ criteria.limits production.lhs,
      criteria.decides grammar production.lhs limit = true) (extent weight : Nat) :
    OneWay criteria scene horizon extent weight := by
  induction extent using Nat.strongRecOn generalizing weight with
  | ind extent smaller =>
  induction weight with
  | zero =>
      apply oneWay_of_smaller smaller
      intro _ _ _ _ _ _ _ _ _ _ _ _ _ _ _ _ impossible
      omega
  | succ weight ih =>
      apply oneWay_of_smaller smaller
      intro name limit member start first second one other derivation derivation' first_le
        second_le allowed seen seen' extent_le weight_lt
      obtain ⟨_, production, _, listed, lhs, _⟩ := derives_nonterminal_iff.mp derivation
      have check := decides production (List.mem_of_getElem? listed) limit
        (by rw [lhs]; exact member)
      rw [lhs] at check
      exact (decided_of_decides check).agree sound resolved member ih derivation derivation'
        first_le second_le allowed seen seen' extent_le (Nat.le_of_lt_succ weight_lt)

/-- A nonterminal has at most one derivation between two indices when the check
succeeds for every nonterminal and something of a limit comes behind. -/
theorem IsDerivation.unique (sound : Sound criteria scene)
    (resolved : Resolved criteria scene horizon)
    (decides : ∀ production ∈ grammar.productions, ∀ limit ∈ criteria.limits production.lhs,
      criteria.decides grammar production.lhs limit = true)
    {name : N} {limit : Nat} (member : limit ∈ criteria.limits name) {start first second : Nat}
    {one other : Derivation} (derivation : grammar.IsDerivation tokens name start first one)
    (derivation' : grammar.IsDerivation tokens name start second other)
    (first_le : first ≤ horizon) (second_le : second ≤ horizon)
    (allowed : scene.Sees horizon (criteria.allowed name) start)
    (seen : scene.Sees horizon limit first) (seen' : scene.Sees horizon limit second) :
    first = second ∧ one = other :=
  oneWay sound resolved decides ((first - start) + (second - start))
    (one.weight + other.weight + 1) name limit member start first second one other derivation
    derivation' first_le second_le allowed seen seen'
    (.inr ⟨Nat.le_refl _, Nat.lt_succ_self _⟩)

/-- Two derivations of a nonterminal use the same production or two of them. -/
theorem IsDerivation.same_or_pair {name : N} {start first second : Nat}
    {one other : Derivation}
    (derivation : grammar.IsDerivation tokens name start first one)
    (derivation' : grammar.IsDerivation tokens name start second other) :
    (∃ index production children children', production ∈ grammar.productions ∧
      production.lhs = name ∧
        grammar.Derives tokens production.rhs start first children ∧
          grammar.Derives tokens production.rhs start second children' ∧
            one = .node index start first children ∧
              other = .node index start second children') ∨
      ∃ left ∈ grammar.productions, ∃ right ∈ grammar.productions,
        ([left.rhs, right.rhs].Sublist (grammar.rightSides name) ∨
          [right.rhs, left.rhs].Sublist (grammar.rightSides name)) ∧
            ∃ children children', grammar.Derives tokens left.rhs start first children ∧
              grammar.Derives tokens right.rhs start second children' := by
  obtain ⟨index, production, children, listed, lhs, _, derived, same⟩ :=
    derives_nonterminal_iff.mp derivation
  obtain ⟨index', production', children', listed', lhs', _, derived', same'⟩ :=
    derives_nonterminal_iff.mp derivation'
  cases same
  cases same'
  have member := List.mem_of_getElem? listed
  have member' := List.mem_of_getElem? listed'
  have sublist : ∀ {left right : Nat} {first second : Production N T K},
      grammar.productions[left]? = some first →
      grammar.productions[right]? = some second → first.lhs = name → second.lhs = name →
        left < right → [first.rhs, second.rhs].Sublist (grammar.rightSides name) := by
    intro left right first second atLeft atRight lhs lhs' before
    have kept := (pair_sublist atLeft atRight before).filter fun production =>
      decide (production.lhs = name)
    have both : [first, second].filter (fun production => decide (production.lhs = name)) =
        [first, second] := by
      simp [lhs, lhs']
    rw [both] at kept
    exact kept.map Production.rhs
  rcases Nat.lt_trichotomy index index' with before | rfl | after
  · exact .inr ⟨production, member, production', member',
      .inl (sublist listed listed' lhs lhs' before), children, children', derived, derived'⟩
  · rw [listed] at listed'
    cases listed'
    exact .inl ⟨index, production, children, children', member, lhs, derived, derived', rfl, rfl⟩
  · exact .inr ⟨production, member, production', member',
      .inr (sublist listed' listed lhs' lhs after), children, children', derived, derived'⟩

end Grammar

end Krl
