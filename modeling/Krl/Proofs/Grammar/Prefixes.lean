import Krl.Proofs.Grammar.Recognition

/-!
# The prefixes of what a grammar derives

A reading from left to right depends on the tokens it has passed only, so no list of tokens
that agrees with them can be read past the token that is blamed. Without guards, and if every
symbol derives something, a reading can be completed from wherever it has come to. Then the
token that is blamed is the first one behind which nothing can go on.
-/

namespace Krl

/-- The guard asks about no tokens but those before the end of a match that covers some. -/
def Guard.LooksBack {K : Type} (guard : Guard K) : Prop :=
  ∀ tokens tokens' start stop, start < stop → tokens.take stop = tokens'.take stop →
    guard tokens start stop = guard tokens' start stop

namespace Grammar

variable {N T K : Type}

/-- All guards look back. -/
def LooksBack (grammar : Grammar N T K) : Prop :=
  ∀ production ∈ grammar.productions, ∀ guard ∈ production.guard, guard.LooksBack

/-- No production carries a guard. -/
def Unguarded (grammar : Grammar N T K) : Prop :=
  ∀ production ∈ grammar.productions, production.guard = none

/-- The start symbol derives all of the tokens. -/
def Derivable (grammar : Grammar N T K) (start : N) (tokens : List K) : Prop :=
  ∃ tree, grammar.IsDerivation tokens start 0 tokens.length tree

/-- Every symbol derives something: the start symbol, and all symbols of the productions. -/
structure Productive (grammar : Grammar N T K) (start : N) : Prop where
  start : ∃ tokens, grammar.Derivable start tokens
  nonterminals : ∀ production ∈ grammar.productions, ∀ name,
    .nonterminal name ∈ production.rhs → ∃ tokens, grammar.Derivable name tokens
  terminals : ∀ production ∈ grammar.productions, ∀ expected,
    .terminal expected ∈ production.rhs → ∃ token, grammar.accepts expected token = true

theorem Unguarded.looksBack {grammar : Grammar N T K} (unguarded : grammar.Unguarded) :
    grammar.LooksBack := by
  intro production listed guard carried
  rw [unguarded production listed] at carried
  cases carried

theorem Unguarded.erasesFreely [DecidableEq N] {grammar : Grammar N T K}
    (unguarded : grammar.Unguarded) : grammar.ErasesFreely :=
  fun production listed _ => unguarded production listed

section Reading

variable {grammar : Grammar N T K} {tokens tokens' : List K} {start : N}

theorem take_eq_of_le {first second : List K} {count bound : Nat}
    (same : first.take bound = second.take bound) (within : count ≤ bound) :
    first.take count = second.take count := by
  rw [← Nat.min_eq_left within, ← List.take_take, same, List.take_take]

/-- Guards that look back judge a match that covers tokens by these and those before. -/
theorem LooksBack.vetoes_eq (back : grammar.LooksBack) {item : Item} {here : Nat}
    (covers : grammar.symbolAt item = none → item.start < here)
    (same : tokens.take here = tokens'.take here) :
    grammar.vetoes tokens here item = grammar.vetoes tokens' here item := by
  rw [vetoes, vetoes]
  cases found : grammar.productions[item.production]? with
  | none => rfl
  | some production =>
      simp only
      cases atEnd : item.dot == production.rhs.length with
      | false => rfl
      | true =>
          have proper := covers (by
            rw [symbolAt, found, Option.bind_some, eq_of_beq atEnd]
            exact List.getElem?_eq_none (Nat.le_refl _))
          cases carried : production.guard with
          | none => rfl
          | some guard =>
              have agree := back production (List.mem_of_getElem? found) guard carried
                tokens tokens' item.start here proper same
              simp only [Option.any_some, agree]

variable [DecidableEq N]

/-- What is reached depends on the tokens before it only, unless it is a complete match of
nothing, on which nothing else depends. The induction is on the steps that reach it. -/
theorem Reaches.of_take_eq (back : grammar.LooksBack) {bound : Nat}
    (same : tokens.take bound = tokens'.take bound) {item : Item} {here : Nat}
    (reached : grammar.Reaches tokens start item here) (within : here ≤ bound)
    (covers : grammar.symbolAt item = none → item.start < here) :
    grammar.Reaches tokens' start item here := by
  have stays {item : Item} {here : Nat} (within : here ≤ bound)
      (covers : grammar.symbolAt item = none → item.start < here)
      (admitted : grammar.vetoes tokens here item = false) :
      grammar.vetoes tokens' here item = false := by
    rw [← back.vetoes_eq covers (take_eq_of_le same within)]
    exact admitted
  have goesOn {item : Item} {symbol : Symbol N T} {here : Nat}
      (awaits : grammar.symbolAt item = some symbol) :
      grammar.symbolAt item = none → item.start < here := by
    rw [awaits]
    intro impossible
    cases impossible
  induction reached with
  | first begins admitted => exact .first begins (stays within covers admitted)
  | predict _ awaits begins admitted ih =>
      exact (ih within (goesOn awaits)).predict awaits begins (stays within covers admitted)
  | skip _ awaits nullable admitted ih =>
      exact (ih within (goesOn awaits)).skip awaits nullable (stays within covers admitted)
  | @shift item expected token here _ awaits found accepted admitted ih =>
      have found' : tokens'[here]? = some token := by
        rw [← List.getElem?_take_of_lt (Nat.lt_of_succ_le within), ← same,
          List.getElem?_take_of_lt (Nat.lt_of_succ_le within), found]
      exact (ih (Nat.le_of_succ_le within) (goesOn awaits)).shift awaits found' accepted
        (stays within covers admitted)
  | complete _ listed atEnd proper _ awaits admitted innerIh outerIh =>
      have outer := outerIh (Nat.le_trans (Nat.le_of_lt proper) within) (goesOn awaits)
      exact (innerIh within fun _ => proper).complete listed atEnd proper outer awaits
        (stays within covers admitted)

theorem Passes.of_take_eq (back : grammar.LooksBack) {here : Nat}
    (same : tokens.take (here + 1) = tokens'.take (here + 1))
    (passes : grammar.Passes tokens start here) : grammar.Passes tokens' start here := by
  obtain ⟨item, expected, token, reached, awaits, found, accepted, admitted⟩ := passes
  have found' : tokens'[here]? = some token := by
    rw [← List.getElem?_take_of_lt (Nat.lt_succ_self here), ← same,
      List.getElem?_take_of_lt (Nat.lt_succ_self here), found]
  have reached' := reached.of_take_eq back same (Nat.le_succ here) fun atEnd => by
    rw [awaits] at atEnd
    cases atEnd
  have covers : item.advance.start < here + 1 := Nat.lt_succ_of_le reached.start_le
  rw [back.vetoes_eq (fun _ => covers) same] at admitted
  exact ⟨item, expected, token, reached', awaits, found', accepted, admitted⟩

/-- Nothing that begins with the tokens up to the blamed one is derivable. -/
theorem not_derivable_of_stuck (back : grammar.LooksBack) {here : Nat}
    (stuck : grammar.recognize start tokens = .error (.stuck here))
    (begins : tokens.take (here + 1) <+: tokens') : ¬grammar.Derivable start tokens' := by
  obtain ⟨inside, none_, _⟩ := passes_of_stuck stuck
  obtain ⟨rest, rfl⟩ := begins
  have length : (tokens.take (here + 1)).length = here + 1 := by
    rw [List.length_take]
    omega
  rintro ⟨tree, derivation⟩
  have below : here < (tokens.take (here + 1) ++ rest).length := by
    rw [List.length_append]
    omega
  refine none_ ((derivation.takes below).passes.of_take_eq back ?_)
  rw [List.take_append_of_le_length (Nat.le_of_eq length.symm), List.take_take, Nat.min_self]

end Reading

section Completion

/-- Some symbols, one after another, make a list of tokens, guards left aside. -/
inductive Generates (grammar : Grammar N T K) : List (Symbol N T) → List K → Prop where
  | nil : Generates grammar [] []
  | leaf {expected : T} {others : List (Symbol N T)} {token : K} {word : List K}
      (accepted : grammar.accepts expected token = true) (rest : Generates grammar others word) :
      Generates grammar (.terminal expected :: others) (token :: word)
  | node {production : Production N T K} {others : List (Symbol N T)} {word more : List K}
      (listed : production ∈ grammar.productions) (inner : Generates grammar production.rhs word)
      (rest : Generates grammar others more) :
      Generates grammar (.nonterminal production.lhs :: others) (word ++ more)

variable {grammar : Grammar N T K} {tokens : List K} {start : N} {symbols : List (Symbol N T)}

theorem Generates.append {others : List (Symbol N T)} {word more : List K}
    (first : grammar.Generates symbols word) (second : grammar.Generates others more) :
    grammar.Generates (symbols ++ others) (word ++ more) := by
  induction first with
  | nil => exact second
  | leaf accepted _ ih => exact .leaf accepted ih
  | node listed inner _ _ ih =>
      rw [List.append_assoc]
      exact .node listed inner ih

/-- A production makes a phrase of its nonterminal. -/
theorem Generates.phrase {production : Production N T K} {word : List K}
    (inner : grammar.Generates production.rhs word) (listed : production ∈ grammar.productions) :
    grammar.Generates [.nonterminal production.lhs] word := by
  have phrase := Generates.node listed inner .nil
  rw [List.append_nil] at phrase
  exact phrase

/-- Symbols make the tokens that they derive. -/
theorem Derives.generates {first stop : Nat} {trees : List Derivation}
    (derived : grammar.Derives tokens symbols first stop trees) :
    grammar.Generates symbols ((tokens.drop first).take (stop - first)) := by
  induction derived with
  | nil =>
      rw [Nat.sub_self, List.take_zero]
      exact .nil
  | @leaf expected others here stop siblings token found accepted rest ih =>
      obtain ⟨inside, rfl⟩ := List.getElem?_eq_some_iff.mp found
      have le := rest.le
      rw [List.drop_eq_getElem_cons inside, show stop - here = stop - (here + 1) + 1 by omega,
        List.take_succ_cons]
      exact .leaf accepted ih
  | @node index production others first middle stop children siblings listed _ inner rest innerIh
      restIh =>
      have le := inner.le
      have le' := rest.le
      rw [show stop - first = middle - first + (stop - middle) by omega, List.take_add,
        List.drop_drop, show first + (middle - first) = middle by omega]
      exact .node (List.mem_of_getElem? listed) innerIh restIh

/-- Without guards, symbols derive what they make, wherever it stands. -/
theorem Generates.derives (unguarded : grammar.Unguarded) {word : List K}
    (generates : grammar.Generates symbols word) (before behind : List K) :
    ∃ trees, grammar.Derives (before ++ word ++ behind) symbols before.length
      (before.length + word.length) trees := by
  induction generates generalizing before behind with
  | nil => exact ⟨[], .nil⟩
  | @leaf expected others token word accepted _ ih =>
      obtain ⟨trees, derived⟩ := ih (before ++ [token]) behind
      rw [List.length_append, List.length_singleton, List.append_assoc before,
        List.singleton_append, Nat.add_assoc, Nat.add_comm 1] at derived
      have found : (before ++ token :: word ++ behind)[before.length]? = some token := by
        simp
      exact ⟨_, .leaf found accepted derived⟩
  | @node production others word more listed _ _ innerIh restIh =>
      obtain ⟨children, inner⟩ := innerIh before (more ++ behind)
      obtain ⟨siblings, rest⟩ := restIh (before ++ word) behind
      obtain ⟨index, found⟩ := List.getElem?_of_mem listed
      simp only [List.append_assoc, List.length_append, Nat.add_assoc] at inner rest ⊢
      exact ⟨_, .node found
        (Production.admits_of_unguarded (unguarded production listed) _ _ _) inner rest⟩

theorem derivable_iff_generates (unguarded : grammar.Unguarded) :
    grammar.Derivable start tokens ↔ grammar.Generates [.nonterminal start] tokens := by
  constructor
  · rintro ⟨tree, derivation⟩
    have generates := Derives.generates derivation
    rw [List.drop_zero, Nat.sub_zero, List.take_length] at generates
    exact generates
  · intro generates
    obtain ⟨trees, derived⟩ := generates.derives unguarded [] []
    rw [List.nil_append, List.append_nil, List.length_nil, Nat.zero_add] at derived
    obtain ⟨tree, rfl⟩ := List.length_eq_one_iff.mp derived.length_eq
    exact ⟨tree, derived⟩

theorem Productive.generates (productive : grammar.Productive start)
    (unguarded : grammar.Unguarded) {production : Production N T K}
    (listed : production ∈ grammar.productions)
    (among : ∀ symbol ∈ symbols, symbol ∈ production.rhs) :
    ∃ word, grammar.Generates symbols word := by
  induction symbols with
  | nil => exact ⟨[], .nil⟩
  | cons symbol others ih =>
      obtain ⟨first, among⟩ := List.forall_mem_cons.mp among
      obtain ⟨more, rest⟩ := ih among
      cases symbol with
      | nonterminal name =>
          obtain ⟨word, derivable⟩ := productive.nonterminals production listed name first
          exact ⟨_, ((derivable_iff_generates unguarded).mp derivable).append rest⟩
      | terminal expected =>
          obtain ⟨token, accepted⟩ := productive.terminals production listed expected first
          exact ⟨_, .leaf accepted rest⟩

/-- If every phrase of a production can be completed where it begins, then so can its first
symbols where they end. -/
theorem Derives.exists_completion {production : Production N T K} {dot origin here : Nat}
    {trees : List Derivation}
    (derived : grammar.Derives tokens (production.rhs.take dot) origin here trees)
    (listed : production ∈ grammar.productions) {more : List K}
    (behind : grammar.Generates (production.rhs.drop dot) more)
    (outer : ∀ word, grammar.Generates [.nonterminal production.lhs] word →
      ∃ rest, grammar.Derivable start (tokens.take origin ++ word ++ rest)) :
    ∃ rest, grammar.Derivable start (tokens.take here ++ more ++ rest) := by
  have whole := derived.generates.append behind
  rw [List.take_append_drop] at whole
  obtain ⟨rest, derivable⟩ := outer _ (whole.phrase listed)
  rw [← List.append_assoc, ← List.take_add, Nat.add_sub_of_le derived.le] at derivable
  exact ⟨rest, derivable⟩

/-- Where a nonterminal is predicted, each of its phrases can be completed. The induction is
on the prediction. -/
theorem Predicted.exists_completion (unguarded : grammar.Unguarded)
    (productive : grammar.Productive start) {name : N} {here : Nat}
    (predicted : grammar.Predicted tokens start name here) {word : List K}
    (phrase : grammar.Generates [.nonterminal name] word) :
    ∃ rest, grammar.Derivable start (tokens.take here ++ word ++ rest) := by
  induction predicted generalizing word with
  | first =>
      refine ⟨[], (derivable_iff_generates unguarded).mpr ?_⟩
      rw [List.take_zero, List.nil_append, List.append_nil]
      exact phrase
  | @next index production dot origin here name trees listed awaited _ derived ih =>
      have member := List.mem_of_getElem? listed
      obtain ⟨more, others⟩ := productive.generates unguarded member
        fun symbol => List.mem_of_mem_drop (i := dot + 1)
      obtain ⟨inside, same⟩ := List.getElem?_eq_some_iff.mp awaited
      have behind := phrase.append others
      rw [← same, List.singleton_append, ← List.drop_eq_getElem_cons inside] at behind
      obtain ⟨rest, derivable⟩ := derived.exists_completion member behind fun _ => ih
      exact ⟨more ++ rest, by simpa only [List.append_assoc] using derivable⟩

/-- From an item that stands at a boundary, the tokens before can be completed. -/
theorem Stands.exists_completion (unguarded : grammar.Unguarded)
    (productive : grammar.Productive start) {production : Production N T K} {item : Item}
    {here : Nat} (stands : grammar.Stands tokens start production item here) :
    ∃ rest, grammar.Derivable start (tokens.take here ++ rest) := by
  have member := List.mem_of_getElem? stands.listed
  obtain ⟨trees, derived⟩ := stands.derived
  obtain ⟨more, behind⟩ := productive.generates unguarded member
    fun symbol => List.mem_of_mem_drop (i := item.dot)
  obtain ⟨rest, derivable⟩ := derived.exists_completion member behind fun _ phrase =>
    stands.predicted.exists_completion unguarded productive phrase
  exact ⟨more ++ rest, by simpa only [List.append_assoc] using derivable⟩

variable [DecidableEq N]

/-- Tokens that some items move over, one after another, can be completed. -/
theorem exists_completion_of_passes (unguarded : grammar.Unguarded)
    (productive : grammar.Productive start) {here : Nat}
    (passes : ∀ earlier < here, grammar.Passes tokens start earlier) :
    ∃ rest, grammar.Derivable start (tokens.take here ++ rest) := by
  cases here with
  | zero =>
      obtain ⟨word, derivable⟩ := productive.start
      exact ⟨word, derivable⟩
  | succ last =>
      obtain ⟨item, expected, token, reached, awaits, found, accepted, admitted⟩ :=
        passes last (Nat.lt_succ_self last)
      have moved := reached.shift awaits found accepted admitted
      obtain ⟨production, stands⟩ := moved.stands unguarded.erasesFreely
      exact stands.exists_completion unguarded productive

/-- The source ends too early just when it is not derivable but a longer one is. -/
theorem recognize_eq_short_iff (unguarded : grammar.Unguarded)
    (productive : grammar.Productive start) :
    grammar.recognize start tokens = .error .short ↔
      ¬grammar.Derivable start tokens ∧
        ∃ rest, rest ≠ [] ∧ grammar.Derivable start (tokens ++ rest) := by
  have outcome := recognized_recognize unguarded.erasesFreely start tokens
  constructor
  · intro short
    rw [short] at outcome
    obtain ⟨rest, derivable⟩ :=
      exists_completion_of_passes unguarded productive (passes_of_short short)
    rw [List.take_length] at derivable
    refine ⟨outcome, rest, ?_, derivable⟩
    rintro rfl
    rw [List.append_nil] at derivable
    exact outcome derivable
  · rintro ⟨underivable, rest, _, derivable⟩
    cases recognition : grammar.recognize start tokens with
    | ok chart =>
        rw [recognition] at outcome
        exact absurd outcome.2.2 underivable
    | error rejection =>
        cases rejection with
        | stuck here =>
            have begins := (List.take_prefix (here + 1) tokens).trans (List.prefix_append _ rest)
            exact absurd derivable
              (not_derivable_of_stuck unguarded.looksBack recognition begins)
        | short => rfl

end Completion

end Grammar

end Krl
