import Krl.Fragment.Assembly
import Krl.Proofs.Language.Placing

/-!
# What fragments stand for

Every kind of phrase has a way to read its value off a fragment. A reducer performs the action of
a production if the fragment it makes is read as what the action makes of the values that the
fragments of the parts are read as.
-/

namespace Krl

namespace Traced

variable {α β : Type}

/-- The two outcomes leave the same trace, and are the same error or a value and what it is read
as. -/
inductive Reads (reading : α → Except ParseError β) :
    Except ParseError α × List TraceEvent → Except ParseError β × List TraceEvent → Prop where
  | ok {value : α} {result : β} {trace : List TraceEvent} (read : reading value = .ok result) :
      Reads reading (.ok value, trace) (.ok result, trace)
  | error {error : ParseError} {trace : List TraceEvent} :
      Reads reading (.error error, trace) (.error error, trace)

/-- Whatever one computation ends in is read as what the other one ends in. -/
def ReadsAs (reading : α → Except ParseError β) (one : Traced α) (other : Traced β) : Prop :=
  ∀ trace, Reads reading (one.outcomeFrom trace) (other.outcomeFrom trace)

variable {reading : α → Except ParseError β}

theorem ReadsAs.pure {value : α} {result : β} (read : reading value = .ok result) :
    ReadsAs reading (Pure.pure value) (Pure.pure result) :=
  fun _ => .ok read

theorem ReadsAs.congr {one one' : Traced α} {other other' : Traced β}
    (reads : ReadsAs reading one' other') (same : one = one') (same' : other = other') :
    ReadsAs reading one other :=
  same ▸ same' ▸ reads

theorem ReadsAs.throw (error : ParseError) :
    ReadsAs reading (MonadExcept.throw error) (MonadExcept.throw error) :=
  fun _ => .error

theorem ReadsAs.refl (one : Traced α) : ReadsAs .ok one one := by
  intro trace
  generalize one.outcomeFrom trace = outcome
  obtain ⟨error | value, traced⟩ := outcome
  · exact .error
  · exact .ok rfl

theorem ReadsAs.bind {one : Traced α} {other : Traced β} {γ δ : Type}
    {reading' : γ → Except ParseError δ} {next : α → Traced γ} {next' : β → Traced δ}
    (first : ReadsAs reading one other)
    (rest : ∀ value result, reading value = .ok result →
      ReadsAs reading' (next value) (next' result)) :
    ReadsAs reading' (one >>= next) (other >>= next') := by
  intro trace
  have reads := first trace
  rw [outcomeFrom_bind, outcomeFrom_bind]
  generalize one.outcomeFrom trace = outcome at reads
  generalize other.outcomeFrom trace = outcome' at reads
  cases reads with
  | ok read => exact rest _ _ read _
  | error => exact .error

/-- What is done first is the same. -/
theorem ReadsAs.after {γ : Type} (first : Traced γ) {next : γ → Traced α} {next' : γ → Traced β}
    (rest : ∀ value, ReadsAs reading (next value) (next' value)) :
    ReadsAs reading (first >>= next) (first >>= next') := by
  refine (ReadsAs.refl first).bind fun value _ same => ?_
  cases same
  exact rest value

theorem ext_outcomeFrom {one other : Traced α}
    (same : ∀ trace, one.outcomeFrom trace = other.outcomeFrom trace) : one = other :=
  funext same

/-- To read the value of the one computation is to run the other. -/
theorem ReadsAs.eq {one : Traced α} {other : Traced β} (reads : ReadsAs reading one other) :
    (do ofExcept (reading (← one))) = other := by
  apply ext_outcomeFrom
  intro trace
  have reads := reads trace
  rw [outcomeFrom_bind]
  generalize one.outcomeFrom trace = outcome at reads
  generalize other.outcomeFrom trace = outcome' at reads
  cases reads with
  | ok read =>
      simp only [read]
      rfl
  | error => rfl

theorem ReadsAs.of_eq_pure {one : Traced α} {result : β}
    (same : (do ofExcept (reading (← one))) = (Pure.pure result : Traced β)) :
    ReadsAs reading one (Pure.pure result) := by
  intro trace
  have outcome := congrArg (fun computation : Traced β => computation.outcomeFrom trace) same
  simp only [outcomeFrom_bind] at outcome
  generalize one.outcomeFrom trace = reached at outcome
  obtain ⟨_ | found, traced⟩ := reached
  · cases outcome
  · cases read : reading found with
    | error error =>
        simp only [read] at outcome
        cases outcome
    | ok result =>
        simp only [read] at outcome
        cases outcome
        exact .ok read

end Traced

section Outcomes

variable {α β : Type}

@[simp] theorem ok_bind (value : α) (next : α → Except ParseError β) :
    (Except.ok value >>= next) = next value :=
  rfl

@[simp] theorem ok_map (after : α → β) (value : α) :
    after <$> (Except.ok value : Except ParseError α) = .ok (after value) :=
  rfl

@[simp] theorem pure_eq_ok (value : α) : (pure value : Except ParseError α) = .ok value :=
  rfl

@[simp] theorem ofExcept_ok {m : Type → Type} [Monad m] [MonadExcept ParseError m] (value : α) :
    (ofExcept (Except.ok value : Except ParseError α) : m α) = pure value :=
  rfl

end Outcomes

namespace Fragment

@[simp] theorem into_piece (kind : Kind) (content : kind.Content) :
    into kind (piece kind content) = .ok content := by
  rw [into, dif_pos rfl]

variable {α : Type} {read : Fragment → Except ParseError α}

theorem intoListOf_eq_ok_iff {fragment : Fragment} {values : List α} :
    intoListOf read fragment = .ok values ↔
      ∃ parts, parts.mapM read = .ok values ∧ list parts = fragment := by
  constructor
  · intro listed
    cases fragment with
    | list parts => exact ⟨parts, listed, rfl⟩
    | nothing => cases listed
    | piece kind content => cases listed
  · rintro ⟨parts, every, rfl⟩
    exact every

@[simp] theorem intoList_list (parts : List Fragment) : intoList (list parts) = .ok parts :=
  rfl

@[simp] theorem intoListOf_list (parts : List Fragment) :
    intoListOf read (list parts) = parts.mapM read :=
  rfl

@[simp] theorem intoItems_list (parts : List Fragment) : intoItems read (list parts) = parts.mapM read :=
  rfl

@[simp] theorem intoItems_nothing : intoItems read nothing = .ok [] :=
  rfl

@[simp] theorem intoOption_piece (kind : Kind) (content : kind.Content) :
    intoOption read (piece kind content) = some <$> read (piece kind content) :=
  rfl

@[simp] theorem intoOption_nothing : intoOption read nothing = .ok none :=
  rfl

/-- A part that is there is read as an optional part that is there. -/
theorem intoOption_of_ok {fragment : Fragment} {value : α}
    (fails : ∀ value, read nothing ≠ .ok value) (found : read fragment = .ok value) :
    intoOption read fragment = .ok (some value) := by
  cases fragment with
  | nothing => exact (fails value found).elim
  | list parts =>
      rw [intoOption, found]
      · rfl
      · nofun
  | piece kind content =>
      rw [intoOption, found]
      · rfl
      · nofun

end Fragment

/-- What the accessors of a token give, if it has a meaning as a member of a class. -/
def Terminal.Gives : (tokens : Terminal) → Leaf → tokens.Datum → Prop
  | .punct mark, leaf, _ => leaf.word = .ok mark.text
  | .word text, leaf, span =>
      leaf.word = .ok text ∧ leaf.lexeme.span = span ∧ leaf.lexeme.token.symbol? = some text ∧
        Fragment.intoIdentifier (.piece .token leaf) = .ok ⟨text, span⟩
  | .identifier, leaf, name | .symbol, leaf, name =>
      leaf.word = .ok name.value ∧ Fragment.intoIdentifier (.piece .token leaf) = .ok name
  | .number, leaf, value => leaf.number = .ok value
  | .string, leaf, value => leaf.string = .ok value
  | .regexp, leaf, value => leaf.regexp = .ok value
  | .domainName, leaf, value | .persistent, leaf, value => leaf.domainName = .ok value
  | .chevron, leaf, value =>
      value = do return ⟨.chevron (← leaf.template), leaf.lexeme.span⟩

theorem Terminal.gives_of_read {tokens : Terminal} {leaf : Leaf} {datum : tokens.Datum}
    (read : tokens.read leaf = some datum) : tokens.Gives leaf datum := by
  obtain ⟨⟨token, start, stop⟩, parts⟩ := leaf
  cases tokens <;> cases token <;>
    simp only [Terminal.read, Option.ite_none_right_eq_some, Option.some.injEq, reduceCtorEq] at read
  case punct.punct =>
    obtain ⟨rfl, _⟩ := read
    rfl
  case word.symbol =>
    obtain ⟨rfl, rfl⟩ := read
    exact ⟨rfl, rfl, rfl, rfl⟩
  case identifier.symbol =>
    obtain ⟨_, rfl⟩ := read
    exact ⟨rfl, rfl⟩
  case symbol.symbol =>
    subst read
    exact ⟨rfl, rfl⟩
  case persistent.domainName =>
    obtain ⟨_, rfl⟩ := read
    rfl
  all_goals
    subst read
    rfl

open Fragment

/-- How the value of a phrase is read off its fragment. -/
def Nonterminal.reading : (name : Nonterminal) → Fragment → Except ParseError name.Value
  | .main => into .program
  | .ruleset => into .ruleset
  | .rulesetId => into .rulesetId
  | .ridWords | .timePeriod => into .text
  | .metaOpt => intoOption (into .metaBlock)
  | .metaBlock => into .metaBlock
  | .metaProperties => intoListOf (into .metaProperty)
  | .metaProperty => into .metaProperty
  | .versionOpt | .forOpt | .attributesOpt | .whereOpt => intoOption (into .expression)
  | .aliasOpt | .scheduleSettingOpt => intoOption (into .identifier)
  | .withOpt => intoOption (intoListOf (into .statement))
  | .identifiers => intoListOf intoIdentifier
  | .settingOpt => intoItems intoIdentifier
  | .rulesetIds => intoListOf (into .rulesetId)
  | .globalOpt | .preludeOpt => intoItems (into .statement)
  | .withSpaced | .withJoined | .configuration | .declarations | .plainDeclarations
  | .postludeBody | .postludeStatements | .postludeSequence | .statements
  | .statementSequence => intoListOf (into .statement)
  | .withBinding | .declarationItem | .declarationOrDefaction | .declaration | .defaction
  | .plainDeclaration | .postludeStatement | .postludeCore | .persistentAssignment
  | .clearStatement | .raiseStatement | .scheduleStatement | .logStatement | .errorStatement
  | .statement => into .statement
  | .returnsOpt => intoItems (into .expression)
  | .expressions | .arrayItems => intoListOf (into .expression)
  | .rules => intoListOf (into .rule)
  | .rule => into .rule
  | .ruleState => into .ruleState
  | .selectOpt => intoOption (into .select)
  | .ruleSelect => into .select
  | .withinOpt => intoOption (into .within)
  | .loops => intoListOf (into .loop)
  | .loop => into .loop
  | .actionBlockOpt => intoOption (into .actionBlock)
  | .actionBlock => into .actionBlock
  | .actionSet => into .actionSet
  | .actions => intoListOf (into .action)
  | .actionItem | .action | .actionCore => into .action
  | .postludeOpt => intoOption (into .postlude)
  | .postlude => into .postlude
  | .logLevel => into .logLevel
  | .eventOr | .eventAnd | .eventSequence | .eventBetween | .eventPrimary
  | .eventGroup => into .event
  | .eventBase => intoBaseEvent
  | .events => intoListOf (into .event)
  | .attributeMatches => intoListOf (into .attributeMatch)
  | .attributeMatch => into .attributeMatch
  | .aggregatorOpt => intoOption (into .aggregator)
  | .aggregator => into .aggregator
  | .metaText | .declarationLeft | .actionName | .expression | .disjunction | .conjunction
  | .comparison | .sum | .product | .unary | .suffixed | .primary | .arrayLiteral | .mapLiteral
  | .function => into .expression
  | .mapPairs => intoListOf (into .mapPair)
  | .mapPair => into .mapPair
  | .parameters => into .parameters
  | .parameterList => intoListOf (into .parameter)
  | .parameter => into .parameter
  | .arguments => into .arguments
  | .argumentList | .argumentSequence => intoListOf (into .argument)
  | .argument => into .argument
where
  /-- An event that must be a single one. -/
  intoBaseEvent (fragment : Fragment) : Except ParseError BaseEvent := do
    let event ← into .event fragment
    match event.kind with
    | .expression value => return ⟨value, event.span⟩
    | _ => throw (.internal "aggregator on a non-base event")

@[simp] theorem intoBaseEvent_eq_ok_iff {fragment : Fragment} {event : BaseEvent} :
    Nonterminal.reading.intoBaseEvent fragment = .ok event ↔
      into .event fragment = .ok event.toEvent := by
  rw [Nonterminal.reading.intoBaseEvent]
  constructor
  · intro read
    cases found : into .event fragment with
    | error error =>
        rw [found] at read
        cases read
    | ok whole =>
        obtain ⟨kind, span⟩ := whole
        rw [found] at read
        cases kind with
        | expression value =>
            cases read
            rfl
        | _ => cases read
  · intro read
    rw [read]
    rfl

@[simp] theorem intoBaseEvent_piece (value : EventExpression) (span : Span) :
    Nonterminal.reading.intoBaseEvent (.piece .event ⟨.expression value, span⟩) =
      .ok ⟨value, span⟩ :=
  intoBaseEvent_eq_ok_iff.mpr (into_piece .event _)

end Krl
