import Krl.Proofs.Parse.Ambiguity
import Krl.Proofs.Parse.Embedding

/-!
# Runs of the engine

Every interpolation makes the engine run once more, over the tokens between its braces. The runs
of a source come in the order in which the interpolations open, those inside of an interpolation
right after its own, and the first one that fails is the last one there is.
-/

namespace Krl

namespace Traced

variable {α β : Type}

/-- What a computation does, besides coming to a value. -/
def effects (computation : Traced α) : Traced Unit :=
  (fun _ => ()) <$> computation

@[simp] theorem effects_pure (value : α) : effects (pure value) = pure () :=
  rfl

@[simp] theorem effects_throw (error : ParseError) : effects (throw error : Traced α) =
    throw error :=
  rfl

@[simp] theorem effects_map (after : α → β) (computation : Traced α) :
    effects (after <$> computation) = effects computation :=
  (comp_map after (fun _ => ()) computation).symm

theorem effects_bind (computation : Traced α) (next : α → Traced β) :
    effects (computation >>= next) = computation >>= fun value => effects (next value) :=
  map_bind _ computation next

/-- Where a value is not needed, the effects do. -/
theorem bind_of_effects (computation : Traced α) (next : Traced β) :
    (computation >>= fun _ => next) = effects computation >>= fun _ => next :=
  (bind_map_left (fun _ => ()) computation fun _ => next).symm

theorem outcomeFrom_effects (computation : Traced α) (trace : List TraceEvent) :
    (effects computation).outcomeFrom trace =
      ((computation.outcomeFrom trace).1.map fun _ => (), (computation.outcomeFrom trace).2) := by
  rw [effects, map_eq_pure_bind, outcomeFrom_bind]
  generalize computation.outcomeFrom trace = before
  obtain ⟨outcome, traced⟩ := before
  cases outcome <;> rfl

end Traced

/-- What the engine does when it has counted the derivations of some tokens: it reports the
count, and fails unless there is exactly one. -/
def reportCount (start : StartSymbol) (tokens count : Nat) : Traced Unit := do
  Traced.log (.accepted tokens)
  Traced.log (.counted count start.label)
  if 1 < count then
    Traced.log (.ambiguous count)
  match ParseError.ofDerivations? count with
  | some error => throw error
  | none => pure ()

/-- One run of the engine: the tokens are derived, and their derivations counted. -/
def runEngine (start : StartSymbol) (tokens : List Leaf) (atEnd : Option Nat) : Traced Unit :=
  match language.grammar.survey start.nonterminal tokens with
  | .error reason => throw (reason.toError tokens atEnd)
  | .ok tally => reportCount start tokens.length tally.reported

theorem outcomeFrom_reportCount_one (start : StartSymbol) (tokens : Nat)
    (trace : List TraceEvent) :
    (reportCount start tokens 1).outcomeFrom trace =
      (.ok (), trace ++ [.accepted tokens, .counted 1 start.label]) := by
  rw [← List.singleton_append, ← List.append_assoc]
  rfl

theorem outcomeFrom_reportCount_several (start : StartSymbol) (tokens : Nat) {count : Nat}
    (several : 1 < count) (trace : List TraceEvent) :
    (reportCount start tokens count).outcomeFrom trace =
      (.error (.ambiguous count),
        trace ++ [.accepted tokens, .counted count start.label, .ambiguous count]) := by
  match count with
  | count + 2 =>
      rw [reportCount, if_pos several, List.append_cons, List.append_cons]
      rfl

/-- A value is only asked for when the count is in order. -/
theorem conclude_derived (start : StartSymbol) (tokens : List Leaf) (atEnd : Option Nat)
    (count : Nat) (value : Traced start.nonterminal.Value) :
    conclude start tokens atEnd (.derived count value) =
      reportCount start tokens.length count >>= fun _ => value := by
  match count with
  | 0 | 1 => rfl
  | count + 2 =>
      have several : 1 < count + 2 := Nat.lt_add_left count Nat.one_lt_two
      rw [conclude, reportCount, if_pos several]
      rfl

/-- The run of the engine for an interpolation alone, without those inside of it. -/
def Interpolation.run (interpolation : Interpolation) : Traced Unit :=
  runEngine .expression (leavesOf (significant interpolation.tokens)) (some interpolation.close)

/-- The runs of the engine for some interpolations, one after another. -/
def runs (interpolations : List Interpolation) : Traced Unit :=
  interpolations.forM Interpolation.run

theorem runs_append (one other : List Interpolation) :
    runs (one ++ other) = runs one >>= fun _ => runs other :=
  List.forM_append

section Evaluation

open Productions

/-- What the values of the templates among some tokens do, from left to right. -/
def templateEffects (tokens : List Leaf) : Traced Unit :=
  tokens.forM fun leaf => leaf.parts.effects

/-- Only templates have parts. -/
theorem parts_of_plain {tokens : Terminal} (plain : isPlain (.terminal tokens) = true)
    {lexeme : Lexeme} {datum : tokens.Datum}
    (read : tokens.read (.ofLexeme lexeme) = some datum) :
    (Leaf.ofLexeme lexeme).parts = pure [] := by
  obtain ⟨token, start, stop⟩ := lexeme
  cases means_of_read read <;> first | rfl | cases plain

/-- Having the datum of a template read amounts to having its parts. -/
theorem effects_of_chevron {leaf : Leaf} {parts : Traced Expr}
    (read : Terminal.chevron.read leaf = some parts) : parts.effects = leaf.parts.effects := by
  obtain ⟨⟨token, start, stop⟩, values⟩ := leaf
  cases token <;> cases read
  exact Traced.effects_bind values _

variable {lexemes : List Lexeme} {stop : Nat}

theorem templateEffects_drop {tokens : List Leaf} {index : Nat} {leaf : Leaf}
    (found : tokens[index]? = some leaf) :
    templateEffects (tokens.drop index) =
      leaf.parts.effects >>= fun _ => templateEffects (tokens.drop (index + 1)) := by
  obtain ⟨bound, rfl⟩ := List.getElem?_eq_some_iff.mp found
  rw [List.drop_eq_getElem_cons bound]
  rfl

/-- A token that has a plain meaning has no parts. -/
theorem parts_of_token {tokens : Terminal} (plain : isPlain (.terminal tokens) = true)
    {index : Nat} {leaf : Leaf} (found : (leavesOf lexemes)[index]? = some leaf)
    {datum : tokens.Datum} (read : tokens.read leaf = some datum) : leaf.parts = pure [] := by
  obtain ⟨lexeme, _, rfl⟩ := getElem?_leavesOf_iff.mp found
  exact parts_of_plain plain read

/-- What the action of a production does, given that applying plain functions to its parts does
what the templates among the tokens do. -/
theorem effects_action {entry : Entry} (natural : Natural entry) {first last : Nat}
    {children : List Derivation}
    (derived : language.grammar.Derives (leavesOf lexemes) entry.rhs first last children)
    (applied : entry.rhs.all isPlain = true → ∀ {Result : Type}
      (action : Curried Nonterminal.Value Terminal.Datum entry.rhs Result),
      ((language.apply ⟨leavesOf lexemes, stop⟩ Result entry.rhs
          (Curried.map (pure : Result → Traced Result) entry.rhs action) children) >>=
            fun _ => templateEffects ((leavesOf lexemes).drop last)) =
        templateEffects ((leavesOf lexemes).drop first))
    (span : Span) :
    (language.apply ⟨leavesOf lexemes, stop⟩ entry.lhs.Value entry.rhs (entry.action span)
        children >>= fun _ => templateEffects ((leavesOf lexemes).drop last)) =
      templateEffects ((leavesOf lexemes).drop first) := by
  induction natural with
  | rule plain _ => exact applied plain _
  | @template lhs value _ =>
      obtain ⟨rfl, rfl, leaf, found, accepted⟩ := Grammar.derives_terminal_iff.mp derived
      obtain ⟨parts, read⟩ : ∃ parts : Traced Expr, Terminal.chevron.read leaf = some parts :=
        Option.isSome_iff_exists.mp accepted
      have only : ((Input.mk (leavesOf lexemes) stop).tokens[first]?).bind
          (language.read .chevron) = some parts :=
        (congrArg (Option.bind · _) found).trans read
      have evaluated := (Language.apply_leaf language only ((template lhs value).action span)).trans
        (Language.apply_nil language _)
      rw [templateEffects_drop found]
      refine (congrArg (· >>= _) evaluated).trans ?_
      show ((value <$> parts : Traced lhs.Value) >>= fun _ => _) = _
      rw [Traced.bind_of_effects, Traced.effects_map, effects_of_chevron read]
  | guarded _ _ ih => exact ih derived applied

/-- An action is applied to the tokens by having each template among them once, in order. The
induction is on the derivations; what comes behind them is kept in the statement. -/
theorem effects_apply {symbols : List (Symbol Nonterminal Terminal)} {first last : Nat}
    {trees : List Derivation}
    (derived : language.grammar.Derives (leavesOf lexemes) symbols first last trees)
    (plain : symbols.all isPlain = true) {Result : Type}
    (action : Curried Nonterminal.Value Terminal.Datum symbols Result) :
    ((language.apply ⟨leavesOf lexemes, stop⟩ Result symbols
        (Curried.map (pure : Result → Traced Result) symbols action) trees) >>=
          fun _ => templateEffects ((leavesOf lexemes).drop last)) =
      templateEffects ((leavesOf lexemes).drop first) := by
  induction derived generalizing Result with
  | nil =>
      rw [Language.apply_nil]
      rfl
  | @leaf expected others here last siblings leaf found accepted rest ih =>
      obtain ⟨datum, read⟩ := Option.isSome_iff_exists.mp accepted
      have first : ((Input.mk (leavesOf lexemes) stop).tokens[here]?).bind
          (language.read expected) = some datum :=
        (congrArg (Option.bind · _) found).trans read
      rw [List.all_cons, Bool.and_eq_true] at plain
      rw [templateEffects_drop found, parts_of_token plain.1 found read]
      exact (congrArg (· >>= _) (Language.apply_leaf language first _)).trans
        (ih plain.2 (action datum))
  | @node index production others first middle last children siblings listed _ inner rest innerIh
      restIh =>
      obtain ⟨reduction, entry, rfl⟩ := Language.production_of_reduction listed
      rw [List.all_cons, Bool.and_eq_true] at plain
      have here : (language.evaluate ⟨leavesOf lexemes, stop⟩ reduction.lhs
          (.node index first middle children) >>=
            fun _ => templateEffects ((leavesOf lexemes).drop middle)) =
          templateEffects ((leavesOf lexemes).drop first) := by
        rw [Language.evaluate_node entry]
        exact effects_action (natural_of_mem reduction (List.mem_of_getElem? entry)) inner innerIh _
      refine (congrArg (· >>= _) (Language.apply_node language _)).trans ?_
      rw [bind_assoc]
      refine Eq.trans (congrArg _ (funext fun value => ?_)) here
      exact restIh plain.2 (action value)

/-- Evaluating a derivation has each template among the tokens once, in order. -/
theorem effects_evaluate (stop : Nat) {name : Nonterminal} {tree : Derivation}
    (derivation : language.grammar.IsDerivation (leavesOf lexemes) name 0
      (leavesOf lexemes).length tree) :
    Traced.effects (language.evaluate ⟨leavesOf lexemes, stop⟩ name tree : Traced name.Value) =
      templateEffects (leavesOf lexemes) := by
  cases derivation with
  | node listed admitted inner rest =>
      cases rest
      obtain ⟨reduction, entry, rfl⟩ := Language.production_of_reduction listed
      have natural := natural_of_mem reduction (List.mem_of_getElem? entry)
      have evaluated := @effects_action _ stop _ natural _ _ _ inner
        (fun plain _ action => effects_apply inner plain action)
        (language.spanBetween ⟨leavesOf lexemes, stop⟩ 0 (leavesOf lexemes).length)
      rw [List.drop_length, List.drop_zero] at evaluated
      rw [Language.evaluate_node entry, ← evaluated]
      exact map_eq_pure_bind _ _

end Evaluation

section Tokens

/-- What a computation that is concluded with does comes behind the run of the engine. -/
theorem effects_parseLeaves_eq (start : StartSymbol) (lexemes : List Lexeme) (stop : Nat)
    (atEnd : Option Nat) :
    (parseLeaves start (leavesOf lexemes) stop atEnd).effects =
      runEngine start (leavesOf (significant lexemes)) atEnd >>= fun _ =>
        templateEffects (leavesOf (significant lexemes)) := by
  rw [parseLeaves_eq, significantLeaves_leavesOf]
  rcases language.judged erasesFreely_language isRanked_language start.nonterminal
      ⟨leavesOf (significant lexemes), stop⟩ with
    ⟨reason, surveyed, rejected, _⟩ | ⟨tally, tree, surveyed, _, _, _, derivation, derived⟩
  · rw [rejected, runEngine, surveyed]
    rfl
  · rw [derived, runEngine, surveyed, ← effects_evaluate stop derivation]
    exact (congrArg Traced.effects (conclude_derived start _ atEnd _ _)).trans
      (Traced.effects_bind _ _)

/-- There are no templates among trivia. -/
theorem templateEffects_significant (lexemes : List Lexeme) :
    templateEffects (leavesOf (significant lexemes)) = templateEffects (leavesOf lexemes) := by
  induction lexemes with
  | nil => rfl
  | cons lexeme others ih =>
      obtain ⟨token, start, stop⟩ := lexeme
      rw [leavesOf]
      cases token <;> first
        | exact ih.trans (pure_bind () fun _ => templateEffects (leavesOf others)).symm
        | exact congrArg (fun rest => (Leaf.ofLexeme _).parts.effects >>= fun _ => rest) ih

theorem effects_partValues_cons (part : TemplatePart) (others : List TemplatePart) :
    (partValues (part :: others)).effects =
      (partValue part).effects >>= fun _ => (partValues others).effects := by
  have rest (value : Expr) :
      Traced.effects (partValues others >>= fun values => pure (value :: values)) =
        (partValues others).effects :=
    (Traced.effects_bind _ _).trans (map_eq_pure_bind _ _).symm
  rw [partValues, Traced.effects_bind, ← Traced.bind_of_effects]
  exact congrArg _ (funext rest)

mutual

/-- Having the parts of a template amounts to the runs for its interpolations. -/
theorem effects_templateParts :
    (token : Token) → (templateParts token).effects = runs token.interpolations
  | .chevron parts => effects_partValues parts
  | .whitespace | .lineComment | .blockComment | .number _ | .string _ | .regexp _ _ | .symbol _
  | .domainName _ _ | .punct _ => rfl

theorem effects_partValues :
    (parts : List TemplatePart) → (partValues parts).effects = runs (partsInterpolations parts)
  | [] => rfl
  | .text value start stop :: others => by
      rw [effects_partValues_cons, effects_partValues others]
      exact pure_bind _ _
  | .interpolation tokens start close :: others => by
      rw [effects_partValues_cons, effects_partValues others, partValue, effects_parseLeaves_eq,
        templateEffects_significant, templateEffects_eq tokens, partsInterpolations,
        ← List.cons_append, runs_append]
      rfl

theorem templateEffects_eq :
    (lexemes : List Lexeme) → templateEffects (leavesOf lexemes) = runs (interpolationsIn lexemes)
  | [] => rfl
  | ⟨token, start, stop⟩ :: others => by
      rw [interpolationsIn, runs_append, ← effects_templateParts token,
        ← templateEffects_eq others]
      rfl

end

/-- What parsing some tokens does is a run of the engine over them, and then the runs for their
interpolations. -/
theorem effects_parseLeaves (start : StartSymbol) (lexemes : List Lexeme) (stop : Nat)
    (atEnd : Option Nat) :
    (parseLeaves start (leavesOf lexemes) stop atEnd).effects =
      runEngine start (leavesOf (significant lexemes)) atEnd >>= fun _ =>
        runs (interpolationsIn lexemes) := by
  rw [effects_parseLeaves_eq, templateEffects_significant, templateEffects_eq]

end Tokens

section Outcomes

/-- The significant tokens have exactly one derivation. -/
def OneDerivation (start : StartSymbol) (lexemes : List Lexeme) : Prop :=
  ∃! tree, language.grammar.IsDerivation (leavesOf (significant lexemes)) start.nonterminal 0
    (leavesOf (significant lexemes)).length tree

/-- The trace of a run over tokens that have exactly one derivation. -/
def passingTrace (start : StartSymbol) (lexemes : List Lexeme) : List TraceEvent :=
  [.accepted (significant lexemes).length, .counted 1 start.label]

/-- A run passes when its tokens have exactly one derivation, and fails otherwise; what it
leaves in the trace does not depend on what was there before. -/
theorem runEngine_cases (start : StartSymbol) (lexemes : List Lexeme) (atEnd : Option Nat) :
    (OneDerivation start lexemes ∧ ∀ trace,
      (runEngine start (leavesOf (significant lexemes)) atEnd).outcomeFrom trace =
        (.ok (), trace ++ passingTrace start lexemes)) ∨
    (¬OneDerivation start lexemes ∧ ∃ error events, ∀ trace,
      (runEngine start (leavesOf (significant lexemes)) atEnd).outcomeFrom trace =
        (.error error, trace ++ events)) := by
  rw [runEngine]
  rcases language.judged erasesFreely_language isRanked_language start.nonterminal
      ⟨leavesOf (significant lexemes), 0⟩ with
    ⟨reason, surveyed, _, none_⟩ | ⟨tally, tree, surveyed, counts, some_, sample, derivation, _⟩
  · rw [surveyed]
    refine .inr ⟨fun single => none_ single.exists,
      reason.toError (leavesOf (significant lexemes)) atEnd, [], fun trace => ?_⟩
    rw [List.append_nil]
    rfl
  · rw [surveyed]
    simp only
    rcases Nat.lt_or_eq_of_le (Nat.one_le_iff_ne_zero.mpr some_) with several | one
    · refine .inr ⟨fun single => ?_, _, _,
        outcomeFrom_reportCount_several start _ (Tally.one_lt_reported several)⟩
      obtain ⟨tree', _, unique⟩ := single
      exact Nat.not_le_of_lt several (Grammar.count_le_one counts
        fun one derivation other derivation' =>
          (unique one derivation).trans (unique other derivation').symm)
    · rw [Tally.reported_eq_one_iff.mpr one.symm, passingTrace, ← length_leavesOf]
      exact .inl ⟨⟨tree, derivation, fun _ => Grammar.eq_of_count_eq_one counts one.symm sample⟩,
        outcomeFrom_reportCount_one start _⟩

theorem outcomeFrom_runs_passing {interpolations : List Interpolation}
    (passing : ∀ interpolation ∈ interpolations, OneDerivation .expression interpolation.tokens)
    (trace : List TraceEvent) :
    (runs interpolations).outcomeFrom trace = (.ok (), trace ++ interpolations.flatMap
      fun interpolation => passingTrace .expression interpolation.tokens) := by
  induction interpolations generalizing trace with
  | nil =>
      rw [List.flatMap_nil, List.append_nil]
      rfl
  | cons first others ih =>
      rw [List.forall_mem_cons] at passing
      rcases runEngine_cases .expression first.tokens (some first.close) with
        ⟨_, passes⟩ | ⟨fails, _⟩
      · have here : first.run.outcomeFrom trace =
            (.ok (), trace ++ passingTrace .expression first.tokens) := passes trace
        show (first.run >>= fun _ => runs others).outcomeFrom trace = _
        rw [Traced.outcomeFrom_bind, here]
        simp only
        rw [ih passing.2, List.flatMap_cons, List.append_assoc]
      · exact absurd passing.1 fails

/-- The events up to where the value of a source begins that has exactly one derivation. -/
def outerTrace (source : String) (options : ParseOptions) (lexemes : List Lexeme) :
    List TraceEvent :=
  [.parsing (Text.byteLength source.toList) options.filename, .tokenized lexemes.length] ++
    passingTrace .main lexemes

variable {source : String} {options : ParseOptions} {lexemes : List Lexeme}

theorem parseTraced_eq (source : String) (options : ParseOptions) :
    parseTraced source options =
      let ended := (parseSource .main source).outcomeFrom
        [.parsing (Text.byteLength source.toList) options.filename]
      (ended.1.mapError (ParseError.locate source options.filename), ended.2) :=
  rfl

theorem effects_parseSource (read : Token.tokenize source = .ok lexemes) :
    (parseSource .main source).effects = (do
      Traced.log (.tokenized lexemes.length)
      runEngine .main (leavesOf (significant lexemes)) none
      runs (interpolationsIn lexemes)) := by
  rw [parseSource, read, ← effects_parseLeaves .main lexemes (Text.byteLength source.toList)]
  exact Traced.effects_bind _ _

/-- If the outer run passes, the rest is up to the interpolations. -/
theorem outcomeFrom_effects_parseSource (read : Token.tokenize source = .ok lexemes)
    (single : OneDerivation .main lexemes) :
    (parseSource .main source).effects.outcomeFrom
        [.parsing (Text.byteLength source.toList) options.filename] =
      (runs (interpolationsIn lexemes)).outcomeFrom (outerTrace source options lexemes) := by
  rcases runEngine_cases .main lexemes none with ⟨_, passes⟩ | ⟨fails, _⟩
  · rw [effects_parseSource read, Traced.outcomeFrom_bind]
    show (runEngine .main (leavesOf (significant lexemes)) none >>= fun _ =>
      runs (interpolationsIn lexemes)).outcomeFrom _ = _
    rw [Traced.outcomeFrom_bind, passes]
    rfl
  · exact absurd single fails

/-- How the engine runs for a source: over the tokens of the source, and then once for every
interpolation. -/
structure EngineRuns (source : String) (options : ParseOptions) (lexemes : List Lexeme) :
    Prop where
  /-- Parsing does nothing besides the runs. -/
  sequence : (parseSource .main source).effects = (do
    Traced.log (.tokenized lexemes.length)
    runEngine .main (leavesOf (significant lexemes)) none
    runs (interpolationsIn lexemes))
  /-- The runs come in the order in which the interpolations open. -/
  sorted : (interpolationsIn lexemes).Pairwise fun one other => one.start < other.start
  /-- The runs for what is inside of an interpolation come right behind its own. -/
  nested : ∀ interpolation ∈ interpolationsIn lexemes,
    Leads interpolation (interpolationsIn lexemes)
  /-- If all runs pass, there is a value. -/
  passing : (∀ interpolation ∈ interpolationsIn lexemes,
      OneDerivation .expression interpolation.tokens) →
    ∃ program, parseTraced source options = (.ok program, outerTrace source options lexemes ++
      (interpolationsIn lexemes).flatMap
        fun interpolation => passingTrace .expression interpolation.tokens)
  /-- Otherwise the first run that fails is the last one, and its error is that of the source. -/
  failing : ∀ passed failing rest, interpolationsIn lexemes = passed ++ failing :: rest →
    (∀ interpolation ∈ passed, OneDerivation .expression interpolation.tokens) →
      ¬OneDerivation .expression failing.tokens →
        ∃ error events, failing.run.outcome = (.error error, events) ∧
          parseTraced source options = (.error (error.locate source options.filename),
            outerTrace source options lexemes ++ passed.flatMap (fun interpolation =>
              passingTrace .expression interpolation.tokens) ++ events)

/-- Each interpolation is parsed once, in source order, and the first bad one decides. -/
theorem parse_runs (read : Token.tokenize source = .ok lexemes)
    (single : OneDerivation .main lexemes) (options : ParseOptions) :
    EngineRuns source options lexemes where
  sequence := effects_parseSource read
  sorted := interpolations_sorted read
  nested := leads_interpolationsIn lexemes
  passing passing := by
    have effects := @outcomeFrom_effects_parseSource _ options _ read single
    rw [outcomeFrom_runs_passing passing, Traced.outcomeFrom_effects] at effects
    rw [parseTraced_eq]
    generalize (parseSource .main source).outcomeFrom _ = ended at effects ⊢
    obtain ⟨outcome, trace⟩ := ended
    cases outcome with
    | error error => cases effects
    | ok program =>
        cases effects
        exact ⟨program, rfl⟩
  failing passed failing rest split passing fails := by
    rcases runEngine_cases .expression failing.tokens (some failing.close) with
      ⟨single, _⟩ | ⟨_, error, events, failed⟩
    · exact absurd single fails
    · have alone : ∀ trace, failing.run.outcomeFrom trace = (.error error, trace ++ events) :=
        failed
      refine ⟨error, events, alone [], ?_⟩
      have effects := @outcomeFrom_effects_parseSource _ options _ read single
      rw [split, runs_append, Traced.outcomeFrom_bind, outcomeFrom_runs_passing passing,
        Traced.outcomeFrom_effects] at effects
      have last : (runs (failing :: rest)).outcomeFrom (outerTrace source options lexemes ++
          passed.flatMap fun interpolation => passingTrace .expression interpolation.tokens) =
            (.error error, outerTrace source options lexemes ++ passed.flatMap (fun interpolation =>
              passingTrace .expression interpolation.tokens) ++ events) := by
        show (failing.run >>= fun _ => runs rest).outcomeFrom _ = _
        rw [Traced.outcomeFrom_bind, alone]
      simp only [last] at effects
      rw [parseTraced_eq]
      generalize (parseSource .main source).outcomeFrom _ = ended at effects ⊢
      obtain ⟨outcome, trace⟩ := ended
      cases outcome with
      | ok program => cases effects
      | error error =>
          cases effects
          rfl

theorem oneDerivation_of_onlyDerivation? {numbers : List Nat} {tree : Derivation}
    (told : onlyDerivation? (leavesOf (significant lexemes)) numbers = some tree) :
    OneDerivation .main lexemes := by
  obtain ⟨single, derivation⟩ := onlyDerivation?_spec told
  exact ⟨tree, derivation, fun other derivation' => single derivation' derivation⟩

/-- The third interpolation of the outer template has no derivation. The two before it and the
one inside of the second leave a trace, and the one behind it does not. -/
theorem parse_runs_nested :
    ∃ lexemes,
      Token.tokenize "<<#\x7ba\x7d#\x7b<<#\x7bb\x7d>>\x7d#\x7b+\x7d#\x7bc\x7d>>" = .ok lexemes ∧
      OneDerivation .main lexemes ∧
      EngineRuns "<<#\x7ba\x7d#\x7b<<#\x7bb\x7d>>\x7d#\x7b+\x7d#\x7bc\x7d>>" .none lexemes ∧
      (parseTraced "<<#\x7ba\x7d#\x7b<<#\x7bb\x7d>>\x7d#\x7b+\x7d#\x7bc\x7d>>" .none).2 =
        [.parsing 27 none, .tokenized 1, .accepted 1, .counted 1 "Main",
          .accepted 1, .counted 1 "Expression", .accepted 1, .counted 1 "Expression",
          .accepted 1, .counted 1 "Expression"] := by
  have only : ((Token.tokenize
      "<<#\x7ba\x7d#\x7b<<#\x7bb\x7d>>\x7d#\x7b+\x7d#\x7bc\x7d>>").toOption.map fun lexemes =>
        (onlyDerivation? (leavesOf (significant lexemes))
          [1, 277, 279, 281, 204, 207, 209, 220, 223, 227, 231, 232, 242]).isSome) = some true := by
    decide +kernel
  obtain ⟨lexemes, read, told⟩ := exists_ok_of_toOption_map only
  obtain ⟨tree, told⟩ := Option.isSome_iff_exists.mp told
  have single := oneDerivation_of_onlyDerivation? told
  exact ⟨lexemes, read, single, parse_runs read single .none, by decide +kernel⟩

end Outcomes

end Krl
