import Krl.Proofs.Language.Frames
import Krl.Proofs.Parse.Slices
import Krl.Proofs.Token.Boundaries

/-!
# Nodes lie in the tokens they are made of

Productions make nodes of the nodes in their parts, and the parts follow the tokens. So the nodes
in a phrase lie between the first of its tokens and the last, and those in one part of a
production before those in the next.
-/

namespace Krl

/-- The span begins where one of the tokens begins, and ends where one ends. -/
def Span.AlignedIn (tokens : List Lexeme) (span : Span) : Prop :=
  (∃ lexeme ∈ tokens, lexeme.start = span.start) ∧ ∃ lexeme ∈ tokens, lexeme.stop = span.stop

/-- The span begins where a significant token begins and ends where one ends, both in the source
or both in one interpolation. -/
def Span.Aligned (lexemes : List Lexeme) (span : Span) : Prop :=
  ∃ tokens ∈ tokenStreams lexemes, span.AlignedIn tokens

/-- The span is one of bytes of the source, and cuts no character. -/
structure Span.OnText (source : String) (span : Span) : Prop where
  ordered : span.start ≤ span.stop
  bounded : span.stop ≤ Text.byteLength source.toList
  starts : IsBoundary source span.start
  stops : IsBoundary source span.stop

namespace Frame

/-- The span of a node is that of whole tokens, unless it is a text in a template or an empty
list of parameters. -/
def Covers (lexemes : List Lexeme) (frame : Frame) : Prop :=
  match frame.kind with
  | .phrase => frame.span.Aligned lexemes
  | .text => frame.span.Aligned lexemes ∨ ∃ text ∈ lexemesTexts lexemes, text.span = frame.span
  | .void => True

/-- The span of a node is as it should be in a source with some tokens. -/
structure Sound (source : String) (lexemes : List Lexeme) (frame : Frame) : Prop where
  onText : frame.span.OnText source
  covers : frame.Covers lexemes
  nests : frame.Nests

/-- A node in what some of the tokens are parsed to is sound, and so is every node inside. -/
structure Placed (source : String) (lexemes tokens : List Lexeme) (frame : Frame) : Prop where
  throughout : frame.Throughout (Sound source lexemes)
  aligned : frame.kind = .phrase → frame.span.AlignedIn tokens

/-- Nodes lie between two offsets, one behind another, and are sound. -/
structure Laid (source : String) (lexemes tokens : List Lexeme) (low high : Nat)
    (frames : List Frame) : Prop where
  inOrder : InOrder low high frames
  placed : ∀ frame ∈ frames, Placed source lexemes tokens frame

namespace Laid

variable {source : String} {lexemes tokens : List Lexeme} {low high low' high' : Nat}
  {frames others : List Frame} {frame : Frame}

theorem nil : Laid source lexemes tokens low high [] :=
  ⟨.nil, List.forall_mem_nil _⟩

theorem singleton (placed : Placed source lexemes tokens frame) (starts : low ≤ frame.span.start)
    (stops : frame.span.stop ≤ high) : Laid source lexemes tokens low high [frame] :=
  ⟨.singleton starts stops, List.forall_mem_singleton.mpr placed⟩

theorem weaken (laid : Laid source lexemes tokens low high frames) (below : low' ≤ low)
    (above : high ≤ high') : Laid source lexemes tokens low' high' frames :=
  ⟨laid.inOrder.weaken below above, laid.placed⟩

theorem sublist (laid : Laid source lexemes tokens low high frames)
    (sublist : others.Sublist frames) : Laid source lexemes tokens low high others :=
  ⟨laid.inOrder.sublist sublist, fun frame member => laid.placed frame (sublist.subset member)⟩

theorem append {middle middle' : Nat} (first : Laid source lexemes tokens low middle frames)
    (second : Laid source lexemes tokens middle' high others) (meet : middle ≤ middle')
    (below : low ≤ middle') (above : middle ≤ high) :
    Laid source lexemes tokens low high (frames ++ others) :=
  ⟨first.inOrder.append second.inOrder meet below above,
    List.forall_mem_append.mpr ⟨first.placed, second.placed⟩⟩

end Laid

end Frame

section Nodes

variable {source : String} {lexemes tokens : List Lexeme}

open Krl.Frame

theorem onText_of_boundaries {span : Span} (ordered : span.start ≤ span.stop)
    (starts : IsBoundary source span.start) (stops : IsBoundary source span.stop) :
    span.OnText source :=
  ⟨ordered, stops.le, starts, stops⟩

theorem covers_of_aligned {frame : Frame} (aligned : frame.span.Aligned lexemes) :
    frame.Covers lexemes := by
  obtain ⟨kind, span, parts⟩ := frame
  cases kind with
  | phrase => exact aligned
  | text => exact .inl aligned
  | void => trivial

/-- A node over whole tokens is sound if the nodes in its fields are. -/
theorem placed_made {kind : FrameKind} {span : Span} {parts : List (List Frame)}
    (stream : tokens ∈ tokenStreams lexemes) (onText : span.OnText source)
    (aligned : span.AlignedIn tokens)
    (fields : ∀ part ∈ parts, InOrder span.start span.stop part ∧
      ∀ inner ∈ part, inner.Throughout (Sound source lexemes)) :
    Placed source lexemes tokens ⟨kind, span, parts⟩ := by
  have covers : Covers lexemes ⟨kind, span, parts⟩ := covers_of_aligned ⟨tokens, stream, aligned⟩
  exact ⟨.intro ⟨onText, covers, fun part member => (fields part member).1⟩
    fun part member => (fields part member).2, fun _ => aligned⟩

/-- A part that reaches up to another one is sound, and so are its fields and the new one. -/
theorem placed_stretched {first last : Frame} {parts : List (List Frame)}
    (stream : tokens ∈ tokenStreams lexemes) (firstPlaced : Placed source lexemes tokens first)
    (lastPlaced : Placed source lexemes tokens last) (opens : first.kind = .phrase)
    (closes : last.kind = .phrase) (apart : first.Precedes last)
    (inside : ∀ part ∈ parts, part ∈ first.parts ∨ part = [last]) :
    Placed source lexemes tokens ⟨.phrase, ⟨first.span.start, last.span.stop⟩, parts⟩ := by
  have firstSound := firstPlaced.throughout.itself
  have lastSound := lastPlaced.throughout.itself
  have reaches : first.span.stop ≤ last.span.stop :=
    Nat.le_trans apart lastSound.onText.ordered
  have begins : first.span.start ≤ last.span.start :=
    Nat.le_trans firstSound.onText.ordered apart
  refine placed_made stream ?_ ?_ ?_
  · exact onText_of_boundaries (Nat.le_trans begins lastSound.onText.ordered)
      firstSound.onText.starts lastSound.onText.stops
  · exact ⟨(firstPlaced.aligned opens).1, (lastPlaced.aligned closes).2⟩
  · intro part member
    rcases inside part member with member | rfl
    · exact ⟨(firstSound.nests part member).weaken (Nat.le_refl _) reaches,
        firstPlaced.throughout.inside part member⟩
    · exact ⟨.singleton begins (Nat.le_refl _),
        List.forall_mem_singleton.mpr lastPlaced.throughout⟩

/-- Nodes that are drawn from others lie between the same offsets as these. -/
theorem Drawn.inOrder {frames part : List Frame} {low high : Nat} (drawn : Drawn frames part)
    (stream : tokens ∈ tokenStreams lexemes)
    (laid : Laid source lexemes tokens low high frames) :
    InOrder low high part ∧ ∀ frame ∈ part, frame.Throughout (Sound source lexemes) := by
  cases drawn with
  | taken sublist =>
      have taken := laid.sublist sublist
      exact ⟨taken.inOrder, fun frame member => (taken.placed frame member).throughout⟩
  | @inner whole _ member inside =>
      have within := laid.inOrder.inside whole member
      have throughout := (laid.placed whole member).throughout
      exact ⟨(throughout.itself.nests _ inside).weaken within.1 within.2,
        throughout.inside _ inside⟩
  | @stretched first last parts sublist opens closes inside =>
      -- The one part ends before the other begins, so merging their spans spans both.
      obtain ⟨⟨within, ordered⟩, placed⟩ := laid.sublist sublist
      simp only [List.forall_mem_cons] at within placed
      have apart : first.Precedes last :=
        List.rel_of_pairwise_cons ordered (List.mem_singleton.mpr rfl)
      have stretched :=
        placed_stretched stream placed.1 placed.2.1 opens closes apart inside
      have merged : first.span.merge last.span = ⟨first.span.start, last.span.stop⟩ := by
        have := placed.1.throughout.itself.onText.ordered
        have := placed.2.1.throughout.itself.onText.ordered
        rw [Precedes] at apart
        rw [Span.merge, Nat.min_eq_left (by omega), Nat.max_eq_right (by omega)]
      rw [merged]
      exact ⟨.singleton within.1.1 within.2.1.2,
        List.forall_mem_singleton.mpr stretched.throughout⟩

end Nodes

section Phrases

variable {source : String} {lexemes tokens : List Lexeme} {low high first last : Nat}

open Krl.Frame

/-- The edge up to which nodes reach that are made of the tokens before an index. An empty span
stands where the next token begins, all others end with a token. -/
def reach (index : Nat) (isOpen : Bool) : Nat :=
  if isOpen then 2 * index + 1 else 2 * index

theorem le_reach (index : Nat) (isOpen : Bool) : 2 * index ≤ reach index isOpen := by
  cases isOpen <;> simp [reach]

theorem reach_le (index : Nat) (isOpen : Bool) : reach index isOpen ≤ 2 * index + 1 := by
  cases isOpen <;> simp [reach]

theorem reach_mono {index index' : Nat} {isOpen isOpen' : Bool} (onward : index ≤ index')
    (opens : isOpen = true → isOpen' = true) : reach index isOpen ≤ reach index' isOpen' := by
  cases isOpen <;> cases isOpen' <;> simp [reach] at opens ⊢ <;> omega

/-- The nodes in a phrase lie in the tokens that it covers. -/
structure SpansIn (source : String) (lexemes tokens : List Lexeme) (low high : Nat)
    (name : Nonterminal) (first last : Nat) (value : name.Value) : Prop where
  onward : first ≤ last
  covers : name.isSolid = true → first < last
  laid : Laid source lexemes tokens (edge high low tokens (2 * first + 1))
    (edge high low tokens (reach last name.isOpen)) (name.frames value)

theorem SpansIn.between {name : Nonterminal} {value : name.Value}
    (spans : SpansIn source lexemes tokens low high name 0 tokens.length value)
    (orderly : LexemesOrderly low high tokens) :
    Laid source lexemes tokens low high (name.frames value) := by
  have monotone := orderly.monotone_edge
  have below := monotone (Nat.zero_le (2 * 0 + 1))
  rw [edge_zero] at below
  have above := monotone (reach_le tokens.length name.isOpen)
  rw [edge_of_length_le (Nat.lt_succ_self _)] at above
  exact spans.laid.weaken below above

/-- The nodes in what a token means lie in the token. -/
def Terminal.SpansIn (source : String) (lexemes tokens : List Lexeme) (start stop : Nat) :
    (terminal : Terminal) → terminal.Datum → Prop
  | .chevron, parts => ∀ value, Traced.Yields parts value →
      Laid source lexemes tokens start stop [value.frame]
  | terminal, datum => Laid source lexemes tokens start stop (terminal.frames datum)

theorem Terminal.SpansIn.laid {start stop : Nat} {terminal : Terminal} {datum : terminal.Datum}
    (spans : terminal.SpansIn source lexemes tokens start stop datum) :
    Laid source lexemes tokens start stop (terminal.frames datum) := by
  cases terminal with
  | chevron => exact .nil
  | _ => exact spans

/-- The places of phrases and tokens among some tokens. -/
def nesting (source : String) (lexemes tokens : List Lexeme) (low high : Nat) : Invariant where
  value := fun name first last value =>
    Krl.SpansIn source lexemes tokens low high name first last value
  datum := fun terminal index datum => terminal.SpansIn source lexemes tokens
    (edge high low tokens (2 * index + 1)) (edge high low tokens (2 * index + 2)) datum

/-- The nodes in the parts of a production that have been followed lie in their tokens. -/
structure Progress.Reaches (source : String) (lexemes tokens : List Lexeme)
    (low high first : Nat) (progress : Progress) (here : Nat) : Prop where
  onward : first ≤ here
  covers : progress.covers = true → first < here
  laid : Laid source lexemes tokens (edge high low tokens (2 * first + 1))
    (edge high low tokens (reach here progress.isOpen)) progress.frames

namespace Progress.Reaches

variable {here next : Nat} {progress : Progress}

theorem initial : Progress.initial.Reaches source lexemes tokens low high first first :=
  ⟨Nat.le_refl _, nofun, .nil⟩

theorem phrase (monotone : Monotone (edge high low tokens))
    (reaches : progress.Reaches source lexemes tokens low high first here) {name : Nonterminal}
    {value : name.Value}
    (spans : Krl.SpansIn source lexemes tokens low high name here next value) :
    (progress.phrase name value).Reaches source lexemes tokens low high first next where
  onward := Nat.le_trans reaches.onward spans.onward
  covers := by
    intro covers
    have := reaches.onward
    have := spans.onward
    rcases (Bool.or_eq_true _ _).mp covers with covers | solid
    · have := reaches.covers covers
      omega
    · have := spans.covers solid
      omega
  laid := by
    have second := spans.laid.weaken (Nat.le_refl _)
      (monotone (reach_mono (Nat.le_refl next)
        (fun opens => (Bool.or_eq_true progress.isOpen name.isOpen).mpr (.inr opens))))
    -- What comes before reaches no further than to where the phrase begins.
    refine reaches.laid.append second (monotone (reach_le _ _)) (monotone ?_) (monotone ?_)
    · have := reaches.onward
      omega
    · exact reach_mono spans.onward fun opens => (Bool.or_eq_true _ _).mpr (.inl opens)

theorem token (monotone : Monotone (edge high low tokens))
    (reaches : progress.Reaches source lexemes tokens low high first here) {terminal : Terminal}
    {datum : terminal.Datum}
    (spans : terminal.SpansIn source lexemes tokens (edge high low tokens (2 * here + 1))
      (edge high low tokens (2 * here + 2)) datum) :
    (progress.token terminal datum).Reaches source lexemes tokens low high first (here + 1) where
  onward := Nat.le_succ_of_le reaches.onward
  covers := fun _ => Nat.lt_succ_of_le reaches.onward
  laid := by
    have reach_le := reach_le here progress.isOpen
    refine reaches.laid.append spans.laid (monotone reach_le) (monotone ?_) (monotone ?_)
    · have := reaches.onward
      omega
    · exact Nat.le_succ_of_le reach_le

end Progress.Reaches

theorem Settled.isBoundary_edge (settled : Settled source low high tokens) (index : Nat) :
    IsBoundary source (edge high low tokens (2 * index + 1)) := by
  cases found : tokens[index]? with
  | none =>
      have beyond := List.getElem?_eq_none_iff.mp found
      rw [edge_of_length_le (by omega)]
      exact settled.closes
  | some lexeme =>
      rw [(edge_of_getElem? found).1]
      exact (settled.boundaries lexeme (List.mem_of_getElem? found)).1

/-- The span of a phrase without tokens is empty, where the next token begins. -/
theorem spanBetween_self : language.spanBetween ⟨leavesOf tokens, high⟩ first first =
    .emptyAt (edge high low tokens (2 * first + 1)) := by
  rw [Language.spanBetween, leavesOf_eq_map, List.getElem?_map]
  cases found : tokens[first]? with
  | none =>
      have beyond := List.getElem?_eq_none_iff.mp found
      rw [edge_of_length_le (by omega), Option.map_none]
  | some lexeme =>
      rw [(edge_of_getElem? found).1, Option.map_some]
      simp [language, Lexeme.span]

/-- The span of a phrase with tokens begins with the first of them and ends with the last. -/
theorem Settled.spanBetween_of_lt (settled : Settled source low high tokens)
    (covers : first < last) (bound : last ≤ tokens.length) :
    ∃ span, language.spanBetween ⟨leavesOf tokens, high⟩ first last = span ∧
      span.OnText source ∧ span.AlignedIn tokens ∧
        span.start = edge high low tokens (2 * first + 1) ∧
          span.stop = edge high low tokens (2 * last) := by
  have opens : first < tokens.length := by omega
  have closes : last - 1 < tokens.length := by omega
  have starts : edge high low tokens (2 * first + 1) = tokens[first].start :=
    (edge_of_getElem? (List.getElem?_eq_getElem opens)).1
  have stops : edge high low tokens (2 * (last - 1) + 2) = tokens[last - 1].stop :=
    (edge_of_getElem? (List.getElem?_eq_getElem closes)).2
  rw [show 2 * (last - 1) + 2 = 2 * last by omega] at stops
  have increases : edge high low tokens (2 * first + 1) ≤ edge high low tokens (2 * last) :=
    settled.orderly.monotone_edge (by omega)
  have opening : tokens[first] ∈ tokens := List.getElem_mem opens
  have closing : tokens[last - 1] ∈ tokens := List.getElem_mem closes
  refine ⟨⟨tokens[first].start, tokens[last - 1].stop⟩, spanBetween_leavesOf covers bound, ?_, ?_,
    starts.symm, stops.symm⟩
  · exact onText_of_boundaries (starts ▸ stops ▸ increases) (settled.boundaries _ opening).1
      (settled.boundaries _ closing).2
  · exact ⟨⟨_, opening, rfl⟩, _, closing, rfl⟩

/-- The span of a phrase ends before the next token begins. -/
theorem Settled.spanBetween_of_le (settled : Settled source low high tokens)
    (onward : first ≤ last) (bound : first < last → last ≤ tokens.length) :
    ∃ span, language.spanBetween ⟨leavesOf tokens, high⟩ first last = span ∧
      span.OnText source ∧ edge high low tokens (2 * first + 1) ≤ span.start ∧
        span.stop ≤ edge high low tokens (2 * last + 1) := by
  rcases Nat.lt_or_eq_of_le onward with covers | rfl
  · obtain ⟨span, same, onText, _, starts, stops⟩ := settled.spanBetween_of_lt covers (bound covers)
    refine ⟨span, same, onText, Nat.le_of_eq starts.symm, ?_⟩
    rw [stops]
    exact settled.orderly.monotone_edge (by omega)
  · have boundary := settled.isBoundary_edge first
    exact ⟨_, spanBetween_self, onText_of_boundaries (Nat.le_refl _) boundary boundary,
      Nat.le_refl _, Nat.le_refl _⟩

/-- What is made of the nodes in the parts of a production lies in the tokens of these. -/
theorem Arranged.laid {name : Nonterminal} {progress : Progress} {frames : List Frame}
    (arranged : Arranged name (language.spanBetween ⟨leavesOf tokens, high⟩ first last) progress
      frames)
    (stream : tokens ∈ tokenStreams lexemes) (settled : Settled source low high tokens)
    (reaches : progress.Reaches source lexemes tokens low high first last)
    (closed : progress.isOpen = false) (bound : first < last → last ≤ tokens.length) :
    Laid source lexemes tokens (edge high low tokens (2 * first + 1))
      (edge high low tokens (reach last name.isOpen)) frames := by
  have inside := reaches.laid
  rw [closed] at inside
  have above : edge high low tokens (reach last false) ≤
      edge high low tokens (reach last name.isOpen) :=
    settled.orderly.monotone_edge (reach_mono (Nat.le_refl _) nofun)
  cases arranged with
  | passed sublist => exact (inside.sublist sublist).weaken (Nat.le_refl _) above
  | made covers drawn =>
      have covers := reaches.covers covers
      obtain ⟨span, same, onText, aligned, starts, stops⟩ :=
        settled.spanBetween_of_lt covers (bound covers)
      rw [same]
      rw [← starts] at inside ⊢
      have inside := inside.weaken (Nat.le_refl _) (Nat.le_of_eq stops.symm)
      refine .singleton ?_ (Nat.le_refl _) (Nat.le_trans (Nat.le_of_eq stops) above)
      exact placed_made stream onText aligned fun part member =>
        (drawn part member).inOrder stream inside
  | @wrapped value member =>
      have within := inside.inOrder.inside _ member
      have placed := inside.placed _ member
      have sound := placed.throughout.itself
      have itself : InOrder value.span.start value.span.stop [value.frame] :=
        .singleton (Nat.le_of_eq (by rw [value.span_frame]))
          (Nat.le_of_eq (by rw [value.span_frame]))
      rw [value.span_frame] at within
      refine .singleton ?_ within.1 (Nat.le_trans within.2 above)
      refine placed_made stream (value.span_frame ▸ sound.onText)
        (value.span_frame ▸ placed.aligned value.kind_frame) ?_
      rw [List.forall_mem_singleton, List.forall_mem_singleton]
      exact ⟨itself, placed.throughout⟩
  | void isOpen =>
      obtain ⟨span, same, onText, starts, stops⟩ :=
        settled.spanBetween_of_le reaches.onward bound
      rw [same, isOpen]
      have sound : Sound source lexemes ⟨.void, span, [[]]⟩ :=
        ⟨onText, trivial, List.forall_mem_singleton.mpr .nil⟩
      refine .singleton ⟨.intro sound ?_, nofun⟩ starts stops
      exact List.forall_mem_singleton.mpr (List.forall_mem_nil _)

/-- What a production makes lies in the tokens that it covers, if its parts lie in theirs. -/
theorem spansIn_of_nests {entry : Productions.Entry} (nests : Productions.Nests entry)
    (stream : tokens ∈ tokenStreams lexemes) (settled : Settled source low high tokens)
    (bound : first < last → last ≤ tokens.length)
    {computation : Traced entry.lhs.Value} {value : entry.lhs.Value}
    (supplies : (nesting source lexemes tokens low high).Supplies entry.rhs first last
      (entry.action (language.spanBetween ⟨leavesOf tokens, high⟩ first last)) computation)
    (yields : Traced.Yields computation value) :
    (nesting source lexemes tokens low high).value entry.lhs first last value := by
  have monotone := settled.orderly.monotone_edge
  cases nests with
  | parts makes =>
      let reached : Progress → Nat → Prop :=
        Progress.Reaches source lexemes tokens low high first
      have phrases : ∀ name here next value before,
          (nesting source lexemes tokens low high).value name here next value →
            reached before here →
              ∃ after, Productions.nestsPhrase name value before after ∧ reached after next :=
        fun _ _ _ _ _ spans reaches => ⟨_, rfl, reaches.phrase monotone spans⟩
      have terminals : ∀ terminal here datum before,
          (nesting source lexemes tokens low high).datum terminal here datum →
            reached before here →
              ∃ after, Productions.nestsToken terminal datum before after ∧
                reached after (here + 1) :=
        fun _ _ _ _ spans reaches => ⟨_, rfl, reaches.token monotone spans⟩
      have begins : reached .initial first := .initial
      obtain ⟨progress, reaches, made⟩ := supplies.threads phrases terminals begins (makes _)
      have nested := made value yields
      exact ⟨reaches.onward, fun solid => reaches.covers (nested.covers solid),
        nested.arranged.laid stream settled reaches nested.closed bound⟩
  | @template lhs make same =>
      cases supplies with
      | terminal known rest =>
          cases rest
          obtain ⟨expr, yielded, rfl⟩ := yields.of_map
          have laid := known expr yielded
          rw [← same expr] at laid
          exact ⟨Nat.le_succ first, fun _ => Nat.lt_succ_self first,
            laid.weaken (Nat.le_refl _) (monotone (le_reach (first + 1) _))⟩

end Phrases

end Krl
