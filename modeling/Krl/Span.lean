import Krl.Text

/-!
# Spans

A span is a half-open range of byte offsets into a source. Every node of a
syntax tree carries the span of the text it was read from.
-/

namespace Krl

/-- The bytes from `start` up to, but not including, `stop`. -/
structure Span where
  start : Nat
  stop : Nat
  deriving DecidableEq, Repr

namespace Span

/-- The span of no bytes at an offset, for parts that matched no text. -/
def emptyAt (offset : Nat) : Span :=
  ⟨offset, offset⟩

instance : Inhabited Span := ⟨emptyAt 0⟩

/-- The least span that covers both. -/
def merge (left right : Span) : Span :=
  ⟨min left.start right.start, max left.stop right.stop⟩

/-- Number of bytes covered; a reversed span covers none. -/
def length (span : Span) : Nat :=
  span.stop - span.start

/-- Whether the span covers no byte. -/
def isEmpty (span : Span) : Bool :=
  span.length == 0

@[simp] theorem isEmpty_emptyAt (offset : Nat) : (emptyAt offset).isEmpty = true := by
  simp [isEmpty, length, emptyAt]

/-- The text under the span. There is none when the span is reversed, reaches
past the source, or cuts a character in two. -/
def slice? (source : String) (span : Span) : Option String := do
  if span.start ≤ span.stop then
    let rest ← Text.dropBytes? span.start source.toList
    let part ← Text.takeBytes? span.length rest
    return String.ofList part
  else
    none

end Span

end Krl
