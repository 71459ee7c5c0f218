/-!
# Lists of parts

Functions on trees that recur through lists of parts come with a companion for each kind of
list, so that the recursion is structural. What such a companion does is told by its two
equations: it is the function at every part.
-/

namespace Krl

variable {α β : Type} {items : List α}

theorem eq_map_of_cons {f : α → β} {listed : List α → List β} (nil : listed [] = [])
    (cons : ∀ item others, listed (item :: others) = f item :: listed others) (items : List α) :
    listed items = items.map f := by
  induction items with
  | nil => exact nil
  | cons item others ih => rw [cons, ih, List.map_cons]

theorem eq_flatMap_of_cons {f : α → List β} {listed : List α → List β} (nil : listed [] = [])
    (cons : ∀ item others, listed (item :: others) = f item ++ listed others) (items : List α) :
    listed items = items.flatMap f := by
  induction items with
  | nil => exact nil
  | cons item others ih => rw [cons, ih, List.flatMap_cons]

theorem iff_forall_mem_of_cons {holds : α → Prop} {all : List α → Prop} (nil : all [])
    (cons : ∀ item others, all (item :: others) ↔ holds item ∧ all others) :
    all items ↔ ∀ item ∈ items, holds item := by
  induction items with
  | nil => exact iff_of_true nil (List.forall_mem_nil _)
  | cons item others ih => rw [cons, ih, List.forall_mem_cons]

end Krl
