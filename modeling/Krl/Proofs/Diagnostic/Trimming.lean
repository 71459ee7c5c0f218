import Krl.Text
import Mathlib.Data.List.TakeWhile

/-!
# Trimmed texts

Each trim cuts off the longest run of characters of a kind, which is to say that what it leaves
does not go on with another one.
-/

namespace Krl.Text

variable {drop : Char → Bool} {chars rest : List Char}

theorem dropWhile_eq_iff : chars.dropWhile drop = rest ↔
    ∃ front, chars = front ++ rest ∧ (∀ char ∈ front, drop char = true) ∧
      ∀ char ∈ rest.head?, drop char = false := by
  constructor
  · rintro rfl
    refine ⟨chars.takeWhile drop, List.takeWhile_append_dropWhile.symm,
      fun char => List.mem_takeWhile_imp, fun char member => ?_⟩
    have stops := List.head?_dropWhile_not drop chars
    rwa [member] at stops
  · rintro ⟨front, rfl, dropped, stops⟩
    rw [List.dropWhile_append_of_pos dropped]
    cases rest with
    | nil => rfl
    | cons char others => exact List.dropWhile_cons_of_neg (by rw [stops char rfl]; decide)

theorem dropEndWhile_eq_iff : dropEndWhile drop chars = rest ↔
    ∃ back, chars = rest ++ back ∧ (∀ char ∈ back, drop char = true) ∧
      ∀ char ∈ rest.getLast?, drop char = false := by
  rw [dropEndWhile, List.reverse_eq_iff, dropWhile_eq_iff, List.head?_reverse]
  constructor
  · rintro ⟨front, same, dropped, stops⟩
    refine ⟨front.reverse, ?_, fun char member => dropped char (List.mem_reverse.mp member), stops⟩
    rw [← List.reverse_inj, same, List.reverse_append, List.reverse_reverse]
  · rintro ⟨back, same, dropped, stops⟩
    refine ⟨back.reverse, ?_, fun char member => dropped char (List.mem_reverse.mp member), stops⟩
    rw [same, List.reverse_append]

theorem trimStart_eq_iff : trimStart chars = rest ↔
    ∃ front, chars = front ++ rest ∧ (∀ char ∈ front, isBlank char = true) ∧
      ∀ char ∈ rest.head?, isBlank char = false :=
  dropWhile_eq_iff

theorem trimEnd_eq_iff : trimEnd chars = rest ↔
    ∃ back, chars = rest ++ back ∧ (∀ char ∈ back, isBlank char = true) ∧
      ∀ char ∈ rest.getLast?, isBlank char = false :=
  dropEndWhile_eq_iff

/-- No blank stands at either end of the text. -/
structure Bare (chars : List Char) : Prop where
  head : ∀ char ∈ chars.head?, isBlank char = false
  last : ∀ char ∈ chars.getLast?, isBlank char = false

theorem trim_eq_iff : trim chars = rest ↔
    ∃ front back, chars = front ++ rest ++ back ∧ (∀ char ∈ front, isBlank char = true) ∧
      (∀ char ∈ back, isBlank char = true) ∧ Bare rest := by
  constructor
  · intro trimmed
    obtain ⟨front, same, blankFront, head⟩ := trimStart_eq_iff.mp (rfl : trimStart chars = _)
    obtain ⟨back, same', blankBack, last⟩ := trimEnd_eq_iff.mp trimmed
    rw [same'] at same head
    refine ⟨front, back, by rw [same, List.append_assoc], blankFront, blankBack, ⟨?_, last⟩⟩
    intro char member
    refine head char ?_
    rw [List.head?_append, member]
    rfl
  · rintro ⟨front, back, rfl, blankFront, blankBack, bare⟩
    rw [trim]
    cases rest with
    | nil =>
        have blank : trimStart (front ++ [] ++ back) = [] := by
          rw [List.append_nil]
          exact trimStart_eq_iff.mpr ⟨front ++ back, (List.append_nil _).symm,
            List.forall_mem_append.mpr ⟨blankFront, blankBack⟩, nofun⟩
        rw [blank]
        rfl
    | cons char others =>
        have start : trimStart (front ++ char :: others ++ back) = char :: others ++ back :=
          trimStart_eq_iff.mpr ⟨front, List.append_assoc _ _ _, blankFront, bare.head⟩
        rw [start]
        exact trimEnd_eq_iff.mpr ⟨back, rfl, blankBack, bare.last⟩

theorem bare_trim (chars : List Char) : Bare (trim chars) := by
  obtain ⟨_, _, _, _, _, bare⟩ := trim_eq_iff.mp (rfl : trim chars = _)
  exact bare

theorem trim_eq_self_iff : trim chars = chars ↔ Bare chars := by
  refine ⟨fun same => same ▸ bare_trim chars, fun bare => trim_eq_iff.mpr ⟨[], [], ?_⟩⟩
  exact ⟨by rw [List.nil_append, List.append_nil], nofun, nofun, bare⟩

theorem trim_sublist (chars : List Char) : List.Sublist (trim chars) chars := by
  obtain ⟨front, back, same, _⟩ := trim_eq_iff.mp (rfl : trim chars = _)
  have inside := (List.infix_append front (trim chars) back).sublist
  rwa [← same] at inside

theorem dropEndWhile_sublist (drop : Char → Bool) (chars : List Char) :
    List.Sublist (dropEndWhile drop chars) chars := by
  obtain ⟨back, same, _⟩ := dropEndWhile_eq_iff.mp (rfl : dropEndWhile drop chars = _)
  have inside := List.sublist_append_left (dropEndWhile drop chars) back
  rwa [← same] at inside

end Krl.Text
