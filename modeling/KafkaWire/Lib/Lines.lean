import Mathlib.Data.List.DropRight
import Mathlib.Data.List.TakeWhile
import Mathlib.Tactic

/-! Texts that are cut apart at a separator, and blanks around the pieces. -/

namespace Lines

variable {α : Type} [DecidableEq α]

theorem splitOn_piece (sep : α) (text : List α) :
    ∀ piece ∈ text.splitOn sep, sep ∉ piece ∧ piece ⊆ text := by
  induction size : text.length using Nat.strong_induction_on generalizing text with
  | _ size ih =>
    intro piece member
    by_cases cut : sep ∈ text
    · obtain ⟨front, back, rfl, -⟩ := List.eq_append_cons_of_mem cut
      rw [List.length_append, List.length_cons] at size
      rw [List.splitOn_append_cons_self] at member
      rcases List.mem_append.mp member with here | there
      · obtain ⟨clear, inside⟩ := ih front.length (by omega) front rfl piece here
        exact ⟨clear, fun c found => List.mem_append_left _ (inside found)⟩
      · obtain ⟨clear, inside⟩ := ih back.length (by omega) back rfl piece there
        exact ⟨clear, fun c found => List.mem_append_right _ (List.mem_cons_of_mem _ (inside found))⟩
    · rw [List.splitOn_eq_singleton cut, List.mem_singleton] at member
      subst member
      exact ⟨cut, fun c found => found⟩

def closed (sep : α) (text : List α) : Bool := text.getLast?.all (· = sep)

theorem mem_splitOn_append {sep : α} {front : List α} (whole : closed sep front = true)
    (back : List α) {piece : List α} (nonempty : piece ≠ []) :
    piece ∈ (front ++ back).splitOn sep ↔ piece ∈ front.splitOn sep ∨ piece ∈ back.splitOn sep := by
  rcases List.eq_nil_or_concat front with rfl | ⟨lines, last, rfl⟩
  · simp [nonempty]
  · obtain rfl : last = sep := by simpa [closed] using whole
    rw [List.concat_eq_append, List.append_assoc, List.singleton_append,
      List.splitOn_append_cons_self, List.splitOn_append_cons_self, List.mem_append, List.mem_append]
    simp [nonempty]

theorem closed_append {sep : α} {front back : List α} (whole : closed sep front = true)
    (whole' : closed sep back = true) : closed sep (front ++ back) = true := by
  cases back with
  | nil => rwa [List.append_nil]
  | cons c back => rwa [closed, List.getLast?_append_of_ne_nil _ (List.cons_ne_nil c back)]

section Blanks

omit [DecidableEq α]

variable (blank : α → Bool)

def trim (text : List α) : List α := (text.dropWhile blank).rdropWhile blank

theorem trim_eq_nil_iff (text : List α) : trim blank text = [] ↔ ∀ c ∈ text, blank c = true := by
  constructor
  · intro empty c member
    have rest := List.rdropWhile_eq_nil_iff.mp empty
    rw [← List.takeWhile_append_dropWhile (p := blank) (l := text)] at member
    rcases List.mem_append.mp member with front | back
    · exact List.mem_takeWhile_imp front
    · exact rest c back
  · intro blanks
    rw [trim, List.dropWhile_eq_nil_iff.mpr blanks, List.rdropWhile_nil]

theorem trim_subset (text : List α) : trim blank text ⊆ text := fun _ member =>
  (List.dropWhile_suffix blank).subset ((List.rdropWhile_prefix blank _).subset member)

theorem trim_trim (text : List α) : trim blank (trim blank text) = trim blank text := by
  obtain ⟨back, shape⟩ := List.rdropWhile_prefix blank (l := text.dropWhile blank)
  change trim blank text ++ back = _ at shape
  have front : (trim blank text).dropWhile blank = trim blank text := by
    cases core : trim blank text with
    | nil => rfl
    | cons c rest =>
      have filled : 0 < (text.dropWhile blank).length := by
        rw [← shape, core]
        simp
      have solid := List.dropWhile_get_zero_not blank text filled
      simp only [← shape, core, List.cons_append, List.get_eq_getElem, List.getElem_cons_zero] at solid
      exact List.dropWhile_cons_of_neg solid
  rw [trim, front, trim, List.rdropWhile_idempotent]

end Blanks

end Lines
