import Mathlib.Data.List.AList

/-! Finite maps from which several keys are removed. -/

namespace Tables

variable {α β : Type} [DecidableEq α]

def eraseAll (table : AList (fun _ : α => β)) (gone : List α) : AList (fun _ : α => β) :=
  gone.foldl (fun kept key => kept.erase key) table

theorem lookup_erase_eq (table : AList (fun _ : α => β)) (key other : α) :
    (table.erase key).lookup other = if other = key then none else table.lookup other := by
  split
  · next same => rw [same, AList.lookup_erase]
  · next different => rw [AList.lookup_erase_ne different]

theorem lookup_eraseAll (table : AList (fun _ : α => β)) (gone : List α) (key : α) :
    (eraseAll table gone).lookup key = if key ∈ gone then none else table.lookup key := by
  induction gone generalizing table with
  | nil => rfl
  | cons first gone ih =>
    rw [eraseAll, List.foldl_cons, ← eraseAll, ih, lookup_erase_eq]
    by_cases same : key = first <;> simp [same]

theorem lookup_insert_eq (table : AList (fun _ : α => β)) (key other : α) (value : β) :
    (table.insert key value).lookup other = if other = key then some value else table.lookup other := by
  split
  · next same => rw [same, AList.lookup_insert]
  · next different => rw [AList.lookup_insert_ne different]

theorem lookup_foldl_insert {γ : Type} (change : α → β → γ) (entries : List (Sigma fun _ : α => β))
    (start : AList (fun _ : α => γ)) (nodup : entries.NodupKeys) (key : α) :
    (entries.foldl (fun table entry => table.insert entry.1 (change entry.1 entry.2)) start).lookup
      key = ((entries.dlookup key).map (change key)).or (start.lookup key) := by
  induction entries generalizing start with
  | nil => rfl
  | cons entry entries ih =>
    rcases entry with ⟨first, value⟩
    rw [List.nodupKeys_cons] at nodup
    rw [List.foldl_cons, ih _ nodup.2, lookup_insert_eq]
    by_cases same : key = first
    · subst same
      rw [if_pos rfl, List.dlookup_cons_eq, List.dlookup_eq_none.mpr nodup.1]
      rfl
    · rw [if_neg same, List.dlookup_cons_ne _ _ same]

theorem lookup_map {γ : Type} (change : α → β → γ) (table : AList (fun _ : α => β)) (key : α) :
    (table.entries.foldl (fun file entry => file.insert entry.1 (change entry.1 entry.2))
      (∅ : AList (fun _ : α => γ))).lookup key = (table.lookup key).map (change key) := by
  rw [lookup_foldl_insert change table.entries ∅ table.nodupKeys key, AList.lookup_empty, Option.or_none]
  rfl

end Tables
