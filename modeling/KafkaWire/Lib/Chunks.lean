import Mathlib.Data.List.Basic
import Mathlib.Tactic

/-! A list cut into pieces of one size, the last of which may be shorter. -/

namespace Chunks

variable {α : Type*}

def chunk (data : List α) (size k : Nat) : List α := (data.drop (k * size)).take size

theorem chunk_length (data : List α) (size k : Nat) :
    (chunk data size k).length = min size (data.length - k * size) := by
  rw [chunk, List.length_take, List.length_drop]

theorem chunk_zero (data : List α) (size : Nat) : chunk data size 0 = data.take size := by
  rw [chunk, Nat.zero_mul, List.drop_zero]

theorem chunk_eq_nil_iff (data : List α) (size k : Nat) (positive : 0 < size) :
    chunk data size k = [] ↔ data.length ≤ k * size := by
  rw [← List.length_eq_zero_iff, chunk_length]
  omega

theorem flatten_chunks (data : List α) (size count : Nat) :
    ((List.range count).map (chunk data size)).flatten = data.take (count * size) := by
  induction count with
  | zero => simp
  | succ count ih =>
    rw [List.range_succ, List.map_append, List.flatten_append, ih, Nat.succ_mul,
      List.take_add]
    simp [chunk]

end Chunks
