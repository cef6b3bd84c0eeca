import Mathlib.Data.List.Basic
import Mathlib.Tactic

/-! Big-endian integers inside byte strings. -/

abbrev Bytes := List UInt8

namespace Bytes

variable (buf : Bytes) (start : Nat) (value : Bytes)

def slice (buf : Bytes) (low high : Nat) : Bytes := (buf.take high).drop low

def uintBE (buf : Bytes) : Nat := buf.foldl (fun total byte => total * 256 + byte.toNat) 0

def putUintBE (width value : Nat) : Bytes :=
  match width with
  | 0 => []
  | width + 1 => putUintBE width (value / 256) ++ [UInt8.ofNat value]

def patch (buf : Bytes) (start : Nat) (value : Bytes) : Bytes :=
  buf.take start ++ value ++ buf.drop (start + value.length)

theorem uintBE_append (front : Bytes) (byte : UInt8) :
    uintBE (front ++ [byte]) = uintBE front * 256 + byte.toNat := by
  simp [uintBE]

theorem putUintBE_length (width value : Nat) : (putUintBE width value).length = width := by
  induction width generalizing value with
  | zero => rfl
  | succ width ih => simp [putUintBE, ih]

theorem uintBE_putUintBE (width value : Nat) :
    uintBE (putUintBE width value) = value % 256 ^ width := by
  induction width generalizing value with
  | zero =>
    have one : value % 1 = 0 := Nat.mod_one value
    simpa [putUintBE, uintBE] using one.symm
  | succ width ih =>
    have low : (UInt8.ofNat value).toNat = value % 256 := UInt8.toNat_ofNat'
    rw [putUintBE, uintBE_append, ih, low, Nat.pow_succ, Nat.mul_comm (256 ^ width) 256,
      Nat.mod_mul]
    omega

theorem patch_length
    (inside : start + value.length ≤ buf.length) : (patch buf start value).length = buf.length := by
  simp only [patch, List.length_append, List.length_take, List.length_drop]
  omega

theorem slice_patch (inside : start + value.length ≤ buf.length) :
    slice (patch buf start value) start (start + value.length) = value := by
  have front : (buf.take start).length = start := by
    rw [List.length_take]
    omega
  have cut : (patch buf start value).take (start + value.length) = buf.take start ++ value := by
    rw [patch, List.take_append_of_le_length (by simp [front]), List.take_of_length_le (by simp)]
  rw [slice, cut, List.drop_append_of_le_length (by omega), List.drop_of_length_le (by omega),
    List.nil_append]

theorem slice_patch_other (low high : Nat) (inside : start + value.length ≤ buf.length)
    (apart : high ≤ start ∨ start + value.length ≤ low) :
    slice (patch buf start value) low high = slice buf low high := by
  apply List.ext_getElem?
  intro i
  simp only [slice, patch, List.getElem?_drop, List.getElem?_take, List.getElem?_append,
    List.length_append, List.length_take]
  split
  · next before =>
      rcases apart with early | late
      · rw [if_pos (by omega), if_pos (by omega), if_pos (by omega)]
      · rw [if_neg (by omega)]
        congr 1
        omega
  · rfl

theorem drop_patch (from' : Nat)
    (inside : start + value.length ≤ buf.length) (after : start + value.length ≤ from') :
    (patch buf start value).drop from' = buf.drop from' := by
  apply List.ext_getElem?
  intro i
  simp only [patch, List.getElem?_drop, List.getElem?_append, List.length_append, List.length_take]
  rw [if_neg (by omega)]
  congr 1
  omega

theorem slice_take (limit low high : Nat) (inside : high ≤ limit) :
    slice (buf.take limit) low high = slice buf low high := by
  rw [slice, List.take_take, Nat.min_eq_left inside, slice]

end Bytes
