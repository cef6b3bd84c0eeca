import KafkaWire.Lib.Bytes

/-! Unsigned integers in groups of seven bits, the lowest group first. -/

namespace Varint

inductive Leb128 : Bytes → Nat → Prop
  | last (byte : UInt8) (small : byte.toNat < 128) : Leb128 [byte] byte.toNat
  | more (byte : UInt8) {rest : Bytes} {value : Nat} (large : 128 ≤ byte.toNat)
      (tail : Leb128 rest value) : Leb128 (byte :: rest) (byte.toNat - 128 + 128 * value)

structure IsVarint (bytes : Bytes) (value : Nat) : Prop where
  digits : Leb128 bytes value
  short : bytes.length ≤ 10
  fits : value < 2 ^ 64

variable {bytes : Bytes} {value : Nat}

theorem Leb128.length_pos (digits : Leb128 bytes value) : 0 < bytes.length := by
  cases digits <;> simp

theorem Leb128.lt_pow (digits : Leb128 bytes value) : value < 128 ^ bytes.length := by
  induction digits with
  | last byte small => simpa using small
  | more byte large tail ih =>
    have bounded := byte.toNat_lt
    rw [List.length_cons, Nat.pow_succ]
    omega

theorem Leb128.front_cons {byte : UInt8} {rest : Bytes} (digits : Leb128 bytes value)
    (front : bytes <+: byte :: rest) :
    (byte.toNat < 128 ∧ bytes = [byte] ∧ value = byte.toNat) ∨
      (128 ≤ byte.toNat ∧ ∃ tail low, bytes = byte :: tail ∧ tail <+: rest ∧ Leb128 tail low ∧
        value = byte.toNat - 128 + 128 * low) := by
  cases digits with
  | last first small =>
    obtain ⟨rfl, -⟩ := List.cons_prefix_cons.mp front
    exact .inl ⟨small, rfl, rfl⟩
  | more first large tail =>
    obtain ⟨rfl, inside⟩ := List.cons_prefix_cons.mp front
    exact .inr ⟨large, _, _, rfl, inside, tail, rfl⟩

end Varint
