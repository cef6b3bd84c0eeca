import KafkaWire.Lib.Varint
import KafkaWire.Storage.Record

/-! The reader for unsigned varints in request headers. -/

namespace KafkaWire.Wire

open Storage Varint

def uvarintLoop (x s i : Nat) : Bytes → Except Err (Nat × Nat)
  | [] => .error (.text "truncated varint")
  | c :: rest =>
    if i = 9 ∧ c.toNat > 1 then .error (.text "varint overflows 64 bits")
    else if c.toNat < 0x80 then .ok (x ||| (c.toNat <<< s) % 2 ^ 64, i + 1)
    else uvarintLoop (x ||| ((c.toNat &&& 0x7f) <<< s) % 2 ^ 64) (s + 7) (i + 1) rest

def uvarint (b : Bytes) : Except Err (Nat × Nat) := uvarintLoop 0 0 0 b

section Reading

theorem or_group {x s c : Nat} (below : x < 2 ^ s) (fits : c * 2 ^ s < 2 ^ 64) :
    x ||| (c <<< s) % 2 ^ 64 = x + 2 ^ s * c := by
  rw [Nat.shiftLeft_eq, Nat.mod_eq_of_lt fits, Nat.or_comm, ← Nat.shiftLeft_eq,
    ← Nat.shiftLeft_add_eq_or_of_lt below, Nat.shiftLeft_eq]
  ring

theorem group_fits {i c : Nat} (early : i ≤ 9) (small : c < 128) (allowed : ¬ (i = 9 ∧ c > 1)) :
    2 ^ (7 * i) * (c + 1) ≤ 2 ^ 64 := by
  interval_cases i <;> omega

theorem low_bits (c : UInt8) (large : 128 ≤ c.toNat) : c.toNat &&& 0x7f = c.toNat - 128 := by
  have byte := c.toNat_lt
  have masked := Nat.and_two_pow_sub_one_eq_mod c.toNat 7
  norm_num at masked
  omega

theorem uvarintLoop_ok_iff (buf : Bytes) (x i value n : Nat) (below : x < 2 ^ (7 * i)) (early : i ≤ 9) :
    uvarintLoop x (7 * i) i buf = .ok (value, n) ↔
      ∃ bytes v, bytes <+: buf ∧ Leb128 bytes v ∧ i + bytes.length ≤ 10 ∧
        x + 2 ^ (7 * i) * v < 2 ^ 64 ∧ value = x + 2 ^ (7 * i) * v ∧ n = i + bytes.length := by
  induction buf generalizing x i with
  | nil =>
    constructor
    · intro impossible
      cases impossible
    · rintro ⟨bytes, v, front, digits, -⟩
      rw [List.prefix_nil.mp front] at digits
      cases digits
  | cons c rest ih =>
    have byte := c.toNat_lt
    rw [uvarintLoop]
    split
    · next overflow =>
        obtain ⟨rfl, large⟩ := overflow
        constructor
        · intro impossible
          cases impossible
        · rintro ⟨bytes, v, front, digits, short, fits, -⟩
          rcases digits.front_cons front with ⟨-, -, rfl⟩ | ⟨-, tail, low, rfl, -, tailDigits, -⟩
          · omega
          · have long := tailDigits.length_pos
            rw [List.length_cons] at short
            omega
    · next allowed =>
        split
        · next small =>
            have room := group_fits early small allowed
            rw [Nat.mul_succ] at room
            rw [or_group below (by rw [Nat.mul_comm]; omega)]
            constructor
            · intro same
              obtain ⟨rfl, rfl⟩ := Prod.mk.inj (Except.ok.inj same)
              exact ⟨[c], c.toNat, by simp, .last c small, by simp; omega, by omega, rfl, rfl⟩
            · rintro ⟨bytes, v, front, digits, -, -, rfl, rfl⟩
              rcases digits.front_cons front with ⟨-, rfl, rfl⟩ | ⟨large, -⟩
              · rfl
              · omega
        · next large =>
            have before : i ≤ 8 := by omega
            have room := group_fits (c := c.toNat - 128) (by omega : i ≤ 9) (by omega) (by omega)
            rw [Nat.mul_succ] at room
            have above : 2 ^ (7 * (i + 1)) = 2 ^ (7 * i) * 128 := by
              rw [Nat.mul_succ, Nat.pow_add]
            have below' : x + 2 ^ (7 * i) * (c.toNat - 128) < 2 ^ (7 * (i + 1)) := by
              have most := Nat.mul_le_mul_left (2 ^ (7 * i)) (show c.toNat - 128 ≤ 127 by omega)
              omega
            rw [low_bits c (by omega), or_group below (by rw [Nat.mul_comm]; omega),
              show 7 * i + 7 = 7 * (i + 1) from rfl, ih _ (i + 1) below' (by omega), above]
            constructor
            · rintro ⟨bytes, v, front, digits, short, fits, rfl, rfl⟩
              refine ⟨c :: bytes, c.toNat - 128 + 128 * v, List.cons_prefix_cons.mpr ⟨rfl, front⟩,
                .more c (by omega) digits, ?_, ?_, ?_, ?_⟩
              · rw [List.length_cons]
                omega
              · rw [Nat.mul_add, ← Nat.mul_assoc]
                omega
              · rw [Nat.mul_add, ← Nat.mul_assoc, Nat.add_assoc]
              · rw [List.length_cons]
                omega
            · rintro ⟨bytes, v, front, digits, short, fits, rfl, rfl⟩
              rcases digits.front_cons front with ⟨small, -⟩ | ⟨-, tail, low, rfl, inside, rest', rfl⟩
              · omega
              · rw [List.length_cons] at short ⊢
                rw [Nat.mul_add, ← Nat.mul_assoc, ← Nat.add_assoc] at fits ⊢
                exact ⟨tail, low, inside, rest', by omega, fits, rfl, by omega⟩

theorem uvarint_ok_iff (buf : Bytes) (value n : Nat) :
    uvarint buf = .ok (value, n) ↔ ∃ bytes, bytes <+: buf ∧ IsVarint bytes value ∧ n = bytes.length := by
  rw [uvarint, show uvarintLoop 0 0 0 buf = uvarintLoop 0 (7 * 0) 0 buf from rfl,
    uvarintLoop_ok_iff buf 0 0 value n (by decide) (by decide)]
  constructor
  · rintro ⟨bytes, v, front, digits, short, fits, rfl, rfl⟩
    simp only [Nat.mul_zero, Nat.pow_zero, Nat.one_mul, Nat.zero_add] at short fits ⊢
    exact ⟨bytes, front, ⟨digits, short, fits⟩, rfl⟩
  · rintro ⟨bytes, front, ⟨digits, short, fits⟩, rfl⟩
    refine ⟨bytes, value, front, digits, ?_⟩
    simpa using ⟨short, fits⟩

end Reading

end KafkaWire.Wire
