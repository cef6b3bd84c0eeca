import KafkaWire.Lib.Bytes

/-! Base64 with the standard alphabet, with and without padding. -/

namespace Base64

def pad : UInt8 := 61

def digit (n : Nat) : UInt8 :=
  if n < 26 then UInt8.ofNat (n + 65)
  else if n < 52 then UInt8.ofNat (n + 71)
  else if n < 62 then UInt8.ofNat (n - 4)
  else if n = 62 then 43
  else 47

def value (letter : UInt8) : Option Nat :=
  let n := letter.toNat
  if 65 ≤ n ∧ n ≤ 90 then some (n - 65)
  else if 97 ≤ n ∧ n ≤ 122 then some (n - 71)
  else if 48 ≤ n ∧ n ≤ 57 then some (n + 4)
  else if n = 43 then some 62
  else if n = 47 then some 63
  else none

def encode (padded : Bool) : Bytes → Bytes
  | [] => []
  | [a] => [digit (a.toNat / 4), digit (a.toNat % 4 * 16)] ++ if padded then [pad, pad] else []
  | [a, b] =>
    [digit (a.toNat / 4), digit (a.toNat % 4 * 16 + b.toNat / 16), digit (b.toNat % 16 * 4)] ++
      if padded then [pad] else []
  | a :: b :: c :: rest =>
    digit (a.toNat / 4) :: digit (a.toNat % 4 * 16 + b.toNat / 16) ::
      digit (b.toNat % 16 * 4 + c.toNat / 64) :: digit (c.toNat % 64) :: encode padded rest

def decodeGroups : Bytes → Option Bytes
  | [] => some []
  | a :: b :: c :: d :: rest =>
    match value a, value b with
    | some x, some y =>
      let first := UInt8.ofNat (x * 4 + y / 16)
      if c = pad then if d = pad ∧ rest = [] then some [first] else none
      else
        match value c with
        | none => none
        | some z =>
          let second := UInt8.ofNat (y % 16 * 16 + z / 4)
          if d = pad then if rest = [] then some [first, second] else none
          else
            match value d with
            | none => none
            | some w =>
              (decodeGroups rest).map fun more =>
                first :: second :: UInt8.ofNat (z % 4 * 64 + w) :: more
    | _, _ => none
  | _ => none

def decode (letters : Bytes) : Option Bytes :=
  decodeGroups (letters.filter fun letter => letter ≠ 10 ∧ letter ≠ 13)

end Base64
