import KafkaWire.Storage.Segment
import KafkaWire.Wire.Uvarint

/-! The tagged fields at the end of a request header. A size near the top of the range of 64 bits
makes the check against the end of the frame wrap, and the scan goes back. -/

namespace KafkaWire.Wire

open Storage Varint Programs

variable {i count : Nat} {field fields : Bytes}

/-- `b[off:]` -/
def sliceFrom (b : Bytes) (off : Int) : Except Fault Bytes :=
  if 0 ≤ off ∧ off ≤ b.length then .ok (b.drop off.toNat) else .error .panic

/-- `uvarint(b[off:])`, with the place where it is read in the error. -/
def uvarintFrom (b : Bytes) (off : Int) (context : String) : Except Fault (Nat × Nat) := do
  match uvarint (← sliceFrom b off) with
  | .ok result => .ok result
  | .error err => .error (.err (.wrap context err))

/-- The jump over the bytes of a field. The sum is of 64 bits, and so is the new offset. -/
def skipPayload (b : Bytes) (off : Int) (size : Nat) : Except Fault Int :=
  if (off % 2 ^ 64 + size) % 2 ^ 64 > (b.length : Int) then
    .error (.err (.text "tagged field runs past the end of the frame"))
  else .ok (int64 (off + int64 size))

def skipField (b : Bytes) (i : Nat) (off : Int) : Except Fault Int := do
  let (_, n) ← uvarintFrom b off s!"tagged field {i} tag"
  let off := int64 (off + n)
  let (size, n) ← uvarintFrom b off s!"tagged field {i} size"
  skipPayload b (int64 (off + n)) size

def skipLoop (b : Bytes) : Nat → Nat → Int → Except Fault Int
  | 0, _, off => .ok off
  | left + 1, i, off => do skipLoop b left (i + 1) (← skipField b i off)

def skipTaggedFields (b : Bytes) : Except Fault Int :=
  match uvarint b with
  | .error err => .error (.err (.wrap "tagged fields" err))
  | .ok (count, n) => skipLoop b count 0 n

def skipOffsets (b : Bytes) : Nat → Nat → Int → List Int
  | 0, _, off => [off]
  | left + 1, i, off =>
    off :: match skipField b i off with
      | .ok off' => skipOffsets b left (i + 1) off'
      | .error _ => []

def skipTurns (b : Bytes) : Nat → Nat → Int → Nat
  | 0, _, _ => 0
  | left + 1, i, off =>
    1 + match skipField b i off with
      | .ok off' => skipTurns b left (i + 1) off'
      | .error _ => 0

def scanOffsets (b : Bytes) : List Int :=
  match uvarint b with
  | .error _ => []
  | .ok (count, n) => skipOffsets b count 0 n

def scanTurns (b : Bytes) : Nat :=
  match uvarint b with
  | .error _ => 0
  | .ok (count, n) => skipTurns b count 0 n

def IsField (field : Bytes) : Prop :=
  ∃ tag t size s payload, field = tag ++ size ++ payload ∧ IsVarint tag t ∧ IsVarint size s ∧
    payload.length = s

inductive Fields : Nat → Bytes → Prop
  | nil : Fields 0 []
  | cons {field rest : Bytes} {count : Nat} (head : IsField field) (tail : Fields count rest) :
      Fields (count + 1) (field ++ rest)

def IsTaggedSection (b : Bytes) : Prop :=
  ∃ header count fields, b = header ++ fields ∧ IsVarint header count ∧ Fields count fields

/-- No size that the loop may come to, behind fields that fit, reaches beyond 64 bits. -/
def Unwrapped (b : Bytes) (count off : Nat) : Prop :=
  ∀ left fields tag t size s, left < count → Fields left fields → IsVarint tag t → IsVarint size s →
    fields ++ tag ++ size <+: b.drop off → off + (fields ++ tag ++ size).length + s < 2 ^ 64

def Within (b : Bytes) : Except Fault Int → Prop
  | .error fault => fault ≠ .panic
  | .ok off => ∃ n : Nat, off = n ∧ n ≤ b.length

section Skipping

variable {b : Bytes} {off : Nat}

theorem uvarintFrom_ok_iff (inside : off ≤ b.length) (context : String) (value n : Nat) :
    uvarintFrom b off context = .ok (value, n) ↔
      ∃ bytes, bytes <+: b.drop off ∧ IsVarint bytes value ∧ n = bytes.length := by
  have slice : sliceFrom b off = .ok (b.drop off) := by
    rw [sliceFrom, if_pos (by omega)]
    rfl
  rw [← uvarint_ok_iff, uvarintFrom, slice]
  show (match uvarint (b.drop off) with | .ok _ => _ | .error _ => _) = _ ↔ _
  cases uvarint (b.drop off) <;> simp

theorem append_prefix_iff (first second buf : Bytes) :
    first ++ second <+: buf ↔ first <+: buf ∧ second <+: buf.drop first.length := by
  constructor
  · rintro ⟨rest, rfl⟩
    exact ⟨⟨second ++ rest, by simp⟩, ⟨rest, by simp⟩⟩
  · rintro ⟨⟨rest, rfl⟩, inside⟩
    rw [List.drop_left] at inside
    exact (List.prefix_append_right_inj first).mpr inside

theorem IsField.length_pos (isField : IsField field) : 2 ≤ field.length := by
  obtain ⟨tag, t, size, s, payload, rfl, isTag, isSize, -⟩ := isField
  have first := isTag.digits.length_pos
  have second := isSize.digits.length_pos
  simp only [List.length_append]
  omega

theorem Unwrapped.next (unwrapped : Unwrapped b (count + 1) off)
    (isField : IsField field) (front : field <+: b.drop off) :
    Unwrapped b count (off + field.length) := by
  intro left fields tag t size s fewer isFields isTag isSize inside
  have fits := unwrapped (left + 1) (field ++ fields) tag t size s (by omega) (.cons isField isFields)
    isTag isSize (by
      rw [List.append_assoc, List.append_assoc, ← List.append_assoc fields]
      exact (append_prefix_iff _ _ _).mpr ⟨front, by rw [List.drop_drop]; exact inside⟩)
  simp only [List.length_append] at fits ⊢
  omega

theorem Unwrapped.mono {fewer : Nat} (unwrapped : Unwrapped b count off) (le : fewer ≤ count) :
    Unwrapped b fewer off :=
  fun left fields tag t size s less => unwrapped left fields tag t size s (by omega)

theorem Fields.length_ge (isFields : Fields count fields) : 2 * count ≤ fields.length := by
  induction isFields with
  | nil => simp
  | cons head tail ih =>
    have long := head.length_pos
    rw [List.length_append]
    omega

theorem skipOffsets_head (b : Bytes) (count i : Nat) (off : Int) :
    (skipOffsets b count i off).head? = some off := by
  cases count <;> rfl

theorem uvarintFrom_cases (inside : off ≤ b.length) (context : String) :
    (∃ cause, uvarintFrom b off context = .error (.err cause)) ∨
      ∃ value n, uvarintFrom b off context = .ok (value, n) ∧ off + n ≤ b.length := by
  cases read : uvarintFrom b off context with
  | error fault =>
    rw [uvarintFrom, sliceFrom, if_pos (by omega), ok_bind] at read
    split at read <;> cases read
    exact .inl ⟨_, rfl⟩
  | ok read' =>
    obtain ⟨value, n⟩ := read'
    obtain ⟨bytes, front, -, rfl⟩ := (uvarintFrom_ok_iff inside _ value n).mp read
    have length := front.length_le
    rw [List.length_drop] at length
    exact .inr ⟨value, _, rfl, by omega⟩

theorem varint_front_unique {first second buf : Bytes} {value value' : Nat} (isFirst : IsVarint first value)
    (isSecond : IsVarint second value') (front : first <+: buf) (front' : second <+: buf) :
    first = second ∧ value = value' := by
  have read := (uvarint_ok_iff buf value _).mpr ⟨first, front, isFirst, rfl⟩
  rw [(uvarint_ok_iff buf value' _).mpr ⟨second, front', isSecond, rfl⟩] at read
  obtain ⟨same, length⟩ := Prod.mk.inj (Except.ok.inj read)
  exact ⟨(List.prefix_of_prefix_length_le front front' length.ge).eq_of_length length.symm, same.symm⟩

theorem skipTurns_le_offsets (b : Bytes) (count i : Nat) (off : Int) :
    skipTurns b count i off ≤ (skipOffsets b count i off).length := by
  induction count generalizing i off with
  | zero => exact Nat.zero_le _
  | succ count ih =>
    rw [skipTurns, skipOffsets, List.length_cons]
    split
    · next off' _ =>
        have turns := ih (i + 1) off'
        omega
    · exact Nat.le_add_left _ _

theorem length_le_of_rising {offsets : List Int} {first last : Int} (start : offsets.head? = some first)
    (rising : offsets.IsChain (· < ·)) (below : ∀ offset ∈ offsets, offset ≤ last) :
    offsets.length ≤ last - first + 1 := by
  induction offsets generalizing first with
  | nil => cases start
  | cons head rest ih =>
    obtain rfl := Option.some.inj start
    cases rest with
    | nil =>
      have low := below head List.mem_cons_self
      simp only [List.length_singleton]
      omega
    | cons next rest =>
      obtain ⟨up, rising'⟩ := List.isChain_cons_cons.mp rising
      have fewer := ih rfl rising' fun offset member => below offset (List.mem_cons_of_mem _ member)
      rw [List.length_cons]
      push_cast
      omega

variable (small : b.length < 2 ^ 63)

include small

theorem skipPayload_eq {size : Nat} (inside : off ≤ b.length)
    (fits : off + size < 2 ^ 64) :
    skipPayload b off size =
      if off + size ≤ b.length then .ok ((off + size : Nat) : Int)
      else .error (.err (.text "tagged field runs past the end of the frame")) := by
  have sum : ((off : Int) % 2 ^ 64 + size) % 2 ^ 64 = ((off + size : Nat) : Int) := by
    rw [Int.emod_eq_of_lt (by omega) (by omega), Int.emod_eq_of_lt (by omega) (by omega),
      Nat.cast_add]
  rw [skipPayload, sum]
  split
  · rw [if_neg (by omega)]
  · have short : off + size ≤ b.length := by omega
    rw [if_pos short, int64_of_range (size : Int) (by omega) (by omega),
      int64_of_range _ (by omega) (by omega), Nat.cast_add]

theorem skipField_tag {n t : Nat} (inside : off + n ≤ b.length)
    (tag : uvarintFrom b off s!"tagged field {i} tag" = .ok (t, n)) :
    skipField b i off =
      (uvarintFrom b ((off + n : Nat) : Int) s!"tagged field {i} size" >>= fun read =>
        skipPayload b (int64 (((off + n : Nat) : Int) + read.2)) read.1) := by
  have moved : int64 ((off : Int) + n) = ((off + n : Nat) : Int) := by
    rw [int64_of_range _ (by omega) (by omega), Nat.cast_add]
  rw [← moved, skipField, tag, ok_bind]

theorem skipField_size {n m t s : Nat}
    (tag : uvarintFrom b off s!"tagged field {i} tag" = .ok (t, n))
    (size : uvarintFrom b ((off + n : Nat) : Int) s!"tagged field {i} size" = .ok (s, m))
    (inside : off + n + m ≤ b.length) :
    skipField b i off = skipPayload b ((off + n + m : Nat) : Int) s := by
  have moved : int64 (((off + n : Nat) : Int) + m) = ((off + n + m : Nat) : Int) := by
    rw [int64_of_range _ (by omega) (by omega), Nat.cast_add (off + n)]
  rw [skipField_tag small (by omega) tag, size, ← moved, ok_bind]

theorem skipField_of_field (inside : off ≤ b.length)
    (isField : IsField field) (front : field <+: b.drop off) (i : Nat) :
    skipField b i off = .ok ((off + field.length : Nat) : Int) := by
  obtain ⟨tag, t, size, s, payload, rfl, isTag, isSize, rfl⟩ := isField
  obtain ⟨both, last⟩ := (append_prefix_iff _ _ _).mp front
  obtain ⟨first, second⟩ := (append_prefix_iff _ _ _).mp both
  have length := front.length_le
  simp only [List.length_append, List.length_drop] at length
  rw [List.drop_drop] at second
  rw [skipField_size small ((uvarintFrom_ok_iff inside _ t _).mpr ⟨tag, first, isTag, rfl⟩)
    ((uvarintFrom_ok_iff (by omega) _ _ _).mpr ⟨size, second, isSize, rfl⟩) (by omega),
    skipPayload_eq small (by omega) (by omega), if_pos (by omega)]
  simp only [List.length_append, Nat.add_assoc]

theorem skipField_ok_iff (inside : off ≤ b.length)
    (unwrapped : Unwrapped b 1 off) (i : Nat) (off' : Int) :
    skipField b i off = .ok off' ↔
      ∃ field, IsField field ∧ field <+: b.drop off ∧ off' = ((off + field.length : Nat) : Int) := by
  constructor
  · intro ran
    cases tagRead : uvarintFrom b off s!"tagged field {i} tag" with
    | error fault =>
      rw [skipField, tagRead, error_bind] at ran
      cases ran
    | ok read =>
      obtain ⟨t, n⟩ := read
      obtain ⟨tag, front, isTag, rfl⟩ := (uvarintFrom_ok_iff inside _ t n).mp tagRead
      have within := front.length_le
      rw [List.length_drop] at within
      cases sizeRead : uvarintFrom b ((off + tag.length : Nat) : Int) s!"tagged field {i} size" with
      | error fault =>
        rw [skipField_tag small (by omega) tagRead, sizeRead, error_bind] at ran
        cases ran
      | ok read =>
        obtain ⟨s, m⟩ := read
        obtain ⟨size, front', isSize, rfl⟩ := (uvarintFrom_ok_iff (by omega) _ s m).mp sizeRead
        have within' := front'.length_le
        rw [List.length_drop] at within'
        have both : tag ++ size <+: b.drop off :=
          (append_prefix_iff _ _ _).mpr ⟨front, by rw [List.drop_drop]; exact front'⟩
        have fits := unwrapped 0 [] tag t size s (by decide) .nil isTag isSize both
        rw [List.nil_append, List.length_append] at fits
        rw [skipField_size small tagRead sizeRead (by omega),
          skipPayload_eq small (by omega) (by omega)] at ran
        split at ran
        · next short =>
            obtain rfl := Except.ok.inj ran
            let payload := (b.drop (off + tag.length + size.length)).take s
            have length : payload.length = s := by
              rw [List.length_take, List.length_drop]
              omega
            refine ⟨tag ++ size ++ payload,
              ⟨tag, t, size, s, payload, rfl, isTag, isSize, length⟩, ?_, ?_⟩
            · refine (append_prefix_iff _ _ _).mpr ⟨both, ?_⟩
              rw [List.drop_drop, List.length_append, ← Nat.add_assoc]
              exact List.take_prefix _ _
            · rw [List.length_append, List.length_append, length]
              congr 1
              omega
        · cases ran
  · rintro ⟨field, isField, front, rfl⟩
    exact skipField_of_field small inside isField front i

theorem skipField_step (inside : off ≤ b.length)
    {off' : Int} (unwrapped : Unwrapped b (count + 1) off) (ran : skipField b i off = .ok off') :
    ∃ field, IsField field ∧ field <+: b.drop off ∧ off' = ((off + field.length : Nat) : Int) ∧
      off + field.length ≤ b.length ∧ Unwrapped b count (off + field.length) := by
  obtain ⟨field, isField, front, rfl⟩ :=
    (skipField_ok_iff small inside (unwrapped.mono (by omega)) i off').mp ran
  have length := front.length_le
  rw [List.length_drop] at length
  exact ⟨field, isField, front, rfl, by omega, unwrapped.next isField front⟩

theorem skipLoop_of_fields {off : Nat}
    (isFields : Fields count fields) (inside : off ≤ b.length) (front : fields <+: b.drop off) :
    skipLoop b count i off = .ok ((off + fields.length : Nat) : Int) := by
  induction isFields generalizing i off with
  | nil => rfl
  | @cons field rest count isField isRest ih =>
    obtain ⟨front', front''⟩ := (append_prefix_iff _ _ _).mp front
    have length := front'.length_le
    rw [List.length_drop] at length
    rw [List.drop_drop] at front''
    rw [skipLoop, skipField_of_field small inside isField front' i, ok_bind,
      ih (by omega) front'', List.length_append, Nat.add_assoc]

theorem skipLoop_ok_iff (count i off : Nat) (inside : off ≤ b.length)
    (unwrapped : Unwrapped b count off) (n : Int) :
    skipLoop b count i off = .ok n ↔
      ∃ fields, Fields count fields ∧ fields <+: b.drop off ∧ n = ((off + fields.length : Nat) : Int) := by
  induction count generalizing i off with
  | zero =>
    constructor
    · intro ran
      obtain rfl := Except.ok.inj ran
      exact ⟨[], .nil, List.nil_prefix, rfl⟩
    · rintro ⟨fields, isFields, -, rfl⟩
      cases isFields
      rfl
  | succ count ih =>
    rw [skipLoop]
    constructor
    · intro ran
      cases turn : skipField b i off with
      | error fault =>
        rw [turn, error_bind] at ran
        cases ran
      | ok off' =>
        rw [turn, ok_bind] at ran
        obtain ⟨field, isField, front, rfl, inside', unwrapped'⟩ :=
          skipField_step small inside unwrapped turn
        obtain ⟨fields, isFields, front', rfl⟩ := (ih (i + 1) _ inside' unwrapped').mp ran
        refine ⟨field ++ fields, .cons isField isFields, ?_, ?_⟩
        · exact (append_prefix_iff _ _ _).mpr ⟨front, by rw [List.drop_drop]; exact front'⟩
        · rw [List.length_append, Nat.add_assoc]
    · rintro ⟨fields, isFields, front, rfl⟩
      exact skipLoop_of_fields small isFields (i := i) inside front

theorem skipOffsets_increasing (count i off : Nat)
    (inside : off ≤ b.length) (unwrapped : Unwrapped b count off) :
    (skipOffsets b count i off).IsChain (· < ·) := by
  induction count generalizing i off with
  | zero => exact .singleton _
  | succ count ih =>
    rw [skipOffsets]
    split
    · next off' turn =>
        obtain ⟨field, isField, -, rfl, inside', unwrapped'⟩ :=
          skipField_step small inside unwrapped turn
        refine List.isChain_cons.mpr ⟨fun next isNext => ?_, ih (i + 1) _ inside' unwrapped'⟩
        rw [skipOffsets_head, Option.mem_some_iff] at isNext
        have long := isField.length_pos
        omega
    · exact .singleton _

theorem skipTurns_le (count i off : Nat) (inside : off ≤ b.length)
    (unwrapped : Unwrapped b count off) :
    skipTurns b count i off ≤ (b.length - off) / 2 + 1 := by
  induction count generalizing i off with
  | zero => exact Nat.zero_le _
  | succ count ih =>
    rw [skipTurns]
    split
    · next off' turn =>
        obtain ⟨field, isField, -, rfl, inside', unwrapped'⟩ :=
          skipField_step small inside unwrapped turn
        have turns := ih (i + 1) _ inside' unwrapped'
        have long := isField.length_pos
        omega
    · omega

/-- A jump that passes the check lands inside the frame, also where the sum has wrapped. -/
theorem skipPayload_within (size : Nat) :
    Within b (skipPayload b off size) := by
  rw [skipPayload]
  split
  · exact nofun
  · next fits =>
      have residue : int64 (off + int64 size) = int64 (((off + size) % 2 ^ 64 : Nat) : Int) := by
        rw [int64, int64, int64, Int.add_bmod_bmod, Int.natCast_emod, Nat.cast_add]
        exact (Int.emod_bmod _ _).symm
      refine ⟨(off + size) % 2 ^ 64, ?_, by omega⟩
      rw [residue, int64_of_range _ (by omega) (by omega)]

theorem skipField_within (inside : off ≤ b.length) (i : Nat) :
    Within b (skipField b i off) := by
  rcases uvarintFrom_cases inside s!"tagged field {i} tag" with ⟨cause, failed⟩ | ⟨t, n, tag, inside'⟩
  · rw [skipField, failed, error_bind]
    exact nofun
  · rcases uvarintFrom_cases inside' s!"tagged field {i} size" with ⟨cause, failed⟩ | ⟨s, m, size, inside''⟩
    · rw [skipField_tag small inside' tag, failed, error_bind]
      exact nofun
    · rw [skipField_size small tag size inside'']
      exact skipPayload_within small s

theorem skipLoop_within (count i off : Nat) (inside : off ≤ b.length) :
    Within b (skipLoop b count i off) := by
  induction count generalizing i off with
  | zero => exact ⟨off, rfl, inside⟩
  | succ count ih =>
    have turn := skipField_within small inside i
    rw [skipLoop]
    cases ran : skipField b i off with
    | error fault =>
      rw [ran] at turn
      exact turn
    | ok off' =>
      rw [ran] at turn
      obtain ⟨next, rfl, inside'⟩ := turn
      exact ih (i + 1) next inside'

theorem field_front_unique {other : Bytes} (isField : IsField field) (isOther : IsField other)
    (front : field <+: b) (front' : other <+: b) : field = other := by
  have ran := skipField_of_field small (Nat.zero_le _) isField (by simpa using front) 0
  rw [skipField_of_field small (Nat.zero_le _) isOther (by simpa using front') 0] at ran
  have length : other.length = field.length := by
    have same := Except.ok.inj ran
    omega
  exact (List.prefix_of_prefix_length_le front front' length.ge).eq_of_length length.symm

/-- Fields that are there have the sizes that they announce. -/
theorem Fields.unwrapped
    (isFields : Fields count fields) (inside : off ≤ b.length) (front : fields <+: b.drop off) :
    Unwrapped b count off := by
  induction isFields generalizing off with
  | nil => exact fun left _ _ _ _ _ none => absurd none (Nat.not_lt_zero left)
  | @cons field rest count isField isRest ih =>
    have fewer : (b.drop off).length < 2 ^ 63 := by
      rw [List.length_drop]
      omega
    obtain ⟨here, behind⟩ := (append_prefix_iff _ _ _).mp front
    have length := here.length_le
    rw [List.length_drop] at length
    rw [List.drop_drop] at behind
    intro left fields' tag t size s less isFields' isTag isSize inside'
    cases isFields' with
    | nil =>
      obtain ⟨tag', t', size', s', payload, rfl, isTag', isSize', rfl⟩ := isField
      obtain ⟨isFirst, isSecond⟩ := (append_prefix_iff _ _ _).mp inside'
      obtain ⟨both, -⟩ := (append_prefix_iff _ _ _).mp here
      obtain ⟨isFirst', isSecond'⟩ := (append_prefix_iff _ _ _).mp both
      obtain ⟨rfl, -⟩ := varint_front_unique isTag isTag' isFirst isFirst'
      obtain ⟨rfl, rfl⟩ := varint_front_unique isSize isSize' isSecond isSecond'
      simp only [List.length_append, List.nil_append] at length ⊢
      omega
    | @cons other rest' left isOther isRest' =>
      rw [List.append_assoc, List.append_assoc] at inside'
      obtain ⟨first, second⟩ := (append_prefix_iff _ _ _).mp inside'
      obtain rfl := field_front_unique fewer isField isOther here first
      rw [List.drop_drop, ← List.append_assoc] at second
      have fits := ih (by omega) behind left rest' tag t size s (by omega) isRest' isTag isSize second
      simp only [List.length_append] at fits ⊢
      omega

theorem skipOffsets_within (count i off : Nat) (inside : off ≤ b.length) :
    ∀ offset ∈ skipOffsets b count i off, offset ≤ b.length := by
  induction count generalizing i off with
  | zero =>
    intro offset member
    rw [List.mem_singleton.mp member]
    exact_mod_cast inside
  | succ count ih =>
    intro offset member
    rw [skipOffsets] at member
    rcases List.mem_cons.mp member with rfl | later
    · exact_mod_cast inside
    · have turn := skipField_within small inside i
      cases ran : skipField b i off with
      | error fault =>
        rw [ran] at later
        cases later
      | ok off' =>
        rw [ran] at turn later
        obtain ⟨next, rfl, inside'⟩ := turn
        exact ih (i + 1) next inside' offset later

end Skipping

theorem skipTaggedFields_within (b : Bytes) (small : b.length < 2 ^ 63) :
    Within b (skipTaggedFields b) := by
  rw [skipTaggedFields]
  split
  · exact nofun
  · next count n read =>
      obtain ⟨header, front, -, rfl⟩ := (uvarint_ok_iff b count n).mp read
      exact skipLoop_within small count 0 _ front.length_le

/-- A section in front of a body is skipped, and nothing of the body. -/
theorem skipTaggedFields_section {tags : Bytes} (isSection : IsTaggedSection tags) (body : Bytes)
    (small : (tags ++ body).length < 2 ^ 63) :
    skipTaggedFields (tags ++ body) = .ok (tags.length : Int) := by
  obtain ⟨header, count, fields, rfl, isHeader, isFields⟩ := isSection
  have read := (uvarint_ok_iff (header ++ fields ++ body) count _).mpr
    ⟨header, ⟨fields ++ body, by simp⟩, isHeader, rfl⟩
  have front : fields <+: (header ++ fields ++ body).drop header.length := ⟨body, by simp⟩
  rw [skipTaggedFields, read, List.length_append]
  exact skipLoop_of_fields small isFields (i := 0) (by simp) front

/-- The scan accepts the sections and nothing else, goes forward with every field and ends after at
most as many turns as there are bytes. -/
def ScansExactly (b : Bytes) : Prop :=
  (∀ n : Int, skipTaggedFields b = .ok n ↔
    ∃ parsed, IsTaggedSection parsed ∧ parsed <+: b ∧ n = parsed.length) ∧
    (scanOffsets b).IsChain (· < ·) ∧ scanTurns b ≤ b.length

/-- No size that the scan comes to reaches beyond 64 bits. -/
def NoSizeWraps (b : Bytes) : Prop :=
  ∀ header count, header <+: b → IsVarint header count → Unwrapped b count header.length

theorem scansExactly_of_noSizeWraps {b : Bytes} (small : b.length < 2 ^ 63)
    (unwrapped : NoSizeWraps b) : ScansExactly b := by
  cases read : uvarint b with
  | error err =>
    refine ⟨fun n => ⟨fun ran => ?_, ?_⟩, ?_, ?_⟩
    · rw [skipTaggedFields, read] at ran
      cases ran
    · rintro ⟨_, ⟨header, count, fields, rfl, isHeader, -⟩, front, -⟩
      have found := (uvarint_ok_iff b count _).mpr
        ⟨header, (List.prefix_append _ _).trans front, isHeader, rfl⟩
      rw [read] at found
      cases found
    · rw [scanOffsets, read]
      exact .nil
    · rw [scanTurns, read]
      exact Nat.zero_le _
  | ok result =>
    obtain ⟨count, n⟩ := result
    obtain ⟨header, front, isHeader, rfl⟩ := (uvarint_ok_iff b count n).mp read
    have fits := unwrapped header count front isHeader
    have inside := front.length_le
    have long := isHeader.digits.length_pos
    refine ⟨fun n => ?_, ?_, ?_⟩
    · rw [skipTaggedFields, read]
      dsimp only
      rw [skipLoop_ok_iff small count 0 _ inside fits n]
      constructor
      · rintro ⟨fields, isFields, front', rfl⟩
        exact ⟨header ++ fields, ⟨header, count, fields, rfl, isHeader, isFields⟩,
          (append_prefix_iff _ _ _).mpr ⟨front, front'⟩, by rw [List.length_append]⟩
      · rintro ⟨_, ⟨header', count', fields, rfl, isHeader', isFields⟩, front', rfl⟩
        obtain ⟨first, second⟩ := (append_prefix_iff _ _ _).mp front'
        have found := (uvarint_ok_iff b count' _).mpr ⟨header', first, isHeader', rfl⟩
        rw [read] at found
        obtain ⟨rfl, same⟩ := Prod.mk.inj (Except.ok.inj found)
        exact ⟨fields, isFields, by rw [same]; exact second, by rw [List.length_append, same]⟩
    · rw [scanOffsets, read]
      exact skipOffsets_increasing small count 0 _ inside fits
    · rw [scanTurns, read]
      have turns := skipTurns_le small count 0 _ inside fits
      dsimp only
      omega

theorem noSizeWraps_of_section {b parsed : Bytes} (small : b.length < 2 ^ 63)
    (isSection : IsTaggedSection parsed) (front : parsed <+: b) : NoSizeWraps b := by
  obtain ⟨header, count, fields, rfl, isHeader, isFields⟩ := isSection
  obtain ⟨first, second⟩ := (append_prefix_iff _ _ _).mp front
  intro header' count' front' isHeader'
  obtain ⟨rfl, rfl⟩ := varint_front_unique isHeader isHeader' first front'
  exact isFields.unwrapped small first.length_le second

theorem scanTurns_le {b : Bytes} (small : b.length < 2 ^ 63)
    (rising : (scanOffsets b).IsChain (· < ·)) : scanTurns b ≤ b.length := by
  rw [scanOffsets] at rising
  rw [scanTurns]
  split at rising
  · exact Nat.zero_le _
  · next count n read =>
      obtain ⟨header, front, isHeader, rfl⟩ := (uvarint_ok_iff b count n).mp read
      have turns := skipTurns_le_offsets b count 0 header.length
      have few := length_le_of_rising (skipOffsets_head b count 0 header.length) rising
        (skipOffsets_within small count 0 header.length front.length_le)
      have long := isHeader.digits.length_pos
      omega

/-- The scan does what it should exactly when no size reaches beyond 64 bits, or when those that do
never take it back and it ends in an error. -/
theorem scansExactly_iff (b : Bytes) (small : b.length < 2 ^ 63) :
    ScansExactly b ↔ NoSizeWraps b ∨
      (scanOffsets b).IsChain (· < ·) ∧ ∃ fault, skipTaggedFields b = .error fault := by
  constructor
  · rintro ⟨exact, rising, -⟩
    cases ran : skipTaggedFields b with
    | error fault => exact .inr ⟨rising, fault, rfl⟩
    | ok n =>
      obtain ⟨parsed, isSection, front, -⟩ := (exact n).mp ran
      exact .inl (noSizeWraps_of_section small isSection front)
  · rintro (unwrapped | ⟨rising, fault, failed⟩)
    · exact scansExactly_of_noSizeWraps small unwrapped
    · refine ⟨fun n => ⟨fun ran => ?_, ?_⟩, rising, scanTurns_le small rising⟩
      · rw [failed] at ran
        cases ran
      · rintro ⟨parsed, isSection, ⟨body, rfl⟩, -⟩
        rw [skipTaggedFields_section isSection body small] at failed
        cases failed

/-- Short frames have no size that large. -/
theorem tagged_section_skipped :
    skipTaggedFields [1, 5, 2, 7, 7, 9] = .ok 5 ∧
      ∃ parsed, IsTaggedSection parsed ∧ parsed <+: [1, 5, 2, 7, 7, 9] ∧ (5 : Int) = parsed.length := by
  have ran : skipTaggedFields [1, 5, 2, 7, 7, 9] = .ok 5 := ok_of_toOption (by decide +kernel)
  refine ⟨ran, (((scansExactly_iff [1, 5, 2, 7, 7, 9] (by decide)).mpr (.inl ?_)).1 5).mp ran⟩
  intro header count front isHeader left fields tag t size s fewer isFields isTag isSize inside
  have length := inside.length_le
  have length' := front.length_le
  have value := isSize.digits.lt_pow
  simp only [List.length_append, List.length_drop, List.length_cons, List.length_nil] at length length' ⊢
  have few : size.length ≤ 6 := by omega
  have bound := Nat.pow_le_pow_right (show 0 < 128 by decide) few
  omega

/-- A field whose size is `2 ^ 64 - 11`: each turn of the loop goes back to where it started. -/
def wrappingSection : Bytes := [100, 0, 0xf5] ++ List.replicate 8 0xff ++ [1]

theorem wrapping_size_goes_back :
    skipTaggedFields wrappingSection = .ok 1 ∧ ¬ IsTaggedSection (wrappingSection.take 1) ∧
      scanOffsets wrappingSection = List.replicate 101 1 ∧
      wrappingSection.length = 12 ∧ scanTurns wrappingSection = 100 := by
  refine ⟨ok_of_toOption (by decide +kernel), ?_, by decide +kernel, by decide, by decide +kernel⟩
  rintro ⟨header, count, fields, shape, isHeader, isFields⟩
  have shape' : [100] = header ++ fields := shape
  have length := congrArg List.length shape'
  rw [List.length_singleton, List.length_append] at length
  have long := isHeader.digits.length_pos
  have few := isFields.length_ge
  have front : header <+: [100] := shape' ▸ List.prefix_append _ _
  rcases isHeader.digits.front_cons front with ⟨-, -, rfl⟩ | ⟨large, -⟩
  · have hundred : (100 : UInt8).toNat = 100 := rfl
    omega
  · exact absurd large (by decide)

end KafkaWire.Wire
