import KafkaWire.Lib.Bytes
import KafkaWire.Lib.Framing

/-! The v2 record batch header, its checksum, and the checks a batch passes before
it may be written. -/

namespace KafkaWire.Storage

open Bytes

variable (value : Int) (buf : Bytes)

inductive Err where
  | diskFull
  | offsetOutOfRange
  | io
  | text (message : String)
  | wrap (context : String) (cause : Err)
  deriving DecidableEq, Repr

def Err.message : Err → String
  | .diskFull => "disk usage above threshold; writes paused"
  | .offsetOutOfRange => "offset out of range"
  | .io => "input/output error"
  | .text message => message
  | .wrap context cause => context ++ ": " ++ cause.message

def int64 (value : Int) : Int := Int.bmod value (2 ^ 64)
def int32 (value : Int) : Int := Int.bmod value (2 ^ 32)
def int16 (value : Int) : Int := Int.bmod value (2 ^ 16)
def int8 (value : Int) : Int := Int.bmod value (2 ^ 8)

def v2HeaderSize : Nat := 61
def v2MagicByte : Int := 2
def v2CRCOffset : Nat := 17
def v2CRCSize : Nat := 4
def v2BodyStart : Nat := 21
def minBatchSize : Nat := v2HeaderSize
def maxBatchSize : Nat := 4 * 1024 * 1024

structure BatchHeader where
  baseOffset : Int := 0
  batchLength : Int := 0
  magic : Int := 0
  crc : Nat := 0
  attributes : BitVec 16 := 0
  lastOffsetDelta : Int := 0
  firstTimestamp : Int := 0
  maxTimestamp : Int := 0
  producerID : Int := 0
  producerEpoch : Int := 0
  baseSequence : Int := 0
  recordCount : Int := 0
  deriving DecidableEq, Repr

def BatchHeader.lastOffset (h : BatchHeader) : Int := int64 (h.baseOffset + h.lastOffsetDelta)

def BatchHeader.totalSize (h : BatchHeader) : Int := 12 + h.batchLength

def crcBit (crc : UInt32) : UInt32 :=
  if crc &&& 1 = 1 then (crc >>> 1) ^^^ 0x82f63b78 else crc >>> 1

def crcByte (crc : UInt32) (byte : UInt8) : UInt32 := crcBit^[8] (crc ^^^ byte.toUInt32)

@[irreducible] def crc32c (body : Bytes) : Nat := (body.foldl crcByte 0xffffffff ^^^ 0xffffffff).toNat

def hex (value : Nat) : String := String.ofList (Nat.toDigits 16 value)

def attrCompressionMask : BitVec 16 := 0x07
def attrTransactional : BitVec 16 := 0x10
def attrControlBatch : BitVec 16 := 0x20

@[irreducible] def decodeHeader (buf : Bytes) : BatchHeader where
  baseOffset := int64 (uintBE (slice buf 0 8))
  batchLength := int32 (uintBE (slice buf 8 12))
  magic := int8 (uintBE (slice buf 16 17))
  crc := uintBE (slice buf 17 21)
  attributes := BitVec.ofNat 16 (uintBE (slice buf 21 23))
  lastOffsetDelta := int32 (uintBE (slice buf 23 27))
  firstTimestamp := int64 (uintBE (slice buf 27 35))
  maxTimestamp := int64 (uintBE (slice buf 35 43))
  producerID := int64 (uintBE (slice buf 43 51))
  producerEpoch := int16 (uintBE (slice buf 51 53))
  baseSequence := int32 (uintBE (slice buf 53 57))
  recordCount := int32 (uintBE (slice buf 57 61))

def parseBatchHeader (buf : Bytes) : BatchHeader × Option Err :=
  let size := buf.length
  if size < v2HeaderSize then
    ({}, some (.text s!"batch header: need 61 bytes, have {size}"))
  else
    let h := decodeHeader buf
    let magic := h.magic
    let length := h.batchLength
    if magic ≠ v2MagicByte then
      (h, some (.text s!"unsupported magic byte {magic} (want 2)"))
    else if length < (v2HeaderSize : Int) - 12 then
      (h, some (.text s!"batch length {length} too small"))
    else if length > (maxBatchSize : Int) then
      (h, some (.text s!"batch length {length} exceeds max 4194304"))
    else (h, none)

def validateCRC (batch : Bytes) : Option Err :=
  if batch.length < v2HeaderSize then some (.text "batch too short to CRC-check")
  else
    let wantCRC := uintBE (slice batch v2CRCOffset (v2CRCOffset + v2CRCSize))
    let gotCRC := crc32c (batch.drop v2BodyStart)
    if gotCRC ≠ wantCRC then
      some (.text ("CRC mismatch: got " ++ hex gotCRC ++ " want " ++ hex wantCRC))
    else none

def rewriteBaseOffset (batch : Bytes) (baseOffset : Int) : Bytes :=
  patch batch 0 (putUintBE 8 (baseOffset % 2 ^ 64).toNat)

def setPartitionLeaderEpoch (batch : Bytes) (epoch : Int) : Bytes :=
  patch batch 12 (putUintBE 4 (epoch % 2 ^ 32).toNat)

def validateCompressionCodec (attributes : BitVec 16) : Option Err :=
  let codec := (attributes &&& attrCompressionMask).toNat
  if codec = 0 ∨ codec = 1 ∨ codec = 2 ∨ codec = 4 then none
  else if codec = 3 then none
  else some (.text s!"unsupported compression codec {codec}")

def validateBatchAttributes (attributes : BitVec 16) : Option Err :=
  match validateCompressionCodec attributes with
  | some err => some err
  | none =>
    if attributes &&& attrControlBatch ≠ 0 then
      some (.text ("batch is a transaction control marker (attribute bit 5); " ++
        "kafka-wire has no transaction coordinator, so it cannot store transaction markers"))
    else if attributes &&& attrTransactional ≠ 0 then
      some (.text ("batch claims membership in a transaction (attribute bit 4); " ++
        "kafka-wire has no transaction coordinator, so it cannot honor a transaction's commit or abort"))
    else none

def validateBatchForAppend (batch : Bytes) : Option Err :=
  let size := batch.length
  if size < minBatchSize then some (.text s!"too small ({size} bytes, minimum 61)")
  else if size > maxBatchSize then some (.text s!"too large ({size} bytes, maximum 4194304)")
  else
    match parseBatchHeader batch with
    | (_, some err) => some (.wrap "parse batch header" err)
    | (h, none) =>
      match validateCRC batch with
      | some err => some err
      | none => validateBatchAttributes h.attributes

theorem int64_of_range (low : -(2 ^ 63) ≤ value) (high : value < 2 ^ 63) : int64 value = value := by
  apply Int.bmod_eq_of_le <;> omega

theorem int64_emod : int64 (value % 2 ^ 64) = int64 value := by
  unfold int64
  exact Int.emod_bmod value (2 ^ 64)

theorem int64_overflow (low : 2 ^ 63 ≤ value) (high : value < 2 ^ 63 + 2 ^ 64) :
    int64 value = value - 2 ^ 64 := by
  have same : int64 value = int64 (value - 2 ^ 64) := by
    rw [← int64_emod value, ← int64_emod (value - 2 ^ 64), Int.sub_emod_right]
  rw [same, int64_of_range _ (by omega) (by omega)]

theorem int32_bounds : -(2 ^ 31) ≤ int32 value ∧ int32 value < 2 ^ 31 := by
  have low := Int.le_bmod (x := value) (m := 2 ^ 32) (by decide)
  have high := Int.bmod_lt (x := value) (m := 2 ^ 32) (by decide)
  constructor <;> unfold int32 <;> omega

theorem lastOffsetDelta_bounds :
    -(2 ^ 31) ≤ (decodeHeader buf).lastOffsetDelta ∧ (decodeHeader buf).lastOffsetDelta < 2 ^ 31 := by
  unfold decodeHeader
  dsimp only
  apply int32_bounds

theorem decodeHeader_take (limit : Nat) (long : 61 ≤ limit) :
    decodeHeader (buf.take limit) = decodeHeader buf := by
  have field (low high : Nat) (inside : high ≤ 61) :
      slice (buf.take limit) low high = slice buf low high :=
    slice_take buf limit low high (by omega)
  unfold decodeHeader
  rw [field 0 8 (by decide), field 8 12 (by decide), field 16 17 (by decide),
    field 17 21 (by decide), field 21 23 (by decide), field 23 27 (by decide),
    field 27 35 (by decide), field 35 43 (by decide), field 43 51 (by decide),
    field 51 53 (by decide), field 53 57 (by decide), field 57 61 (by decide)]

structure HeaderOk (buf : Bytes) : Prop where
  long : 61 ≤ buf.length
  magic : (decodeHeader buf).magic = v2MagicByte
  lengthLow : 49 ≤ (decodeHeader buf).batchLength
  lengthHigh : (decodeHeader buf).batchLength ≤ 4194304

theorem parse_ok_iff (h : BatchHeader) :
    parseBatchHeader buf = (h, none) ↔ HeaderOk buf ∧ h = decodeHeader buf := by
  constructor
  · intro parsed
    unfold parseBatchHeader at parsed
    by_cases short : buf.length < v2HeaderSize
    · simp [short] at parsed
    · by_cases magic : (decodeHeader buf).magic = v2MagicByte
      · by_cases low : (decodeHeader buf).batchLength < (v2HeaderSize : Int) - 12
        · simp [short, magic, low] at parsed
        · by_cases high : (decodeHeader buf).batchLength > (maxBatchSize : Int)
          · simp [short, magic, low, high] at parsed
          · simp only [short, magic, low, high, ne_eq, not_true_eq_false, if_false,
              Prod.mk.injEq, and_true] at parsed
            simp only [v2HeaderSize, maxBatchSize] at short low high
            exact ⟨⟨by omega, magic, by omega, by omega⟩, parsed.symm⟩
      · simp [short, magic] at parsed
  · rintro ⟨ok, rfl⟩
    have long := ok.long
    have low := ok.lengthLow
    have high := ok.lengthHigh
    unfold parseBatchHeader
    dsimp only
    rw [if_neg (show ¬ buf.length < v2HeaderSize by unfold v2HeaderSize; omega),
      if_neg (by simp [ok.magic]),
      if_neg (show ¬ _ < (v2HeaderSize : Int) - 12 by simp only [v2HeaderSize]; omega),
      if_neg (show ¬ _ > (maxBatchSize : Int) by simp only [maxBatchSize]; omega)]

theorem HeaderOk.parse {buf : Bytes} (ok : HeaderOk buf) :
    parseBatchHeader buf = (decodeHeader buf, none) :=
  (parse_ok_iff buf _).mpr ⟨ok, rfl⟩

theorem HeaderOk.totalSize_ge {buf : Bytes} (ok : HeaderOk buf) :
    61 ≤ (decodeHeader buf).totalSize := by
  have low := ok.lengthLow
  unfold BatchHeader.totalSize
  omega

theorem headerOk_congr {buf buf' : Bytes} (same : buf.take 61 = buf'.take 61) (ok : HeaderOk buf) :
    HeaderOk buf' := by
  have header : decodeHeader buf = decodeHeader buf' := by
    rw [← decodeHeader_take buf 61 (Nat.le_refl _), same, decodeHeader_take buf' 61 (Nat.le_refl _)]
  have lengths := congrArg List.length same
  simp only [List.length_take] at lengths
  have long := ok.long
  exact ⟨by omega, header ▸ ok.magic, header ▸ ok.lengthLow, header ▸ ok.lengthHigh⟩

/-- The size that the header at the front of `buf` announces, if it is acceptable. -/
def announcedSize (buf : Bytes) : Option Nat :=
  match parseBatchHeader buf with
  | (h, none) => some h.totalSize.toNat
  | (_, some _) => none

theorem announcedSize_some_iff (n : Nat) :
    announcedSize buf = some n ↔ HeaderOk buf ∧ (n : Int) = (decodeHeader buf).totalSize := by
  unfold announcedSize
  split
  · next h parsed =>
      obtain ⟨ok, rfl⟩ := (parse_ok_iff buf h).mp parsed
      have positive := ok.totalSize_ge
      simp only [Option.some.injEq, ok, true_and]
      omega
  · next h err parsed =>
      constructor
      · intro impossible
        cases impossible
      · rintro ⟨ok, -⟩
        rw [ok.parse] at parsed
        cases parsed

def batchFormat : Framing.Format UInt8 where
  headerSize := v2HeaderSize
  size := announcedSize
  header_pos := by decide
  size_ge := by
    intro buf n announced
    obtain ⟨ok, same⟩ := (announcedSize_some_iff buf n).mp announced
    have large := ok.totalSize_ge
    show 61 ≤ n
    omega
  size_long := by
    intro buf n announced
    exact ((announcedSize_some_iff buf n).mp announced).1.long
  size_header := by
    intro buf buf' same
    have header : decodeHeader buf = decodeHeader buf' := by
      rw [← decodeHeader_take buf 61 (Nat.le_refl _)]
      rw [show buf.take 61 = buf'.take 61 from same, decodeHeader_take buf' 61 (Nat.le_refl _)]
    apply Option.ext
    intro n
    rw [announcedSize_some_iff, announcedSize_some_iff, header]
    constructor
    · rintro ⟨ok, size⟩
      exact ⟨headerOk_congr same ok, size⟩
    · rintro ⟨ok, size⟩
      exact ⟨headerOk_congr same.symm ok, size⟩

/-- A complete batch buffer: an acceptable header that announces exactly these bytes. -/
def IsBatch (batch : Bytes) : Prop := Framing.IsFrame batchFormat batch

theorem isBatch_iff (batch : Bytes) :
    IsBatch batch ↔ HeaderOk batch ∧ (batch.length : Int) = (decodeHeader batch).totalSize :=
  announcedSize_some_iff batch batch.length

instance (batch : Bytes) : Decidable (IsBatch batch) :=
  inferInstanceAs (Decidable (announcedSize batch = some batch.length))

theorem validate_ok (batch : Bytes) (accepted : validateBatchForAppend batch = none) :
    HeaderOk batch ∧ validateCRC batch = none ∧
      validateBatchAttributes (decodeHeader batch).attributes = none := by
  simp only [validateBatchForAppend] at accepted
  split at accepted
  · cases accepted
  · split at accepted
    · cases accepted
    · split at accepted
      · cases accepted
      · next h parsed =>
          obtain ⟨ok, rfl⟩ := (parse_ok_iff batch h).mp parsed
          split at accepted
          · cases accepted
          · next crc => exact ⟨ok, crc, accepted⟩

/-- What `Append` does to a batch before it writes it. -/
def stamp (batch : Bytes) (offset : Int) : Bytes :=
  setPartitionLeaderEpoch (rewriteBaseOffset batch offset) 0

section Stamp

variable (batch : Bytes) (offset : Int)

@[simp] theorem totalSize_with_base (h : BatchHeader) (base : Int) :
    BatchHeader.totalSize { h with baseOffset := base } = h.totalSize := rfl

section Long

variable (long : 61 ≤ batch.length)

include long

theorem rewriteBaseOffset_length :
    (rewriteBaseOffset batch offset).length = batch.length :=
  patch_length _ _ _ (by rw [putUintBE_length]; omega)

theorem stamp_length : (stamp batch offset).length = batch.length := by
  have inner := rewriteBaseOffset_length batch offset long
  rw [stamp, setPartitionLeaderEpoch, patch_length _ _ _ (by rw [putUintBE_length]; omega), inner]

theorem slice_stamp (low high : Nat) (apart : (8 ≤ low ∧ high ≤ 12) ∨ 16 ≤ low) :
    slice (stamp batch offset) low high = slice batch low high := by
  have inner := rewriteBaseOffset_length batch offset long
  rw [stamp, setPartitionLeaderEpoch,
    slice_patch_other _ _ _ _ _ (by rw [putUintBE_length]; omega) (by rw [putUintBE_length]; omega),
    rewriteBaseOffset,
    slice_patch_other _ _ _ _ _ (by rw [putUintBE_length]; omega) (by rw [putUintBE_length]; omega)]

theorem slice_stamp_base :
    slice (stamp batch offset) 0 8 = putUintBE 8 (offset % 2 ^ 64).toNat := by
  have inner := rewriteBaseOffset_length batch offset long
  have width := putUintBE_length 8 (offset % 2 ^ 64).toNat
  rw [stamp, setPartitionLeaderEpoch,
    slice_patch_other _ _ _ _ _ (by rw [putUintBE_length]; omega) (by omega), rewriteBaseOffset]
  have whole := slice_patch batch 0 (putUintBE 8 (offset % 2 ^ 64).toNat) (by omega)
  rwa [width] at whole

theorem drop_stamp (from' : Nat) (after : 16 ≤ from') :
    (stamp batch offset).drop from' = batch.drop from' := by
  have inner := rewriteBaseOffset_length batch offset long
  rw [stamp, setPartitionLeaderEpoch,
    drop_patch _ _ _ _ (by rw [putUintBE_length]; omega) (by rw [putUintBE_length]; omega),
    rewriteBaseOffset,
    drop_patch _ _ _ _ (by rw [putUintBE_length]; omega) (by rw [putUintBE_length]; omega)]

theorem decodeHeader_stamp :
    decodeHeader (stamp batch offset) = { decodeHeader batch with baseOffset := int64 offset } := by
  have base : int64 (uintBE (slice (stamp batch offset) 0 8)) = int64 offset := by
    have small : (offset % 2 ^ 64).toNat < 256 ^ 8 := by omega
    have nonneg : ((offset % 2 ^ 64).toNat : Int) = offset % 2 ^ 64 := by omega
    rw [slice_stamp_base batch offset long, uintBE_putUintBE, Nat.mod_eq_of_lt small, nonneg,
      int64_emod]
  have field := slice_stamp batch offset long
  unfold decodeHeader
  rw [base, field 8 12 (by decide), field 16 17 (by decide), field 17 21 (by decide),
    field 21 23 (by decide), field 23 27 (by decide), field 27 35 (by decide),
    field 35 43 (by decide), field 43 51 (by decide), field 51 53 (by decide),
    field 53 57 (by decide), field 57 61 (by decide)]

theorem baseOffset_stamp :
    (decodeHeader (stamp batch offset)).baseOffset = int64 offset := by
  rw [decodeHeader_stamp batch offset long]

theorem lastOffset_stamp :
    (decodeHeader (stamp batch offset)).lastOffset =
      int64 (int64 offset + (decodeHeader batch).lastOffsetDelta) := by
  rw [decodeHeader_stamp batch offset long]
  rfl

/-- The checksum covers bytes 21 and up, so neither rewrite can invalidate it. -/
theorem validateCRC_stamp :
    validateCRC (stamp batch offset) = validateCRC batch := by
  unfold validateCRC
  rw [stamp_length batch offset long, drop_stamp batch offset long v2BodyStart (by decide),
    slice_stamp batch offset long v2CRCOffset _ (.inr (by decide))]

/-- A stamped batch is what was sent except for bytes 0 to 7 and 12 to 15. -/
theorem stamp_getElem? (i : Nat) (outside : (8 ≤ i ∧ i < 12) ∨ 16 ≤ i) : (stamp batch offset)[i]? = batch[i]? := by
  have cut (buf : Bytes) : buf[i]? = (slice buf i (i + 1))[0]? := by
    simp [slice, List.getElem?_drop]
  rw [cut (stamp batch offset), cut batch, slice_stamp batch offset long i (i + 1) (by omega)]

end Long

theorem headerOk_stamp (ok : HeaderOk batch) : HeaderOk (stamp batch offset) := by
  have header := decodeHeader_stamp batch offset ok.long
  refine ⟨?_, ?_, ?_, ?_⟩
  · rw [stamp_length batch offset ok.long]
    exact ok.long
  · rw [header]
    exact ok.magic
  · rw [header]
    exact ok.lengthLow
  · rw [header]
    exact ok.lengthHigh

theorem isBatch_stamp (whole : IsBatch batch) : IsBatch (stamp batch offset) := by
  obtain ⟨ok, size⟩ := (isBatch_iff batch).mp whole
  refine (isBatch_iff _).mpr ⟨headerOk_stamp batch offset ok, ?_⟩
  rw [stamp_length batch offset ok.long, decodeHeader_stamp batch offset ok.long,
    totalSize_with_base]
  exact size

end Stamp

/-- A header that announces no more than itself, in front of `body` with its checksum. -/
def announce (body : Bytes) : Bytes :=
  putUintBE 8 0 ++ putUintBE 4 49 ++ putUintBE 4 0 ++ [2] ++ putUintBE 4 (crc32c body) ++ body

def minimalBody (lastOffsetDelta : Int) : Bytes :=
  putUintBE 2 0 ++ putUintBE 4 (lastOffsetDelta % 2 ^ 32).toNat ++ putUintBE 34 0

def minimalBatch (lastOffsetDelta : Int) : Bytes := announce (minimalBody lastOffsetDelta)

end KafkaWire.Storage
