import KafkaWire.Storage.Reading

/-! The part of a Produce request that concerns one partition: a blob of concatenated
record batches is cut apart and appended. -/

namespace KafkaWire.Wire

open Bytes Storage

variable (data : Bytes)

def splitLoop (data : Bytes) : Nat → Nat → Except Err (List Bytes)
  | 0, _ => .ok []
  | fuel + 1, position =>
    if position < data.length then
      if position + v2HeaderSize > data.length then
        .error (.text "trailing bytes shorter than batch header")
      else
        match parseBatchHeader (slice data position (position + v2HeaderSize)) with
        | (_, some err) => .error err
        | (hdr, none) =>
          let stop := position + hdr.totalSize.toNat
          if stop > data.length then .error (.text "batch overruns Records buffer")
          else
            match splitLoop data fuel stop with
            | .error err => .error err
            | .ok rest => .ok (slice data position stop :: rest)
    else .ok []

def splitBatches (data : Bytes) : Except Err (List Bytes) := splitLoop data data.length 0

def errCodeNone : Int := 0
def errCodeCorruptMessage : Int := 2

def mapAppendError (_ : Err) : Int := errCodeCorruptMessage

structure ProduceResponse where
  errorCode : Int
  baseOffset : Int
  errorMessage : Option String
  deriving DecidableEq, Repr

def handleProduce (paused : Bool) (records : Bytes) (p : Partition) : ProduceResponse × Partition :=
  if records.length = 0 then (⟨errCodeCorruptMessage, -1, none⟩, p)
  else
    match splitBatches records with
    | .error err => (⟨errCodeCorruptMessage, -1, some err.message⟩, p)
    | .ok batches =>
      match append paused batches p with
      | .error err p' => (⟨mapAppendError err, -1, some err.message⟩, p')
      | .ok firstOffset p' => (⟨errCodeNone, firstOffset, none⟩, p')

theorem splitLoop_flatten (batches : List Bytes) (fuel position : Nat)
    (valid : ∀ batch ∈ batches, IsBatch batch) (shape : data.drop position = batches.flatten)
    (enough : batches.length ≤ fuel) : splitLoop data fuel position = .ok batches := by
  induction batches generalizing fuel position with
  | nil =>
    have atEnd : data.length ≤ position := List.drop_eq_nil_iff.mp shape
    cases fuel with
    | zero => rfl
    | succ fuel => rw [splitLoop, if_neg (by omega)]
  | cons batch rest ih =>
    cases fuel with
    | zero => simp at enough
    | succ fuel =>
      have whole := valid batch List.mem_cons_self
      have long := whole.length_ge
      have total := congrArg List.length shape
      rw [List.flatten_cons, List.length_append, List.length_drop] at total
      have stop : slice data position (position + batch.length) = batch := by
        rw [slice, List.drop_take, shape, List.flatten_cons, Nat.add_sub_cancel_left,
          List.take_left]
      have later : data.drop (position + batch.length) = rest.flatten := by
        rw [← List.drop_drop, shape, List.flatten_cons, List.drop_left]
      rw [splitLoop, if_pos (by omega), if_neg (by unfold v2HeaderSize; omega), slice_header,
        shape, List.flatten_cons, whole.parse_front _ 61 (Nat.le_refl _)]
      dsimp only
      rw [whole.totalSize, Int.toNat_natCast, if_neg (by omega),
        ih fuel (position + batch.length) (fun b member => valid b (List.mem_cons_of_mem _ member))
          later (by simpa using enough), stop]

theorem splitLoop_ok (fuel position : Nat) (batches : List Bytes)
    (split : splitLoop data fuel position = .ok batches) (enough : data.length ≤ fuel + position)
    (inside : position ≤ data.length) :
    data.drop position = batches.flatten ∧ ∀ batch ∈ batches, IsBatch batch := by
  induction fuel generalizing position batches with
  | zero =>
    cases split
    exact ⟨List.drop_eq_nil_of_le (by omega), by simp⟩
  | succ fuel ih =>
    rw [splitLoop] at split
    by_cases more : position < data.length
    · rw [if_pos more] at split
      by_cases short : position + v2HeaderSize > data.length
      · rw [if_pos short] at split
        cases split
      · rw [if_neg short, slice_header] at split
        rcases parsed : parseBatchHeader ((data.drop position).take 61) with ⟨hdr, _ | err⟩
        · rw [parsed] at split
          dsimp only at split
          have announced : batchFormat.size (data.drop position) = some hdr.totalSize.toNat := by
            show announcedSize _ = _
            rw [← announcedSize_header, announcedSize, parsed]
          have large : 61 ≤ hdr.totalSize.toNat := batchFormat.size_ge _ _ announced
          by_cases overrun : position + hdr.totalSize.toNat > data.length
          · rw [if_pos overrun] at split
            cases split
          · rw [if_neg overrun] at split
            cases tail : splitLoop data fuel (position + hdr.totalSize.toNat) with
            | error err =>
              rw [tail] at split
              cases split
            | ok rest =>
              rw [tail] at split
              cases split
              obtain ⟨shape, valid⟩ := ih _ rest tail (by omega) (by omega)
              have cut : slice data position (position + hdr.totalSize.toNat) =
                  (data.drop position).take hdr.totalSize.toNat := by
                rw [slice, List.drop_take, Nat.add_sub_cancel_left]
              rw [cut]
              constructor
              · rw [List.flatten_cons, ← shape, ← List.drop_drop, List.take_append_drop]
              · refine List.forall_mem_cons.mpr ⟨?_, valid⟩
                rw [IsBatch, Framing.IsFrame, Framing.size_take batchFormat _ _ large, announced,
                  List.length_take, List.length_drop, Nat.min_eq_left (by omega)]
        · rw [parsed] at split
          cases split
    · rw [if_neg more] at split
      cases split
      exact ⟨List.drop_eq_nil_of_le (by omega), by simp⟩

/-- A blob is cut apart exactly when it is a concatenation of whole batches. -/
theorem splitBatches_ok_iff (batches : List Bytes) :
    splitBatches data = .ok batches ↔
      data = batches.flatten ∧ ∀ batch ∈ batches, IsBatch batch := by
  constructor
  · intro split
    obtain ⟨shape, valid⟩ := splitLoop_ok data _ 0 batches split (by omega) (Nat.zero_le _)
    exact ⟨by rwa [List.drop_zero] at shape, valid⟩
  · rintro ⟨shape, valid⟩
    refine splitLoop_flatten data batches data.length 0 valid (by rwa [List.drop_zero]) ?_
    rw [shape]
    exact Framing.length_le_flatten batchFormat batches valid

/-- The pieces of a blob: each starts with an acceptable header that announces all of it. -/
structure Decomposes (data : Bytes) (pieces : List Bytes) : Prop where
  whole : pieces.flatten = data
  headed : ∀ piece ∈ pieces, ∃ hdr, parseBatchHeader (piece.take v2HeaderSize) = (hdr, none) ∧
    (piece.length : Int) = hdr.totalSize

theorem isBatch_headed_iff (piece : Bytes) :
    IsBatch piece ↔ ∃ hdr, parseBatchHeader (piece.take v2HeaderSize) = (hdr, none) ∧
      (piece.length : Int) = hdr.totalSize := by
  constructor
  · intro whole
    have parsed := whole.parse_front [] v2HeaderSize (Nat.le_refl _)
    rw [List.append_nil] at parsed
    exact ⟨decodeHeader piece, parsed, whole.totalSize.symm⟩
  · rintro ⟨hdr, parsed, size⟩
    have announced : announcedSize (piece.take v2HeaderSize) = some hdr.totalSize.toNat := by
      rw [announcedSize, parsed]
    have same : batchFormat.size (piece.take v2HeaderSize) = batchFormat.size piece :=
      Framing.size_take batchFormat piece v2HeaderSize (Nat.le_refl _)
    change batchFormat.size piece = some piece.length
    rw [← same]
    change announcedSize (piece.take v2HeaderSize) = some piece.length
    rw [announced, ← size, Int.toNat_natCast]

theorem splitBatches_decomposes_iff (pieces : List Bytes) :
    splitBatches data = .ok pieces ↔ Decomposes data pieces := by
  rw [splitBatches_ok_iff]
  constructor
  · rintro ⟨shape, valid⟩
    exact ⟨shape.symm, fun piece member => (isBatch_headed_iff piece).mp (valid piece member)⟩
  · rintro ⟨shape, headed⟩
    exact ⟨shape.symm, fun piece member => (isBatch_headed_iff piece).mpr (headed piece member)⟩

/-- Every turn of the loop moves forward, so it ends before the fuel does. -/
theorem splitLoop_enough (fuel position : Nat) (enough : data.length ≤ fuel + position) :
    splitLoop data (fuel + 1) position = splitLoop data fuel position := by
  induction fuel generalizing position with
  | zero => rw [splitLoop, splitLoop, if_neg (by omega)]
  | succ fuel ih =>
    rw [splitLoop, splitLoop]
    rcases parsed : parseBatchHeader (slice data position (position + v2HeaderSize)) with
      ⟨hdr, _ | err⟩
    · have large := ((parse_ok_iff _ hdr).mp parsed).1.totalSize_ge
      rw [← ((parse_ok_iff _ hdr).mp parsed).2] at large
      dsimp only
      rw [ih (position + hdr.totalSize.toNat) (by omega)]
    · rfl

/-- A blob is cut apart exactly when it decomposes into batches, into the one list of batches that
it decomposes into, and with any amount of fuel that reaches its end. -/
theorem splitBatches_cuts (data : Bytes) :
    ((∃ pieces, splitBatches data = .ok pieces) ↔ ∃ pieces, Decomposes data pieces) ∧
      (∀ pieces, splitBatches data = .ok pieces → Decomposes data pieces ∧
        ∀ other, Decomposes data other → other = pieces) ∧
      ∀ fuel, data.length ≤ fuel → splitLoop data fuel 0 = splitBatches data := by
  refine ⟨exists_congr (splitBatches_decomposes_iff data), fun pieces split => ⟨?_, ?_⟩, ?_⟩
  · exact (splitBatches_decomposes_iff data pieces).mp split
  · intro other decomposes
    have same := (splitBatches_decomposes_iff data other).mpr decomposes
    rw [split] at same
    exact (Except.ok.inj same).symm
  · intro fuel enough
    induction fuel, enough using Nat.le_induction with
    | base => rfl
    | succ fuel enough ih => rw [splitLoop_enough data fuel 0 enough, ih]

end KafkaWire.Wire
