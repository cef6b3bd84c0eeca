import KafkaWire.Storage.Contents

/-! Reading a segment: the index narrows the search down to a batch boundary, the scan
walks on to the batch that contains the offset, and a read is cut back to whole batches. -/

namespace KafkaWire.Storage

open Bytes Files Programs BinarySearch

variable {front tail : List Bytes} {target : Int} {batch : Bytes}

def fromOffset : Int → List Bytes → Int → List Bytes
  | _, [], _ => []
  | base, batch :: rest, target =>
    if target < base + offsetCount batch then batch :: rest
    else fromOffset (base + offsetCount batch) rest target

theorem fromOffset_suffix (base : Int) (batches : List Bytes) (target : Int) :
    fromOffset base batches target <:+ batches := by
  induction batches generalizing base with
  | nil => exact List.suffix_rfl
  | cons batch rest ih =>
    rw [fromOffset]
    split
    · exact List.suffix_rfl
    · exact (ih _).trans (List.suffix_cons batch rest)

theorem fromOffset_append {base middle : Int} {back : List Bytes}
    (tiles : Tiles base front middle) (past : middle ≤ target) :
    fromOffset base (front ++ back) target = fromOffset middle back target := by
  induction front generalizing base with
  | nil =>
    rw [show base = middle from tiles]
    rfl
  | cons batch rest ih =>
    have le := tiles.2.le
    rw [List.cons_append, fromOffset, if_neg (by omega), ih tiles.2]

theorem fromOffset_cons {base next : Int} {batches : List Bytes}
    (tiles : Tiles base batches next) (low : base ≤ target) (high : target < next) :
    ∃ front batch rest first, batches = front ++ batch :: rest ∧
      fromOffset base batches target = batch :: rest ∧ Tiles base front first ∧
      Tiles first (batch :: rest) next ∧ first ≤ target ∧ target < first + offsetCount batch := by
  induction batches generalizing base with
  | nil =>
    have same : base = next := tiles
    omega
  | cons batch rest ih =>
    rw [fromOffset]
    split
    · next inside => exact ⟨[], batch, rest, base, rfl, rfl, rfl, tiles, low, inside⟩
    · next outside =>
        obtain ⟨front, found, rest', first, shape, same, tiles', back, low', high'⟩ :=
          ih tiles.2 (by omega)
        exact ⟨batch :: front, found, rest', first, by rw [shape, List.cons_append], same,
          ⟨tiles.1, tiles'⟩, back, low', high'⟩

section Scan

variable {world : World} {s : Segment} {batches : List Bytes}

theorem Index.lookupPosition_boundary (i : Index) (base target : Int)
    (ok : IndexOk base i.entries batches) (low : base ≤ target) :
    ∃ front back first, batches = front ++ back ∧
      (i.lookupPosition (target - base)).getD 0 = front.flatten.length ∧
      Tiles base front first ∧ first ≤ target := by
  have start : ∃ front back first, batches = front ++ back ∧ 0 = front.flatten.length ∧
      Tiles base front first ∧ first ≤ target := ⟨[], batches, base, rfl, rfl, rfl, low⟩
  unfold Index.lookupPosition
  split
  · exact start
  · dsimp only
    generalize found : search i.entries.length _ = idx
    split
    · exact start
    · next positive =>
        split
        · next entry isEntry =>
            obtain ⟨-, below⟩ :=
              search_below i.entries.length (i.isPast ((target - base) % 2 ^ 32).toNat)
            rw [found, Index.isPast, isEntry] at below
            have bounded : ¬ entry.relOffset > ((target - base) % 2 ^ 32).toNat := by
              simpa [positive] using below
            obtain ⟨front, back, shape, position, tiles⟩ :=
              ok entry (List.mem_of_getElem? isEntry)
            exact ⟨front, back, _, shape, position, tiles, by omega⟩
        · exact start

theorem IsBatch.parse_front (whole : IsBatch batch) (rest : Bytes) (limit : Nat)
    (long : 61 ≤ limit) :
    parseBatchHeader ((batch ++ rest).take limit) = (decodeHeader batch, none) := by
  have same : ((batch ++ rest).take limit).take 61 = batch.take 61 := by
    rw [List.take_take, Nat.min_eq_left long, List.take_append_of_le_length whole.length_ge]
  have header : decodeHeader ((batch ++ rest).take limit) = decodeHeader batch := by
    rw [← decodeHeader_take _ 61 (Nat.le_refl _), same, decodeHeader_take _ 61 (Nat.le_refl _)]
  have ok := headerOk_congr same.symm ((isBatch_iff batch).mp whole).1
  rw [ok.parse, header]

theorem IsBatch.totalSize (whole : IsBatch batch) : (decodeHeader batch).totalSize = batch.length :=
  ((isBatch_iff batch).mp whole).2.symm

/-- Where the scan stops: at a batch that has the offset, or that begins behind it. -/
def stopsAt (target : Int) (batch : Bytes) : Bool :=
  target < (decodeHeader batch).baseOffset ∨ target ≤ (decodeHeader batch).lastOffset

/-- The scan, started at a boundary, stops at the first batch where it should. -/
theorem findBatchLoop_scan (target : Int) (junk : Bytes) (front back : List Bytes) (fuel : Nat)
    (buffer : Bytes)
    (bytes : (world.stores .log).data s.logFile.key = (front ++ back).flatten ++ junk)
    (size : s.logSize = (front ++ back).flatten.length) (valid : ∀ batch ∈ back, IsBatch batch)
    (enough : back.length ≤ fuel) (width : buffer.length = 61) :
    s.findBatchLoop world target fuel buffer front.flatten.length =
      .ok (s.logSize - (back.dropWhile fun batch => !stopsAt target batch).flatten.length) := by
  induction back generalizing front fuel buffer with
  | nil =>
    have full : ¬ front.flatten.length < s.logSize := by
      rw [size, List.append_nil]
      exact lt_irrefl _
    cases fuel with
    | zero => rfl
    | succ fuel =>
      rw [Segment.findBatchLoop, if_neg full]
      rfl
  | cons batch rest ih =>
    cases fuel with
    | zero => simp at enough
    | succ fuel =>
      obtain ⟨whole, valid'⟩ := List.forall_mem_cons.mp valid
      have long := whole.length_ge
      have inside : front.flatten.length < s.logSize := by
        rw [size, List.flatten_append, List.flatten_cons, List.length_append,
          List.length_append]
        omega
      have got : ((world.stores .log).data s.logFile.key).drop front.flatten.length =
          batch ++ (rest.flatten ++ junk) := by
        rw [bytes, List.flatten_append, List.flatten_cons, List.append_assoc, List.drop_left,
          List.append_assoc]
      have filled : ((batch ++ (rest.flatten ++ junk)).take 61).length = 61 := by
        rw [List.length_take, List.length_append]
        omega
      rw [Segment.findBatchLoop, if_pos inside]
      simp only [got, v2HeaderSize, filled]
      rw [show buffer.drop 61 = [] from List.drop_eq_nil_of_le (by omega), List.append_nil,
        whole.parse_front _ 61 (Nat.le_refl _)]
      simp only [whole.totalSize, Int.toNat_natCast]
      have here : .ok front.flatten.length =
          (.ok (s.logSize - (batch :: rest).flatten.length) : Except Fault Nat) := by
        rw [size, List.flatten_append, List.length_append, Nat.add_sub_cancel]
      cases stops : stopsAt target batch with
      | true =>
        rw [List.dropWhile_cons_of_neg (by simp [stops])]
        rw [stopsAt, decide_eq_true_eq] at stops
        split
        · exact here
        · next apart =>
            rw [if_pos (stops.elim id fun high => lt_of_not_ge fun low => apart ⟨low, high⟩)]
            exact here
      | false =>
        rw [List.dropWhile_cons_of_pos (by simp [stops])]
        rw [stopsAt, decide_eq_false_iff_not] at stops
        rw [if_neg fun both => stops (.inr both.2), if_neg fun past => stops (.inl past)]
        have onwards := ih (front ++ [batch]) fuel ((batch ++ (rest.flatten ++ junk)).take 61)
          (by rw [bytes]; simp) (by rw [size]; simp) valid' (by simpa using enough) filled
        rw [← onwards]
        simp

theorem fromOffset_eq_dropWhile {first next : Int} {back : List Bytes}
    (tiles : Tiles first back next) (positive : 0 ≤ first) (low : first ≤ target) :
    fromOffset first back target = back.dropWhile fun batch => !stopsAt target batch := by
  induction back generalizing first with
  | nil => rfl
  | cons batch rest ih =>
    obtain ⟨stored, tiles'⟩ := tiles
    have stops : stopsAt target batch = decide (target < first + offsetCount batch) := by
      rw [stopsAt, stored.baseOffset, stored.lastOffset positive]
      exact decide_eq_decide.mpr (by omega)
    rw [fromOffset]
    split
    · next here => rw [List.dropWhile_cons_of_neg (by simp [stops, here])]
    · next past =>
        rw [List.dropWhile_cons_of_pos (by simp [stops, past])]
        exact ih tiles' (add_nonneg positive stored.counted.le) (not_lt.mp past)

/-- The scan, started at a boundary at or before the target, stops at the batch that has it. -/
theorem findBatchLoop_eq (target : Int) (junk : Bytes) (front back : List Bytes) (first next : Int)
    (fuel : Nat) (buffer : Bytes)
    (bytes : (world.stores .log).data s.logFile.key = (front ++ back).flatten ++ junk)
    (size : s.logSize = (front ++ back).flatten.length) (tiles : Tiles first back next)
    (positive : 0 ≤ first) (low : first ≤ target)
    (enough : back.length ≤ fuel) (width : buffer.length = 61) :
    s.findBatchLoop world target fuel buffer front.flatten.length =
      .ok (s.logSize - (fromOffset first back target).flatten.length) := by
  rw [fromOffset_eq_dropWhile tiles positive low]
  exact findBatchLoop_scan target junk front back fuel buffer bytes size tiles.isBatch enough width

theorem Holds.bytes (holds : Holds (world.stores .log) s batches) (keyed : s.Keyed) :
    ∃ junk, (world.stores .log).data s.logFile.key = batches.flatten ++ junk := by
  obtain ⟨file, found, junk, data⟩ := holds.file
  refine ⟨junk, ?_⟩
  rw [keyed.log, Store.data_of_lookup _ _ file found, data]

theorem Holds.findBatchAt (holds : Holds (world.stores .log) s batches) (keyed : s.Keyed)
    (positive : 0 ≤ s.baseOffset) (bounded : s.nextOffset < 2 ^ 63) (target : Int)
    (low : s.baseOffset ≤ target) (high : target < s.nextOffset) :
    s.findBatchAt world target =
      .ok (s.logSize - (fromOffset s.baseOffset batches target).flatten.length) := by
  obtain ⟨junk, bytes⟩ := holds.bytes keyed
  obtain ⟨front, back, first, rfl, start, tiles, before⟩ :=
    s.idx.lookupPosition_boundary s.baseOffset target holds.index low
  have difference : int64 (target - s.baseOffset) = target - s.baseOffset :=
    int64_of_range _ (by omega) (by omega)
  obtain ⟨middle, front', back'⟩ := (Tiles.append_iff _ _ _ _).mp holds.tiles
  have same : middle = first := by rw [front'.sum, tiles.sum]
  subst same
  have many : back.length ≤ s.logSize := by
    have frames := Framing.length_le_flatten batchFormat (front ++ back) holds.tiles.isBatch
    rw [holds.size]
    rw [List.length_append] at frames
    omega
  rw [Segment.findBatchAt, difference, start, fromOffset_append tiles before]
  exact findBatchLoop_eq target junk front back middle s.nextOffset s.logSize _ bytes holds.size
    back' (le_trans positive tiles.le) before many (by simp [v2HeaderSize])

/-- `tail` is what the file of the segment holds behind `front`, as far as it can be read. -/
structure Laid (world : World) (s : Segment) (front tail : List Bytes) : Prop where
  bytes : ∃ junk, (world.stores .log).data s.logFile.key = (front ++ tail).flatten ++ junk
  size : s.logSize = (front ++ tail).flatten.length

theorem Holds.laid (holds : Holds (world.stores .log) s batches) (keyed : s.Keyed)
    (shape : batches = front ++ tail) : Laid world s front tail :=
  ⟨shape ▸ holds.bytes keyed, shape ▸ holds.size⟩

theorem Laid.readAt_tail (laid : Laid world s front tail)
    (small : s.logSize < 2 ^ 62) (maxBytes : Int) :
    s.readAt world (s.logSize - tail.flatten.length) maxBytes =
      if tail.flatten.length = 0 then .ok []
      else
        let want : Int :=
          if int64 (front.flatten.length + maxBytes) > s.logSize then tail.flatten.length
          else maxBytes
        if want < 0 ∨ want > maxAlloc then .error .panic
        else .ok (tail.flatten.take want.toNat) := by
  obtain ⟨junk, bytes⟩ := laid.bytes
  have size : s.logSize = front.flatten.length + tail.flatten.length := by
    rw [laid.size, List.flatten_append, List.length_append]
  have position : s.logSize - tail.flatten.length = front.flatten.length := by omega
  have read : ((world.stores .log).data s.logFile.key).drop front.flatten.length =
      tail.flatten ++ junk := by
    rw [bytes, List.flatten_append, List.append_assoc, List.drop_left]
  rw [Segment.readAt, position]
  by_cases empty : tail.flatten.length = 0
  · rw [if_pos (by omega), if_pos empty]
  · rw [if_neg (by omega), if_neg empty]
    dsimp only
    have rest : (s.logSize : Int) - front.flatten.length = tail.flatten.length := by omega
    rw [rest, read]
    by_cases cut : int64 (front.flatten.length + maxBytes) > s.logSize
    · simp only [if_pos cut, Int.toNat_natCast, List.take_left, List.take_length]
    · simp only [if_neg cut]
      by_cases bad : maxBytes < 0 ∨ maxBytes > maxAlloc
      · rw [if_pos bad, if_pos bad]
      · rw [if_neg bad, if_neg bad, List.take_append_of_le_length]
        simp only [maxAlloc] at bad
        rw [int64_of_range _ (by omega) (by omega)] at cut
        omega

end Scan

section Trim

theorem slice_header (buf : Bytes) (position : Nat) :
    slice buf position (position + v2HeaderSize) = (buf.drop position).take 61 := by
  rw [slice, List.drop_take]
  congr 1
  unfold v2HeaderSize
  omega

theorem announcedSize_header (buf : Bytes) : announcedSize (buf.take 61) = announcedSize buf :=
  Framing.size_take batchFormat buf 61 (Nat.le_refl _)

theorem trimLoop_eq (buf : Bytes) (fuel position : Nat) (inside : position ≤ buf.length) :
    trimLoop buf fuel position = position +
      (Framing.peel batchFormat (fun _ => true) fuel (buf.drop position)).flatten.length := by
  induction fuel generalizing position with
  | zero => rfl
  | succ fuel ih =>
    have announced := announcedSize_header (buf.drop position)
    rw [trimLoop, Framing.peel]
    by_cases header : position + 61 ≤ buf.length
    · rw [if_pos (by omega), if_neg (by unfold v2HeaderSize; omega), slice_header]
      rcases parsed : parseBatchHeader ((buf.drop position).take 61) with ⟨h, _ | err⟩
      · have size : batchFormat.size (buf.drop position) = some h.totalSize.toNat := by
          show announcedSize _ = _
          rw [← announced, announcedSize, parsed]
        rw [size]
        dsimp only
        by_cases whole : position + h.totalSize.toNat ≤ buf.length
        · have room : h.totalSize.toNat ≤ (buf.drop position).length := by
            rw [List.length_drop]
            omega
          rw [if_neg (by omega), ih _ whole, if_pos ⟨room, rfl⟩, List.flatten_cons,
            List.length_append, List.length_take, Nat.min_eq_left room, List.drop_drop]
          omega
        · rw [if_pos (by omega), if_neg]
          · rfl
          · rintro ⟨room, -⟩
            rw [List.length_drop] at room
            omega
      · have size : batchFormat.size (buf.drop position) = none := by
          show announcedSize _ = _
          rw [← announced, announcedSize, parsed]
        rw [size]
        rfl
    · have none : batchFormat.size (buf.drop position) = none := by
        apply Framing.size_short
        rw [List.length_drop]
        show _ < 61
        omega
      rw [none]
      split
      · rw [if_pos (by unfold v2HeaderSize; omega)]
        rfl
      · rfl

theorem trimToBatchBoundary_eq (buf : Bytes) :
    trimToBatchBoundary buf =
      (Framing.peel batchFormat (fun _ => true) buf.length buf).flatten := by
  rw [trimToBatchBoundary, trimLoop_eq buf buf.length 0 (Nat.zero_le _), List.drop_zero, Nat.zero_add]
  exact (List.prefix_iff_eq_take.mp (Framing.peel_prefix _ _ _ _)).symm

theorem trimToBatchBoundary_short {buf : Bytes} (short : buf.length < 61) :
    trimToBatchBoundary buf = [] := by
  unfold trimToBatchBoundary
  cases buf with
  | nil => rfl
  | cons byte rest =>
    rw [List.length_cons, trimLoop, if_pos (by simp), if_pos (by unfold v2HeaderSize; omega)]
    rfl

theorem trimToBatchBoundary_take (batches : List Bytes) (limit : Nat)
    (valid : ∀ batch ∈ batches, IsBatch batch) :
    trimToBatchBoundary (batches.flatten.take limit) = (Framing.fitting batches limit).flatten := by
  have kept := Framing.fitting_prefix batches limit
  have count := Framing.length_le_flatten batchFormat (Framing.fitting batches limit)
    fun batch member => valid batch (kept.subset member)
  have short := Framing.fitting_length_le batches limit
  have inside : (Framing.fitting batches limit).flatten.length ≤ batches.flatten.length :=
    (List.IsPrefix.flatten kept).length_le
  rw [trimToBatchBoundary_eq, Framing.peel_take batchFormat (fun _ => true) batches limit _
    (fun batch member => ⟨valid batch member, rfl⟩)]
  rw [List.length_take]
  omega

end Trim

def answer (batches : List Bytes) (limit : Nat) : List Bytes :=
  match Framing.fitting batches limit with
  | [] => batches.take 1
  | kept => kept

theorem answer_cons (batch : Bytes) (rest : List Bytes) (limit : Nat) :
    ∃ more, answer (batch :: rest) limit = batch :: more ∧ more <+: rest := by
  have kept := Framing.fitting_prefix (batch :: rest) limit
  unfold answer
  split
  · exact ⟨[], rfl, List.nil_prefix⟩
  · next other nonempty =>
      cases shape : Framing.fitting (batch :: rest) limit with
      | nil => exact absurd shape nonempty
      | cons first more =>
        rw [shape, List.cons_prefix_cons] at kept
        exact ⟨more, by rw [kept.1], kept.2⟩

section Fetch

variable {world : World} {s : Segment} {batches : List Bytes}

theorem Laid.readAt_limited (laid : Laid world s front tail)
    (small : s.logSize < 2 ^ 62) (maxBytes : Int) (low : 0 ≤ maxBytes) (high : maxBytes ≤ maxAlloc) :
    s.readAt world (s.logSize - tail.flatten.length) maxBytes =
      .ok (tail.flatten.take maxBytes.toNat) := by
  have size : s.logSize = front.flatten.length + tail.flatten.length := by
    rw [laid.size, List.flatten_append, List.length_append]
  rw [laid.readAt_tail small]
  unfold maxAlloc at high ⊢
  rw [int64_of_range _ (by omega) (by omega)]
  split
  · next empty => rw [List.eq_nil_of_length_eq_zero empty, List.take_nil]
  · dsimp only
    split
    · next cut =>
        rw [if_neg (by omega), Int.toNat_natCast, List.take_length, List.take_of_length_le (by omega)]
    · rw [if_neg (by omega)]

theorem IsBatch.length_le (whole : IsBatch batch) : (batch.length : Int) ≤ maxAlloc := by
  have high := ((isBatch_iff batch).mp whole).1.lengthHigh
  have total := whole.totalSize
  unfold BatchHeader.totalSize at total
  unfold maxAlloc
  omega

/-- A fetch returns whole batches, from the one on that the scan has stopped at. -/
theorem Laid.fetchSegment {rest : List Bytes}
    (laid : Laid world s front (batch :: rest)) (valid : ∀ b ∈ batch :: rest, IsBatch b)
    (small : s.logSize < 2 ^ 62) {offset maxBytes : Int}
    (located : s.findBatchAt world offset = .ok (s.logSize - (batch :: rest).flatten.length))
    (least : 61 ≤ maxBytes) (most : maxBytes ≤ maxAlloc) :
    fetchSegment world s offset maxBytes =
      .ok ((answer (batch :: rest) maxBytes.toNat).flatten, (decodeHeader batch).baseOffset) := by
  have whole := valid batch List.mem_cons_self
  have long := whole.length_ge
  have read := laid.readAt_limited small
  have parsed (limit : Nat) (enough : 61 ≤ limit) :
      parseBatchHeader (((batch :: rest).flatten).take limit) = (decodeHeader batch, none) := by
    rw [List.flatten_cons]
    exact whole.parse_front rest.flatten limit enough
  have nonempty : (((batch :: rest).flatten).take maxBytes.toNat).isEmpty = false := by
    rw [List.isEmpty_eq_false_iff, ← List.length_pos_iff, List.length_take, List.flatten_cons,
      List.length_append]
    omega
  rw [Storage.fetchSegment, located]
  simp only [read maxBytes (by omega) most, nonempty, Bool.false_eq_true, if_false]
  rw [trimToBatchBoundary_take (batch :: rest) maxBytes.toNat valid]
  obtain ⟨more, same, -⟩ := answer_cons batch rest maxBytes.toNat
  unfold answer at same ⊢
  cases kept : Framing.fitting (batch :: rest) maxBytes.toNat with
  | nil =>
    rw [if_pos (show ([] : List Bytes).flatten.isEmpty = true from rfl), fetchFirstBatch,
      parsed _ (by omega)]
    dsimp only
    rw [whole.totalSize, read _ (by omega) whole.length_le]
    dsimp only
    rw [Int.toNat_natCast, List.flatten_cons, List.take_left, if_neg (lt_irrefl _)]
    have alone := whole.parse_front [] batch.length long
    rw [List.append_nil, List.take_length] at alone
    rw [alone]
    simp
  | cons head tail =>
    rw [kept] at same
    obtain ⟨rfl, rfl⟩ := List.cons.inj same
    have some : ((head :: tail).flatten).isEmpty = false := by
      rw [List.isEmpty_eq_false_iff, ← List.length_pos_iff, List.flatten_cons, List.length_append]
      omega
    have header := whole.parse_front tail.flatten _ (show 61 ≤ ((head :: tail).flatten).length by
      rw [List.flatten_cons, List.length_append]; omega)
    rw [List.flatten_cons, List.take_length] at header
    simp only [some, Bool.false_eq_true, if_false]
    rw [List.flatten_cons, header]

/-- A fetch inside a segment returns whole batches, from the one that has the offset on. -/
theorem Holds.fetchSegment (holds : Holds (world.stores .log) s batches) (keyed : s.Keyed)
    (positive : 0 ≤ s.baseOffset) (bounded : s.nextOffset < 2 ^ 63) (small : s.logSize < 2 ^ 62)
    (offset maxBytes : Int) (low : s.baseOffset ≤ offset) (high : offset < s.nextOffset)
    (least : 61 ≤ maxBytes) (most : maxBytes ≤ maxAlloc) :
    ∃ batch rest, fromOffset s.baseOffset batches offset = batch :: rest ∧
      fetchSegment world s offset maxBytes =
        .ok ((answer (batch :: rest) maxBytes.toNat).flatten, (decodeHeader batch).baseOffset) := by
  obtain ⟨front, batch, rest, first, shape, found, -, -, -, -⟩ :=
    fromOffset_cons holds.tiles low high
  have valid : ∀ b ∈ batch :: rest, IsBatch b := fun b member =>
    holds.tiles.isBatch b (by rw [shape]; exact List.mem_append_right _ member)
  have located := holds.findBatchAt keyed positive bounded offset low high
  rw [found] at located
  exact ⟨batch, rest, found, (holds.laid keyed shape).fetchSegment valid small located least most⟩

end Fetch

end KafkaWire.Storage
