import KafkaWire.Storage.NoPanic
import KafkaWire.Storage.Restart

/-! Fetches from a log that was opened on damaged files. Recovery cuts a damaged segment short, and
the offsets up to the next segment are gone. -/

namespace KafkaWire.Storage

open Bytes Files Programs Related

theorem Samples.boundary {base : Int} {batches : List Bytes} (i : Index)
    (samples : Samples base i.entries batches) (rel : Int) :
    ∃ front back, batches = front ++ back ∧
      (i.lookupPosition rel).getD 0 = front.flatten.length := by
  have start : ∃ front back, batches = front ++ back ∧ 0 = front.flatten.length :=
    ⟨[], batches, rfl, rfl⟩
  unfold Index.lookupPosition
  split
  · exact start
  · dsimp only
    split
    · exact start
    · split
      · next entry isEntry =>
          obtain ⟨front, batch, back, shape, position, -⟩ := mem_marks (samples.subset
            (List.mem_map_of_mem (f := IndexEntry.mark) (List.mem_of_getElem? isEntry)))
          exact ⟨front, batch :: back, shape, by simpa using position⟩
      · exact start

/-- The batches of the segment from the one on that a fetch of the offset stops at. -/
def Segment.reached (s : Segment) (world : World) (offset : Int) : List Bytes :=
  let start := (s.idx.lookupPosition (int64 (offset - s.baseOffset))).getD 0
  (survivors (((world.stores .log).data s.baseOffset).drop start)).dropWhile
    fun batch => !stopsAt offset batch

section Opened

variable {disk after : World} {bases : List Int} {found : List (Segment × List Bytes)} {s : Segment}

/-- In a recovered segment the scan starts at a boundary, whatever the offsets in it are. -/
theorem RecoveredAll.laid (all : RecoveredAll disk bases found after)
    (member : s ∈ found.map Prod.fst) (offset : Int) :
    ∃ front, Laid after s front (s.reached after offset) ∧
      (∀ batch ∈ s.reached after offset, IsBatch batch) ∧
      s.findBatchAt after offset = .ok (s.logSize - (s.reached after offset).flatten.length) := by
  obtain ⟨⟨s', kept⟩, isOne, rfl⟩ := List.mem_map.mp member
  obtain ⟨base, -, recovered⟩ := forall₂_mem_right all.recovered _ isOne
  obtain rfl := recovered.baseOffset
  dsimp only at recovered ⊢
  obtain ⟨file, isFile, data⟩ := Option.map_eq_some_iff.mp (all.kept _ isOne)
  dsimp only at isFile data
  have valid : ∀ batch ∈ kept, IsBatch batch ∧ crcOk batch = true :=
    fun batch inside => survivors_frames _ batch (recovered.front.subset inside)
  have stored : (after.stores .log).data s'.baseOffset = kept.flatten := by
    rw [Store.data_of_lookup _ _ file isFile, data]
  have bytes : (after.stores .log).data s'.logFile.key = kept.flatten := by
    rw [recovered.keyed.log, stored]
  have size := recovered.size
  cases none' : kept with
  | nil =>
    rw [none'] at stored bytes size
    have nothing : s'.reached after offset = [] := by
      rw [Segment.reached, stored, List.flatten_nil, List.drop_nil]
      rfl
    rw [nothing]
    refine ⟨[], ⟨⟨[], bytes⟩, size⟩, by simp, ?_⟩
    have zero : s'.logSize = 0 := size
    simp [Segment.findBatchAt, zero, Segment.findBatchLoop]
  | cons head more =>
    have filled : (disk.stores .log).data s'.baseOffset ≠ [] := by
      intro empty
      have front := recovered.front
      rw [empty, none'] at front
      cases List.prefix_nil.mp front
    obtain ⟨front, back, rfl, start⟩ := (recovered.samples.mp (.inr filled)).boundary s'.idx
      (int64 (offset - s'.baseOffset))
    have valid' : ∀ batch ∈ back, IsBatch batch ∧ crcOk batch = true :=
      fun batch inside => valid batch (List.mem_append_right _ inside)
    have reached : s'.reached after offset = back.dropWhile fun batch => !stopsAt offset batch := by
      rw [Segment.reached, start, stored, List.flatten_append, List.drop_left, survivors_flatten back valid']
    obtain ⟨passed, shape⟩ := List.dropWhile_suffix (l := back) fun batch => !stopsAt offset batch
    have many : back.length ≤ s'.logSize := by
      have frames := Framing.length_le_flatten batchFormat (front ++ back)
        fun batch inside => (valid batch inside).1
      rw [List.length_append] at frames
      omega
    rw [reached]
    refine ⟨front ++ passed, ⟨⟨[], ?_⟩, ?_⟩, fun batch inside => ?_, ?_⟩
    · rw [bytes, List.append_nil, List.append_assoc, shape]
    · rw [size, List.append_assoc, shape]
    · exact (valid' batch (by rw [← shape]; exact List.mem_append_right _ inside)).1
    · rw [Segment.findBatchAt, start]
      exact findBatchLoop_scan offset [] front back s'.logSize _ (by rw [bytes, List.append_nil]) size
        (fun batch inside => (valid' batch inside).1) many (by simp [v2HeaderSize])

theorem RecoveredAll.fetchSegment (all : RecoveredAll disk bases found after)
    (member : s ∈ found.map Prod.fst) (small : s.logSize < 2 ^ 62) (offset maxBytes : Int)
    (least : 61 ≤ maxBytes) (most : maxBytes ≤ maxAlloc) :
    (∀ batch ∈ answer (s.reached after offset) maxBytes.toNat, IsBatch batch) ∧
      ∃ first, fetchSegment after s offset maxBytes =
          .ok ((answer (s.reached after offset) maxBytes.toNat).flatten, first) ∧
        (s.reached after offset = [] → first = offset) := by
  obtain ⟨front, laid, valid, located⟩ := all.laid member offset
  cases reached : s.reached after offset with
  | nil =>
    rw [reached] at located
    refine ⟨by rintro _ ⟨⟩, offset, ?_, fun _ => rfl⟩
    rw [Storage.fetchSegment, located]
    simp only [Segment.readAt, List.flatten_nil, List.length_nil, Nat.sub_zero, ge_iff_le, le_refl,
      if_true, List.isEmpty_nil]
    rfl
  | cons batch rest =>
    rw [reached] at laid valid located
    obtain ⟨more, answered, inside⟩ := answer_cons batch rest maxBytes.toNat
    refine ⟨fun b isOne => valid b ?_, _, laid.fetchSegment valid small located least most,
      by rintro ⟨⟩⟩
    rw [answered] at isOne
    exact ((List.prefix_cons_inj batch).mpr inside).subset isOne

end Opened

/-- What a fetch below the high watermark should return: an error, or batches of which one reaches
the offset. -/
def Progress (log : Log) (world : World) (offset maxBytes : Int) : Prop :=
  (∃ fault, fetchAt log world offset maxBytes = .error fault) ∨
    ∃ (batches : List Bytes) (first : Int),
      fetchAt log world offset maxBytes = .ok (batches.flatten, first) ∧
      (∀ b ∈ batches, IsBatch b) ∧ ∃ b ∈ batches, offset ≤ (decodeHeader b).lastOffset

end KafkaWire.Storage
