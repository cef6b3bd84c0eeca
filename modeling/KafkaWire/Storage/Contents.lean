import KafkaWire.Storage.AppendEffects

/-! What the log files contain. A segment holds a list of batches when its file starts with
their concatenation and their offset ranges tile the range of the segment. -/

namespace KafkaWire.Storage

open Bytes Files Programs

variable {base next : Int} {batches : List Bytes} {batch : Bytes}

structure StoredAt (base : Int) (batch : Bytes) : Prop where
  whole : IsBatch batch
  crc : validateCRC batch = none
  baseOffset : (decodeHeader batch).baseOffset = base
  counted : 0 < offsetCount batch
  fits : base + offsetCount batch < 2 ^ 63

def Tiles : Int → List Bytes → Int → Prop
  | base, [], next => base = next
  | base, batch :: rest, next => StoredAt base batch ∧ Tiles (base + offsetCount batch) rest next

theorem Tiles.append_iff (base next : Int) (first second : List Bytes) :
    Tiles base (first ++ second) next ↔ ∃ middle, Tiles base first middle ∧ Tiles middle second next := by
  induction first generalizing base with
  | nil => simp [Tiles]
  | cons batch rest ih =>
    simp only [List.cons_append, Tiles, ih]
    constructor
    · rintro ⟨head, middle, front, back⟩
      exact ⟨middle, ⟨head, front⟩, back⟩
    · rintro ⟨middle, ⟨head, front⟩, back⟩
      exact ⟨head, middle, front, back⟩

section Tiled

variable (tiles : Tiles base batches next)

include tiles

theorem Tiles.snoc (stored : StoredAt next batch) :
    Tiles base (batches ++ [batch]) (next + offsetCount batch) :=
  (Tiles.append_iff _ _ _ _).mpr ⟨next, tiles, stored, rfl⟩

theorem Tiles.sum : next = base + (batches.map offsetCount).sum := by
  induction batches generalizing base with
  | nil => simpa [Tiles] using tiles.symm
  | cons batch rest ih =>
    rw [ih tiles.2, List.map_cons, List.sum_cons]
    omega

theorem Tiles.le : base ≤ next := by
  induction batches generalizing base with
  | nil => exact le_of_eq tiles
  | cons batch rest ih =>
    have counted := tiles.1.counted
    have later := ih tiles.2
    omega

theorem Tiles.mem :
    ∀ batch ∈ batches, ∃ first, base ≤ first ∧ first + offsetCount batch ≤ next ∧
      StoredAt first batch := by
  induction batches generalizing base with
  | nil => simp
  | cons head rest ih =>
    intro batch member
    rcases List.mem_cons.mp member with rfl | later
    · exact ⟨base, le_refl _, tiles.2.le, tiles.1⟩
    · have counted := tiles.1.counted
      obtain ⟨first, le, inside, stored⟩ := ih tiles.2 batch later
      exact ⟨first, by omega, inside, stored⟩

theorem Tiles.isBatch : ∀ batch ∈ batches, IsBatch batch := by
  intro batch member
  obtain ⟨first, -, -, stored⟩ := tiles.mem batch member
  exact stored.whole

theorem Tiles.nonempty (ahead : base ≠ next) : batches ≠ [] := by
  rintro rfl
  exact ahead tiles

end Tiled

theorem IsBatch.length_ge (whole : IsBatch batch) : 61 ≤ batch.length :=
  Framing.IsFrame.header_le batchFormat whole

theorem StoredAt.lastOffset (stored : StoredAt base batch)
    (low : 0 ≤ base) : (decodeHeader batch).lastOffset = base + offsetCount batch - 1 := by
  have counted := stored.counted
  have fits := stored.fits
  unfold offsetCount at counted fits ⊢
  rw [BatchHeader.lastOffset, stored.baseOffset, int64_of_range _ (by omega) (by omega)]
  omega

theorem Tiles.last_offset {last : Bytes}
    (tiles : Tiles base batches next) (low : 0 ≤ base) (isLast : batches.getLast? = some last) :
    int64 ((decodeHeader last).lastOffset + 1) = next := by
  obtain ⟨front, rfl⟩ := List.getLast?_eq_some_iff.mp isLast
  obtain ⟨middle, before, stored, same⟩ := (Tiles.append_iff _ _ _ _).mp tiles
  have high : middle + offsetCount last = next := same
  have reached := before.le
  have counted := stored.counted
  have fits := stored.fits
  rw [stored.lastOffset (le_trans low reached), int64_of_range _ (by omega) (by omega)]
  omega

theorem stamp_storedAt (batch : Bytes) (next : Int) (whole : IsBatch batch)
    (crc : validateCRC (stamp batch next) = none) (low : 0 ≤ next)
    (counted : 0 < offsetCount batch) (fits : next + offsetCount batch < 2 ^ 63) :
    StoredAt next (stamp batch next) ∧ offsetCount (stamp batch next) = offsetCount batch := by
  have same : offsetCount (stamp batch next) = offsetCount batch := by
    unfold offsetCount
    rw [decodeHeader_stamp batch next whole.length_ge]
  refine ⟨⟨isBatch_stamp batch next whole, crc, ?_, by rw [same]; exact counted,
    by rw [same]; exact fits⟩, same⟩
  exact (stamp_offsets batch next whole.length_ge low counted fits).1

def IndexOk (base : Int) (entries : List IndexEntry) (batches : List Bytes) : Prop :=
  ∀ entry ∈ entries, ∃ front back, batches = front ++ back ∧
    entry.position = front.flatten.length ∧ Tiles base front (base + entry.relOffset)

theorem IndexOk.append {entries : List IndexEntry}
    (ok : IndexOk base entries batches) (more : List Bytes) :
    IndexOk base entries (batches ++ more) := by
  intro entry member
  obtain ⟨front, back, rfl, position, tiles⟩ := ok entry member
  exact ⟨front, back ++ more, by rw [List.append_assoc], position, tiles⟩

/-- Segment `s` has `batches` in its file, from the front; bytes after them are out of
reach of a reader. -/
structure Holds (store : Store Int) (s : Segment) (batches : List Bytes) : Prop where
  tiles : Tiles s.baseOffset batches s.nextOffset
  size : s.logSize = batches.flatten.length
  file : ∃ file, store.lookup s.baseOffset = some file ∧ batches.flatten <+: file.data
  index : IndexOk s.baseOffset s.idx.entries batches

theorem Holds.congr {store after : Store Int} {s : Segment} (holds : Holds store s batches)
    (same : (after.lookup s.baseOffset).map File.data = (store.lookup s.baseOffset).map File.data) :
    Holds after s batches := by
  obtain ⟨file, found, inside⟩ := holds.file
  rw [found] at same
  obtain ⟨file', found', data⟩ := Option.map_eq_some_iff.mp same
  exact ⟨holds.tiles, holds.size, ⟨file', found', data ▸ inside⟩, holds.index⟩

end KafkaWire.Storage
