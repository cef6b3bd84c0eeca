import KafkaWire.Storage.Contents

/-! All positions that an index could name. The index samples some of them, in order, so what it
says is right and its entries are ascending. -/

namespace KafkaWire.Storage

open Bytes Files Programs

variable {entries : List IndexEntry}

def marks (base : Int) : Nat → List Bytes → List (Int × Nat)
  | _, [] => []
  | position, batch :: rest =>
    (int64 ((decodeHeader batch).baseOffset - base), position) ::
      marks base (position + batch.length) rest

def IndexEntry.mark (entry : IndexEntry) : Int × Nat := (entry.relOffset, entry.position)

def Samples (base : Int) (entries : List IndexEntry) (batches : List Bytes) : Prop :=
  (entries.map IndexEntry.mark).Sublist (marks base 0 batches)

theorem marks_append (base : Int) (position : Nat) (first second : List Bytes) :
    marks base position (first ++ second) =
      marks base position first ++ marks base (position + first.flatten.length) second := by
  induction first generalizing position with
  | nil => rfl
  | cons batch rest ih =>
    rw [List.cons_append, marks, marks, ih, List.cons_append, List.flatten_cons,
      List.length_append, Nat.add_assoc]

theorem Samples.nil (base : Int) (batches : List Bytes) : Samples base [] batches :=
  List.nil_sublist _

theorem Samples.append {base : Int} {batches : List Bytes}
    (samples : Samples base entries batches) (more : List Bytes) :
    Samples base entries (batches ++ more) := by
  rw [Samples, marks_append]
  exact samples.trans (List.sublist_append_left _ _)

theorem Sampled.samples {before after : Index} {base : Int} {batches : List Bytes} {batch : Bytes}
    {position : Nat}
    (sampled : Sampled before after (int64 ((decodeHeader batch).baseOffset - base)) position)
    (samples : Samples base before.entries batches) (size : position = batches.flatten.length) :
    Samples base after.entries (batches ++ [batch]) := by
  rcases sampled.2 with same | ⟨low, -, -, -, more⟩
  · rw [same]
    exact samples.append [batch]
  · have mark : IndexEntry.mark ⟨(int64 ((decodeHeader batch).baseOffset - base)).toNat,
        (position : Int).toNat⟩ = (int64 ((decodeHeader batch).baseOffset - base), position) := by
      rw [IndexEntry.mark, Int.toNat_of_nonneg low, Int.toNat_natCast]
    rw [Samples, more, List.map_append, List.map_singleton, mark, marks_append, Nat.zero_add, ← size]
    exact List.Sublist.append samples (List.Sublist.refl _)

theorem mem_marks {base rel : Int} {start position : Nat} {batches : List Bytes}
    (member : (rel, position) ∈ marks base start batches) :
    ∃ front batch back, batches = front ++ batch :: back ∧
      position = start + front.flatten.length ∧
      rel = int64 ((decodeHeader batch).baseOffset - base) := by
  induction batches generalizing start with
  | nil => cases member
  | cons batch rest ih =>
    rcases List.mem_cons.mp member with same | later
    · obtain ⟨rfl, rfl⟩ := Prod.mk.inj same
      exact ⟨[], batch, rest, rfl, rfl, rfl⟩
    · obtain ⟨front, found, back, rfl, at', rel'⟩ := ih later
      refine ⟨batch :: front, found, back, rfl, ?_, rel'⟩
      rw [at', List.flatten_cons, List.length_append, Nat.add_assoc]

section Tiled

variable {base next : Int} {batches : List Bytes}

/-- In a tiling the relative base offset of a batch is the number of offsets before it. -/
theorem Tiles.relative (tiles : Tiles base batches next) {origin : Int} (low : 0 ≤ origin)
    (above : origin ≤ base) {front back : List Bytes} {batch : Bytes}
    (shape : batches = front ++ batch :: back) :
    ∃ first, Tiles base front first ∧ (decodeHeader batch).baseOffset = first ∧
      int64 ((decodeHeader batch).baseOffset - origin) = first - origin := by
  rw [shape] at tiles
  obtain ⟨first, before, stored, -⟩ := (Tiles.append_iff _ _ _ _).mp tiles
  refine ⟨first, before, stored.baseOffset, ?_⟩
  have le := before.le
  have counted := stored.counted
  have fits := stored.fits
  rw [stored.baseOffset, int64_of_range _ (by omega) (by omega)]

theorem Samples.mem (samples : Samples base entries batches)
    (tiles : Tiles base batches next) (low : 0 ≤ base) {entry : IndexEntry} (member : entry ∈ entries) :
    ∃ front batch back, batches = front ++ batch :: back ∧
      entry.position = front.flatten.length ∧ Tiles base front (base + entry.relOffset) ∧
      (decodeHeader batch).baseOffset = base + entry.relOffset := by
  obtain ⟨front, batch, back, shape, position, rel⟩ :=
    mem_marks (samples.subset (List.mem_map_of_mem (f := IndexEntry.mark) member))
  obtain ⟨first, before, here, same⟩ := tiles.relative low (le_refl base) shape
  have reached : first = base + entry.relOffset := by omega
  exact ⟨front, batch, back, shape, by omega, reached ▸ before, reached ▸ here⟩

theorem Samples.indexOk (samples : Samples base entries batches)
    (tiles : Tiles base batches next) (low : 0 ≤ base) : IndexOk base entries batches := by
  intro entry member
  obtain ⟨front, batch, back, shape, position, before, -⟩ := samples.mem tiles low member
  exact ⟨front, batch :: back, shape, position, before⟩

theorem Tiles.marks_ascending (tiles : Tiles base batches next) {origin : Int} (low : 0 ≤ origin)
    (above : origin ≤ base) (start : Nat) :
    (marks origin start batches).Pairwise fun a b => a.1 < b.1 ∧ a.2 < b.2 := by
  induction batches generalizing base start with
  | nil => exact .nil
  | cons batch rest ih =>
    have counted := tiles.1.counted
    have long := tiles.1.whole.length_ge
    refine .cons ?_ (ih tiles.2 (by omega) _)
    rintro ⟨rel, position⟩ member
    obtain ⟨front, found, back, shape, at', rfl⟩ := mem_marks member
    obtain ⟨first, before, -, same⟩ := tiles.2.relative low (by omega) shape
    obtain ⟨_, nothing, -, here⟩ := tiles.relative low above (show _ = [] ++ batch :: rest from rfl)
    obtain rfl : base = _ := nothing
    have le := before.le
    exact ⟨by rw [here, same]; omega, by dsimp only; omega⟩

theorem Samples.ascending (samples : Samples base entries batches)
    (tiles : Tiles base batches next) (low : 0 ≤ base) :
    entries.Pairwise fun a b => a.relOffset < b.relOffset ∧ a.position < b.position := by
  have sorted := (tiles.marks_ascending low (le_refl base) 0).sublist samples
  rw [List.pairwise_map] at sorted
  exact sorted.imp fun both => ⟨Int.ofNat_lt.mp both.1, both.2⟩

end Tiled

end KafkaWire.Storage
