import KafkaWire.Storage.TimeSamples

/-! The order of the samples in a timestamp index, over any calls that append to it. -/

namespace KafkaWire.Storage

open Programs

structure TimeCall where
  ts : Int
  relOffset : Int
  position : Int
  deriving DecidableEq, Repr

def TimeIndex.appendAll (t : TimeIndex) : List TimeCall → SysM TimeIndex
  | [] => return t
  | call :: calls => do
    let t' ← orElse (t.maybeAppend call.ts call.relOffset call.position) t
    t'.appendAll calls

def TimeIndex.InOrder (t : TimeIndex) : Prop :=
  t.entries.Pairwise fun a b => a.timestamp < b.timestamp ∧ a.relOffset ≤ b.relOffset

structure TimeIndex.Sorted (t : TimeIndex) (bound : Int) : Prop where
  inOrder : t.InOrder
  newest : ∀ entry ∈ t.entries, entry.timestamp ≤ t.lastTS
  offsets : ∀ entry ∈ t.entries, (entry.relOffset : Int) ≤ bound

variable {t : TimeIndex} {bound : Int}

theorem TimeIndex.Sorted.sample (sorted : t.Sorted bound) (ts relOffset position : Int)
    (newer : t.entries = [] ∨ t.lastTS < ts) (low : 0 ≤ relOffset) (above : bound ≤ relOffset) :
    (t.sample ts relOffset position).Sorted relOffset := by
  have older : ∀ entry ∈ t.entries, entry.timestamp < ts := by
    intro entry member
    rcases newer with empty | newer
    · rw [empty] at member
      cases member
    · exact (sorted.newest entry member).trans_lt newer
  have lower : ∀ entry ∈ t.entries, (entry.relOffset : Int) ≤ relOffset := fun entry member =>
    (sorted.offsets entry member).trans above
  refine ⟨?_, ?_, ?_⟩
  · refine List.pairwise_append.mpr ⟨sorted.inOrder, List.pairwise_singleton _ _, ?_⟩
    intro entry member last single
    obtain rfl := List.mem_singleton.mp single
    have offset := lower entry member
    exact ⟨older entry member, by dsimp only; omega⟩
  · exact List.forall_mem_append.mpr ⟨fun entry member => (older entry member).le,
      List.forall_mem_singleton.mpr le_rfl⟩
  · exact List.forall_mem_append.mpr ⟨lower, List.forall_mem_singleton.mpr (by dsimp only; omega)⟩

theorem TimeIndex.Sorted.maybeAppend (sorted : t.Sorted bound) (ts relOffset position high : Int)
    (world : World) (above : bound ≤ relOffset) (known : t.entries = [] ∨ t.lastTS ≤ high)
    (later : ts ≤ high) (room : high + 1 < 2 ^ 63) (least : -(2 ^ 63) ≤ ts) :
    Yields (orElse (t.maybeAppend ts relOffset position) t) world
      (fun t' _ => t'.Sorted relOffset ∧ (t'.entries = [] ∨ t'.lastTS ≤ high + 1))
      fun _ _ => False := by
  have idle : t.Sorted relOffset ∧ (t.entries = [] ∨ t.lastTS ≤ high + 1) :=
    ⟨⟨sorted.inOrder, sorted.newest, fun entry member => (sorted.offsets entry member).trans above⟩,
      known.imp_right fun low => by omega⟩
  rw [yields_orElse]
  unfold TimeIndex.maybeAppend
  split
  · exact idle
  · dsimp only
    split
    · exact idle
    · next inRange =>
        rw [yields_bind, yields_mapError]
        refine yields_writeFile .timeIndex t.file _ (fun _ _ => idle) fun _ => ?_
        rw [yields_pure]
        split
        · next clamped =>
            have filled : t.entries ≠ [] := List.ne_nil_of_length_pos clamped.2
            have low : t.lastTS ≤ high := known.resolve_left filled
            have next : int64 (t.lastTS + 1) = t.lastTS + 1 :=
              int64_of_range _ (by omega) (by omega)
            rw [next]
            exact ⟨sorted.sample _ relOffset position (.inr (by omega)) (by omega) above,
              .inr (by dsimp only; omega)⟩
        · next kept =>
            have newer : t.entries = [] ∨ t.lastTS < ts := by
              rcases List.eq_nil_or_concat t.entries with empty | ⟨front, last, shape⟩
              · exact .inl empty
              · refine .inr (not_le.mp fun older => kept ⟨older, ?_⟩)
                rw [shape]
                simp
            exact ⟨sorted.sample ts relOffset position newer (by omega) above,
              .inr (by dsimp only; omega)⟩

theorem TimeIndex.Sorted.appendAll (sorted : t.Sorted bound) (calls : List TimeCall) (high : Int)
    (world : World) (rising : (calls.map (·.relOffset)).Pairwise (· ≤ ·))
    (above : ∀ call ∈ calls, bound ≤ call.relOffset) (known : t.entries = [] ∨ t.lastTS ≤ high)
    (range : ∀ call ∈ calls, -(2 ^ 63) ≤ call.ts ∧ call.ts ≤ high)
    (room : high + calls.length < 2 ^ 63) :
    Yields (t.appendAll calls) world (fun after _ => after.InOrder) fun _ _ => False := by
  induction calls generalizing t bound high world with
  | nil => exact sorted.inOrder
  | cons call calls ih =>
    obtain ⟨later, rising⟩ := List.pairwise_cons.mp rising
    obtain ⟨least, below⟩ := range call List.mem_cons_self
    rw [List.length_cons] at room
    unfold TimeIndex.appendAll
    rw [yields_bind]
    refine (sorted.maybeAppend call.ts call.relOffset call.position high world
      (above call List.mem_cons_self) known below (by push_cast at room; omega) least).mono ?_
      fun _ _ impossible => impossible
    rintro t' middle ⟨sorted', known'⟩
    refine ih sorted' (high + 1) middle rising (fun other member => ?_) known' (fun other member => ?_)
      (by push_cast at room; omega)
    · exact later other.relOffset (List.mem_map_of_mem member)
    · obtain ⟨least', below'⟩ := range other (List.mem_cons_of_mem _ member)
      exact ⟨least', by omega⟩

/-- Whatever calls are made on an index whose samples are in order, and be it a new one: if the
timestamps stay as far below the greatest one as there are calls, and the offsets do not fall, then
the samples are in order and every search finds the first that is new enough. -/
theorem samples_in_order (t : TimeIndex) (bound : Int) (sorted : t.Sorted bound)
    (calls : List TimeCall) (world : World)
    (known : t.entries = [] ∨ t.lastTS + calls.length < 2 ^ 63)
    (range : ∀ call ∈ calls, -(2 ^ 63) ≤ call.ts ∧ call.ts + calls.length < 2 ^ 63)
    (rising : (bound :: calls.map (·.relOffset)).Pairwise (· ≤ ·)) :
    Yields (t.appendAll calls) world
      (fun after _ => after.InOrder ∧ ∀ ts, after.lookupOffset ts =
        (after.entries.find? fun e => decide (ts ≤ e.timestamp)).map fun e => (e.relOffset : Int))
      fun _ _ => False := by
  obtain ⟨above, rising⟩ := List.pairwise_cons.mp rising
  refine (sorted.appendAll calls (2 ^ 63 - 1 - calls.length) world rising (fun call member => ?_)
    (known.imp_right fun low => by omega) (fun call member => ?_) (by omega)).mono ?_
    fun _ _ impossible => impossible
  · exact above _ (List.mem_map_of_mem member)
  · obtain ⟨least, room⟩ := range call member
    exact ⟨least, by omega⟩
  · intro after _ inOrder
    exact ⟨inOrder, TimeIndex.lookupOffset_find (inOrder.imp fun both => both.1)⟩

def newTimeIndex : TimeIndex := ⟨⟨0, 0⟩, [], 0, 0, 4096⟩

theorem newTimeIndex_sorted : newTimeIndex.Sorted 0 := by
  refine ⟨List.Pairwise.nil, ?_, ?_⟩ <;> exact fun entry member => nomatch member

def skewedCalls : List TimeCall := [⟨10, 0, 0⟩, ⟨7, 1, 4096⟩, ⟨30, 2, 8192⟩]

theorem skewed_samples_in_order :
    newTimeIndex.Sorted 0 ∧ (skewedCalls.map (·.ts)) = [10, 7, 30] ∧
      Yields (newTimeIndex.appendAll skewedCalls) World.empty
        (fun after _ => after.InOrder ∧ ∀ ts, after.lookupOffset ts =
          (after.entries.find? fun e => decide (ts ≤ e.timestamp)).map fun e => (e.relOffset : Int))
        fun _ _ => False :=
  ⟨newTimeIndex_sorted, rfl, samples_in_order newTimeIndex 0 newTimeIndex_sorted skewedCalls World.empty
    (.inl rfl) (by decide) (by decide)⟩

/-- A producer sends the greatest timestamp, and the next sample is clamped to one past it. -/
theorem greatest_timestamp_wraps :
    ∃ after final, newTimeIndex.appendAll [⟨2 ^ 63 - 1, 0, 0⟩, ⟨5, 1, 4096⟩] World.empty =
        .ok after final ∧ after.entries = [⟨2 ^ 63 - 1, 0⟩, ⟨-(2 ^ 63), 1⟩] ∧ ¬ after.InOrder ∧
      after.lookupOffset 5 = none ∧
      (after.entries.find? fun e => decide (5 ≤ e.timestamp)) = some ⟨2 ^ 63 - 1, 0⟩ := by
  refine ⟨_, _, rfl, by decide +kernel, ?_, by decide +kernel, by decide +kernel⟩
  unfold TimeIndex.InOrder
  decide +kernel

end KafkaWire.Storage
