import KafkaWire.Storage.Restart

/-! With a sync after every append, whatever was acknowledged outlives the machine. -/

namespace KafkaWire.Storage

open Bytes Files Programs Related

def syncedData (store : Store Int) (key : Int) : Bytes :=
  match store.lookup key with
  | some file => file.synced
  | none => []

/-- The directory `disk` is what is left of that of `p` after the machine went down: of every
log file the part that was synced. The index files may be gone or hold anything. -/
structure PowerLost (p : Partition) (disk : World) : Prop where
  logs : ∀ key, ((disk.stores .log).lookup key).map File.data =
    ((p.world.stores .log).lookup key).map File.synced
  names : ∀ suffix key, (p.world.stores suffix).lookup key = none →
    (disk.stores suffix).lookup key = none

section Durable

variable {p : Partition} {front : List Segment} {active : Segment} {old : List (List Bytes)}
  {new : List Bytes} {disk : World}

theorem Intact.filed (intact : Intact p front active old new) (tail : TailSynced p) :
    List.Forall₂ (fun s batches => Filed (p.world.stores .log) s (List.flatten batches)
      (List.flatten batches)) (front ++ [active]) (old ++ [new]) := by
  refine List.rel_append intact.old (.cons ?_ .nil)
  obtain ⟨kept, -, ⟨mtime, found⟩, -⟩ := intact.new
  have layout := intact.readable.layout
  have whole : kept.flatten = new.flatten :=
    tail active _ layout.last (by rw [layout.active_keyed.log]; exact found)
  exact ⟨mtime, whole ▸ found⟩

theorem Intact.syncedData (intact : Intact p front active old new) (tail : TailSynced p) :
    (p.log.segments.map fun s => syncedData (p.world.stores .log) s.baseOffset).flatten =
      (old ++ [new]).flatten.flatten := by
  have pairs : List.Forall₂ (fun s batches => List.flatten batches =
      Storage.syncedData (p.world.stores .log) s.baseOffset) (front ++ [active]) (old ++ [new]) := by
    refine (intact.filed tail).imp fun s batches filed => ?_
    obtain ⟨mtime, found⟩ := filed
    rw [Storage.syncedData, found]
  rw [intact.readable.layout.segments, ← map_eq_of_forall₂ pairs, List.flatten_flatten]

/-- When every file is synced, a loss of power is a crash that cuts nothing off. -/
theorem Intact.powerLost (intact : Intact p front active old new) (unsealed : Unsealed p)
    (tail : TailSynced p) (lost : PowerLost p disk) : Crashed p active.logSize disk := by
  have layout := intact.readable.layout
  refine ⟨fun key => ?_, lost.names⟩
  rw [lost.logs key]
  cases known : (p.world.stores .log).lookup key with
  | none => rfl
  | some file =>
    have member := layout.owned unsealed .log key (by rw [known]; rfl)
    rw [layout.segments] at member
    obtain ⟨s, isMember, rfl⟩ := List.mem_map.mp member
    obtain ⟨before, rest, split⟩ := List.append_of_mem isMember
    obtain ⟨_, batches, _, -, -, ⟨holds, mtime, found⟩, -⟩ :=
      forall₂_split before rest s _ (split ▸ forall₂_and intact.readable.held (intact.filed tail))
    rw [known] at found
    cases found
    rw [layout.last, Option.map_some, Option.map_some, Option.map_some]
    split
    · next same =>
        have isActive : s = active := by
          rcases List.mem_append.mp isMember with isOld | isLast
          · exact absurd (Option.some.inj same) (ne_of_gt (layout.base_lt s isOld))
          · exact List.mem_singleton.mp isLast
        rw [← isActive, holds.size, List.take_length]
    · rfl

theorem Recorded.survives (recorded : Recorded p) (unsealed : Unsealed p) (tail : TailSynced p)
    (lost : PowerLost p disk) (quiet : disk.Quiet) (cfg : Config) :
    ∃ log after, openLog cfg disk = .ok log after ∧
      log.segments.map Segment.baseOffset = p.log.segments.map Segment.baseOffset ∧
      (log.segments.map fun s => (after.stores .log).data s.baseOffset).flatten =
        (p.journal.map Stored.written).flatten ∧
      log.highWatermark = p.log.highWatermark := by
  obtain ⟨front, active, old, new, intact, stored⟩ := recorded.intact
  have crashed := intact.powerLost unsealed tail lost
  obtain ⟨log, after, restarted, survived, -⟩ :=
    (recorded.reopen unsealed crashed quiet cfg).succeeds
  have whole : wholeBatches p active.logSize = p.journal.map Stored.written := by
    rw [intact.wholeBatches stored, ← stored, List.flatten_append, List.flatten_singleton,
      Framing.fitting_all _ _ (le_of_eq intact.readable.new.size.symm)]
  refine ⟨log, after, restarted, survived.bases, by rw [survived.contents, whole], ?_⟩
  rw [survived.highWatermark, whole, recorded.counts, recorded.highWatermark]

end Durable

/-- When an append returns under fsync mode `always`, all that was acknowledged so far is in the
synced parts of the log files, and is there again after a loss of power. -/
theorem acknowledged_batches_survive (cfg : Config) (world opened : World) (log : Log)
    (history : List Request) (request : Request) (first : Int) (p p' : Partition)
    (always : cfg.fsyncMode = .always) (bare : world.Bare) (calm : world.Calm)
    (opening : openLog cfg world = .ok log opened)
    (reached : p = appendEach history ⟨log, opened, []⟩)
    (appended : append request.paused request.batches p = .ok first p')
    (complete : ∀ r ∈ history ++ [request], ∀ batch ∈ r.batches, IsBatch batch)
    (deltas : ∀ batch ∈ (history ++ [request]).flatMap Request.checked,
      0 ≤ (decodeHeader batch).lastOffsetDelta)
    (offsets : (((history ++ [request]).flatMap Request.checked).map offsetCount).sum < 2 ^ 63) :
    (acknowledged history ⟨log, opened, []⟩ ++ request.batches).Sublist
        (p'.journal.map Stored.sent) ∧
      (p'.log.segments.map fun s => syncedData (p'.world.stores .log) s.baseOffset).flatten =
        (p'.journal.map Stored.written).flatten ∧
      ∀ disk : World, PowerLost p' disk → disk.Quiet → ∃ log' after,
        openLog cfg disk = .ok log' after ∧
          log'.segments.map Segment.baseOffset = p'.log.segments.map Segment.baseOffset ∧
          (log'.segments.map fun s => (after.stores .log).data s.baseOffset).flatten =
            (p'.journal.map Stored.written).flatten ∧
          log'.highWatermark = p'.log.highWatermark := by
  obtain ⟨-, fresh⟩ := (openLog_bare cfg world bare).of_ok opening
  obtain ⟨active, layout, next⟩ := fresh.layout []
  have fits : Fits log.highWatermark (history.flatMap Request.checked ++ request.checked) := by
    rw [List.flatMap_append, List.flatMap_singleton] at deltas offsets
    refine ⟨fun batch member => Int.lt_add_one_of_le (deltas batch member), ?_⟩
    rw [layout.highWatermark.trans next, zero_add]
    exact offsets
  have completeBefore (r : Request) (member : r ∈ history) := complete r (List.mem_append_left _ member)
  obtain ⟨running, kept, acked, sub, journal⟩ := appendEach_running history _ (fresh.running calm)
    completeBefore ((Fits.append_iff _ _ _).mp fits).1
  rw [← reached] at running journal
  have room := fresh.recorded.room running.recorded fits sub journal
  obtain ⟨⟨recorded, -, -⟩, -, journal', unsealed, synced⟩ :=
    (append_running running request.paused request.batches (complete request (by simp)) room).of_ok
      appended
  have tail := synced always
  refine ⟨?_, ?_, fun disk lost quiet => recorded.survives unsealed tail lost quiet cfg⟩
  · rw [journal', journal]
    exact acked.append (List.Sublist.refl _)
  · obtain ⟨front, active, old, new, intact, stored⟩ := recorded.intact
    rw [intact.syncedData tail, stored]

theorem acknowledged_batches_survive_roll :
    ∃ log opened first p', openLog ⟨61, 0, 4096, .always⟩ World.empty = .ok log opened ∧
      append false [minimalBatch 4] (appendEach [⟨false, [minimalBatch 0]⟩] ⟨log, opened, []⟩) =
        .ok first p' ∧
      (p'.log.segments.map fun s => syncedData (p'.world.stores .log) s.baseOffset).flatten =
        (p'.journal.map Stored.written).flatten := by
  have runs : Yields (openLog ⟨61, 0, 4096, .always⟩) World.empty (fun log opened =>
      Yields (append false [minimalBatch 4])
        (appendEach [⟨false, [minimalBatch 0]⟩] ⟨log, opened, []⟩) (fun _ _ => True)
        (fun _ _ => False)) (fun _ _ => False) := by decide +kernel
  obtain ⟨log, opened, opening, appends⟩ := runs.succeeds
  obtain ⟨first, p', appended, -⟩ := appends.succeeds
  have both := acknowledged_batches_survive _ World.empty opened log
    [⟨false, [minimalBatch 0]⟩] ⟨false, [minimalBatch 4]⟩ first _ p' rfl World.bare_empty
    (by simp [World.Calm, World.empty]) opening rfl appended (by decide +kernel)
    (by decide +kernel) (by decide +kernel)
  exact ⟨log, opened, first, p', opening, appended, both.2.1⟩

/-- Synced and acknowledged, but with a checksum that recovery does not agree with. -/
theorem overlong_batch_does_not_survive :
    ∃ final disk log after,
      partitionRun ⟨1000, 0, 4096, .always⟩ World.empty [[overlongBatch]] = some final ∧
      PowerLost final disk ∧ disk.Quiet ∧
      openLog ⟨1000, 0, 4096, .always⟩ disk = .ok log after ∧
      (decodeHeader overlongBatch).lastOffsetDelta = 0 ∧
      syncedData (final.world.stores .log) 0 = overlongBatch ∧
      final.log.highWatermark = 1 ∧ log.highWatermark = 0 ∧ (after.stores .log).data 0 = [] := by
  have outcome : (partitionRun ⟨1000, 0, 4096, .always⟩ World.empty [[overlongBatch]]).bind
      (fun final => some (final.world.pending, (final.world.stores .log).keys,
        decide (((final.world.stores .log).lookup 0).map (fun file => (file.data, file.synced)) =
            some (overlongBatch, overlongBatch) ∧ final.log.highWatermark = 1 ∧
          Yields (openLog ⟨1000, 0, 4096, .always⟩) final.world (fun log after =>
            log.highWatermark = 0 ∧ (after.stores .log).data 0 = []) (fun _ _ => False)))) =
      some ([], [0], true) := by decide +kernel
  obtain ⟨final, ran, seen⟩ := Option.bind_eq_some_iff.mp outcome
  simp only [Option.some.injEq, Prod.mk.injEq, decide_eq_true_eq] at seen
  obtain ⟨idle, keys, contents, before, restarts⟩ := seen
  obtain ⟨log, after, restarted, recovered, empty⟩ := restarts.succeeds
  obtain ⟨file, found, same⟩ := Option.map_eq_some_iff.mp contents
  obtain ⟨data, synced⟩ := Prod.mk.inj same
  refine ⟨final, final.world, log, after, ran, ⟨fun key => ?_, fun _ _ absent => absent⟩, ?_,
    restarted, by decide +kernel, by rw [syncedData, found]; exact synced, before, recovered, empty⟩
  · by_cases isZero : key = 0
    · rw [isZero, found, Option.map_some, Option.map_some, data, synced]
    · have absent : (final.world.stores .log).lookup key = none := by
        rw [← Option.not_isSome_iff_eq_none, ← Store.mem_keys, keys, List.mem_singleton]
        exact isZero
      rw [absent, Option.map_none, Option.map_none]
  · intro tick member
    rw [idle] at member
    cases member

end KafkaWire.Storage
