import KafkaWire.Broker.Fetch
import KafkaWire.Storage.Retained
import Mathlib.Order.Bounds.Basic

/-! The offset that a consumer starts from when it asks for the earliest one, and the offsets that
can be fetched. The first is taken from the local log alone. -/

namespace KafkaWire.Broker

open Programs Storage Tiering

/-- `EarliestOffset` -/
def earliestOffset (l : Log) : Int := (l.segments.head?.map Segment.baseOffset).getD 0

inductive ResetStrategy
  | earliest
  | latest
  | timestamp (ms : Int)
  deriving DecidableEq, Repr

def resetTarget (l : Log) : ResetStrategy → Int
  | .earliest => earliestOffset l
  | .latest => l.highWatermark
  | .timestamp ms =>
    (l.segments.findSome? fun seg => seg.lookupOffsetByTimestamp ms).getD (earliestOffset l)

/-- The offsets that `resetOffset` commits for a group, with their topics and partitions. An empty
topic stands for all topics of the group. -/
def resetOffset (b : BrokerState) (gs : GroupState) (topic : String) (strategy : ResetStrategy) :
    List (String × Int × Int) :=
  gs.offsets.entries.flatMap fun committed =>
    if topic ≠ "" ∧ topic ≠ committed.1 then []
    else
      match b.topics.lookup committed.1 with
      | none => []
      | some t => committed.2.keys.filterMap fun partition =>
        (t.partition partition).map fun l => (committed.1, partition, resetTarget l.log strategy)

def Serves (b : BrokerState) (topic : String) (partition offset : Int) : Prop :=
  ∃ maxBytes script result b', fetch topic partition offset maxBytes { b with script := script } =
    .ok result b' ∧ result.err = none ∧ result.bytes ≠ []

structure Backed (b : BrokerState) (topic : String) (partition : Int) (l : LogHandle) : Prop where
  registered : ∃ t, b.topics.lookup topic = some t ∧ t.partition partition = some l
  readable : ∃ journal front active old new,
    Readable ⟨l.log, (b.dirs l.dir).contents l.generation, journal⟩ front active old new ∧
      ∀ s ∈ front ++ [active], s.logSize < 2 ^ 62

/-- The archive has records for the offset, at some limit and after some restore. -/
def FromArchive (b : BrokerState) (topic : String) (partition offset : Int) : Prop :=
  ∃ a, b.archive = some a ∧ ∃ maxBytes outcome bytes first,
    (fetchFromArchive a topic partition offset maxBytes "" outcome).1 = .ok (bytes, first) ∧ bytes ≠ []

section Earliest

variable {b : BrokerState} {topic : String} {partition offset maxBytes : Int} {l : LogHandle}

def Unserved (result : FetchResult) (_ : BrokerState) : Prop := result.err = none → result.bytes = []

theorem archive_unserved (nothing : ¬ FromArchive b topic partition offset) (script : List Answer)
    (hwm logStart : Int) :
    Yields (fetchArchived topic partition offset maxBytes "" hwm logStart)
      { b with script := script } Unserved fun _ _ => True := by
  cases present : b.archive with
  | none =>
    simp only [fetchArchived, yields_bind, yields_get, Option.isNone_none, if_true]
    rintro ⟨⟩
  | some a =>
    have empty (bytes : Bytes) (first : Int) : (fetchFromArchive a topic partition offset maxBytes ""
        (script.headD {}).restore).1 = .ok (bytes, first) → bytes = [] := fun read =>
      by_contra fun some' => nothing ⟨a, present, maxBytes, _, bytes, first, read, some'⟩
    simp only [fetchArchived, yields_bind, yields_get, Option.isNone_some, Bool.false_eq_true,
      if_false, yields_answer]
    rw [yields_onArchive rfl]
    revert empty
    dsimp only
    generalize (fetchFromArchive a topic partition offset maxBytes "" (script.headD {}).restore).1 =
      reply
    intro empty
    rcases reply with err | ⟨bytes, first⟩
    · cases err with
      | panic => trivial
      | unauthorizedTopic | outOfRange | restore _ | openCached | unreadable | parseBatch _ _
        | header _ => rintro ⟨⟩
    · exact fun _ => empty bytes first rfl

theorem yields_fetch (backed : Backed b topic partition l) {script : List Answer}
    {post : FetchResult → BrokerState → Prop} {failed : BrokerErr → BrokerState → Prop} :
    Yields (fetch topic partition offset maxBytes) { b with script := script } post failed ↔
      Yields (fetchLog topic partition l offset maxBytes "") { b with script := script } post failed := by
  obtain ⟨t, found, there⟩ := backed.registered
  simp only [fetch, fetchInternal, yields_bind, yields_getTopic, found, there]

theorem fetchAt_below (backed : Backed b topic partition l) (below : offset < earliestOffset l.log) :
    fetchAt l.log ((b.dirs l.dir).contents l.generation) offset maxBytes =
      .error (.err .offsetOutOfRange) := by
  obtain ⟨journal, front, active, old, new, readable, -⟩ := backed.readable
  have layout := readable.layout
  obtain ⟨first, isFirst⟩ : ∃ first, l.log.segments.head? = some first := by
    rw [layout.segments]
    cases front <;> exact ⟨_, rfl⟩
  rw [earliestOffset, isFirst] at below
  refine fetchAt_out_of_range_iff.mpr ⟨first, isFirst, below, lt_of_lt_of_le below ?_⟩
  have member : first ∈ l.log.segments := List.mem_of_head? isFirst
  rw [layout.segments] at member
  rw [show l.log.highWatermark = active.nextOffset from layout.highWatermark]
  obtain older | newest := List.mem_append.mp member
  · exact le_trans (layout.base_lt first older).le layout.upward
  · rw [List.mem_singleton.mp newest]
    exact layout.upward

/-- An offset below the local log is served exactly when the archive has records for it. -/
theorem below_served_iff (backed : Backed b topic partition l)
    (below : offset < earliestOffset l.log) :
    Serves b topic partition offset ↔ FromArchive b topic partition offset := by
  constructor
  · rintro ⟨maxBytes, script, result, b', ran, fine, some'⟩
    by_contra nothing
    have unserved : Yields (fetch topic partition offset maxBytes) { b with script := script }
        Unserved fun _ _ => True := by
      rw [yields_fetch backed]
      simp only [fetchLog, yields_bind, yields_files, fetchAt_below backed below, if_true]
      exact archive_unserved nothing script _ _
    exact some' (unserved.of_ok ran fine)
  · rintro ⟨a, archive, maxBytes, outcome, bytes, first, read, some'⟩
    have served : Yields (fetch topic partition offset maxBytes)
        { b with script := [{ restore := outcome }] }
        (fun result _ => result.err = none ∧ result.bytes = bytes) fun _ _ => False := by
      rw [yields_fetch backed]
      simp only [fetchLog, yields_bind, yields_files, fetchAt_below backed below, if_true]
      simp only [fetchArchived, yields_bind, yields_get, archive, Option.isNone_some,
        Bool.false_eq_true, if_false, yields_answer]
      rw [yields_onArchive rfl]
      simp only [List.headD_cons, read]
      exact ⟨rfl, rfl⟩
    obtain ⟨result, b', ran, fine, same⟩ := served.succeeds
    exact ⟨maxBytes, _, result, b', ran, fine, same ▸ some'⟩

theorem served_below_watermark (backed : Backed b topic partition l)
    (served : Serves b topic partition offset) : offset < l.log.highWatermark := by
  obtain ⟨maxBytes, script, result, b', ran, fine, some'⟩ := served
  by_contra late
  have unserved : Yields (fetch topic partition offset maxBytes) { b with script := script } Unserved
      fun _ _ => True := by
    rw [yields_fetch backed]
    simp only [fetchLog, yields_bind, yields_files]
    have nothing : fetchAt l.log ((b.dirs l.dir).contents l.generation) offset maxBytes =
        .ok ([], offset) := by
      have missing : l.log.findSegmentLocked offset = none := by
        cases found : l.log.findSegmentLocked offset with
        | none => rfl
        | some s => exact absurd (findSegmentLocked_inside found).2 late
      rw [fetchAt, missing]
      dsimp only
      rw [if_pos (not_lt.mp late), ite_self]
    rw [nothing]
    exact fun _ => rfl
  exact some' (unserved.of_ok ran fine)

theorem earliest_served (backed : Backed b topic partition l)
    (records : earliestOffset l.log < l.log.highWatermark) :
    Serves b topic partition (earliestOffset l.log) := by
  obtain ⟨journal, front, active, old, new, readable, small⟩ := backed.readable
  obtain ⟨batch, more, later, inside, fetched⟩ := readable.fetchAt (earliestOffset l.log)
    (earliestOffset l.log) 61 (fun s isFirst => by
      rw [earliestOffset, show l.log.segments.head? = some s from isFirst]
      rfl) (le_refl _) records small (le_refl _) (by decide)
  have long : 61 ≤ batch.length := by
    have listed : batch ∈ (old ++ [new]).flatten :=
      (fromOffset_suffix _ _ _).subset (by rw [inside]; simp)
    obtain ⟨group, isGroup, member⟩ := List.mem_flatten.mp listed
    obtain ⟨s, _, holds⟩ := Related.forall₂_mem_right readable.held group isGroup
    exact (holds.tiles.isBatch batch member).length_ge
  have served : Yields (fetch topic partition (earliestOffset l.log) 61) { b with script := [] }
      (fun result _ => result.err = none ∧ result.bytes = (batch :: more).flatten)
      fun _ _ => False := by
    rw [yields_fetch backed]
    simp only [fetchLog, yields_bind, yields_files]
    rw [show fetchAt l.log ((b.dirs l.dir).contents l.generation) (earliestOffset l.log) 61 = _ from
      fetched]
    exact ⟨rfl, rfl⟩
  obtain ⟨result, b', ran, fine, bytes⟩ := served.succeeds
  refine ⟨61, [], result, b', ran, fine, fun none' => ?_⟩
  rw [bytes, List.flatten_cons, List.append_eq_nil_iff] at none'
  rw [none'.1] at long
  cases long

theorem earliest_listed {t : Topic} (found : b.topics.lookup topic = some t)
    (there : t.partition partition = some l) :
    listOffsets topic partition (-2) b = .ok (earliestOffset l.log, -1) b := by
  have listed : Yields (listOffsets topic partition (-2)) b
      (fun answer final => answer = (earliestOffset l.log, -1) ∧ final = b) fun _ _ => False := by
    simp only [listOffsets, yields_bind, yields_getTopic, found, there]
    exact ⟨rfl, rfl⟩
  obtain ⟨_, _, ran, rfl, rfl⟩ := listed.succeeds
  exact ran

theorem earliest_reset {t : Topic} (found : b.topics.lookup topic = some t)
    (there : t.partition partition = some l) {gs : GroupState} {filter : String} {newOffset : Int}
    (reset : (topic, partition, newOffset) ∈ resetOffset b gs filter .earliest) :
    newOffset = earliestOffset l.log := by
  obtain ⟨committed, _, inside⟩ := List.mem_flatMap.mp reset
  split at inside
  · cases inside
  · split at inside
    · cases inside
    · next t' found' =>
        obtain ⟨partition', _, mapped⟩ := List.mem_filterMap.mp inside
        obtain ⟨l', there', same⟩ := Option.map_eq_some_iff.mp mapped
        obtain ⟨rfl, rfl, rfl⟩ : committed.1 = topic ∧ partition' = partition ∧ _ = newOffset := by
          simpa using same
        obtain rfl := Option.some.inj (found.symm.trans found')
        obtain rfl := Option.some.inj (there.symm.trans there')
        rfl

end Earliest

/-- The earliest offset that is reported, and that a group is reset to, is the least one that can be
fetched exactly when the archive has records for no offset below the local log. -/
theorem earliest_offset_least_iff (b : BrokerState) (topic : String) (partition : Int) (l : LogHandle)
    (backed : Backed b topic partition l) :
    listOffsets topic partition (-2) b = .ok (earliestOffset l.log, -1) b ∧
      (∀ gs filter newOffset, (topic, partition, newOffset) ∈ resetOffset b gs filter .earliest →
        newOffset = earliestOffset l.log) ∧
      (((∃ offset, Serves b topic partition offset) →
          IsLeast { offset | Serves b topic partition offset } (earliestOffset l.log)) ↔
        ∀ offset < earliestOffset l.log, ¬ FromArchive b topic partition offset) := by
  obtain ⟨t, found, there⟩ := backed.registered
  refine ⟨earliest_listed found there, fun _ _ _ reset => earliest_reset found there reset, ?_, ?_⟩
  · intro least offset below archived
    have served := (below_served_iff backed below).mpr archived
    exact not_lt.mpr ((least ⟨offset, served⟩).2 served) below
  · rintro nothing ⟨offset, served⟩
    have least : ∀ offset, Serves b topic partition offset → earliestOffset l.log ≤ offset := by
      intro offset served
      by_contra below
      exact nothing offset (not_le.mp below) ((below_served_iff backed (not_le.mp below)).mp served)
    have records := served_below_watermark backed served
    exact ⟨earliest_served backed (lt_of_le_of_lt (least offset served) records), least⟩

def localBroker (p : Partition) : BrokerState := { archivedBroker p {} with archive := none }

theorem local_earliest_least :
    ∃ p, partitionRun ⟨61, 0, 4096, .none⟩ World.empty [[minimalBatch 4]] = some p ∧
      IsLeast { offset | Serves (localBroker p) "t" 0 offset } 0 := by
  have runs : (partitionRun ⟨61, 0, 4096, .none⟩ World.empty [[minimalBatch 4]]).map (fun p =>
      (earliestOffset p.log, p.log.highWatermark, (p.journal.map Stored.written).flatten.length)) =
        some (0, 5, 61) := by decide +kernel
  obtain ⟨p, ran, marks⟩ := Option.map_eq_some_iff.mp runs
  obtain ⟨first, last, length⟩ : earliestOffset p.log = 0 ∧ p.log.highWatermark = 5 ∧
      (p.journal.map Stored.written).flatten.length = 61 := by simpa using marks
  have backed : Backed (localBroker p) "t" 0 ⟨0, p.log, 0, ⟨false, []⟩, 0⟩ := by
    obtain ⟨recorded, -⟩ := partitionRun_recorded World.bare_empty ran (by decide +kernel)
      (by decide +kernel) (by decide +kernel)
    obtain ⟨front, active, old, new, intact, stored⟩ := recorded.intact
    refine ⟨⟨_, rfl, rfl⟩, p.journal, front, active, old, new, intact.readable, fun s member => ?_⟩
    have short := intact.readable.logSize_le s member
    rw [stored, length] at short
    omega
  have nothing (offset) (_ : offset < earliestOffset p.log) :
      ¬ FromArchive (localBroker p) "t" 0 offset := by
    rintro ⟨a, ⟨⟩, -⟩
  have served := earliest_served backed (first.trans_lt (by omega : (0 : Int) < p.log.highWatermark))
  have least := (earliest_offset_least_iff (localBroker p) "t" 0 _ backed).2.2.mpr nothing
    ⟨_, served⟩
  exact ⟨p, ran, first ▸ least⟩

/-- The first five offsets are in the archive, and the earliest offset is the one behind them. -/
theorem archived_offsets_skipped :
    ∃ p, retained = some p ∧
      (∃ b', listOffsets "t" 0 (-2) (archivedBroker p ⟨[{}], false, true, 0⟩) = .ok (5, -1) b') ∧
      Serves (archivedBroker p ⟨[{}], false, true, 0⟩) "t" 0 3 := by
  have runs : retained.map (fun p => (earliestOffset p.log,
      decide (Yields (fetch "t" 0 3 100) (archivedBroker p ⟨[{}], false, true, 0⟩)
        (fun result _ => result.err.isNone = true ∧ result.bytes ≠ []) (fun _ _ => False)))) =
      some (5, true) := by decide +kernel
  obtain ⟨p, kept, seen⟩ := Option.map_eq_some_iff.mp runs
  obtain ⟨first, seen⟩ := Prod.mk.inj seen
  have listed : listOffsets "t" 0 (-2) (archivedBroker p ⟨[{}], false, true, 0⟩) =
      .ok (earliestOffset p.log, -1) _ :=
    earliest_listed (l := ⟨0, p.log, 0, ⟨false, []⟩, 0⟩) rfl rfl
  rw [first] at listed
  refine ⟨p, kept, ⟨_, listed⟩, ?_⟩
  obtain ⟨result, b', ran, fine, filled⟩ := (of_decide_eq_true seen).succeeds
  exact ⟨100, _, result, b', ran, Option.isNone_iff_eq_none.mp fine, filled⟩

end KafkaWire.Broker
