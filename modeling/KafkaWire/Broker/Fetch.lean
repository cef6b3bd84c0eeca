import KafkaWire.Broker.ArchivedFetch
import KafkaWire.Broker.Topics

/-! Fetches and offset lookups, and when exactly a fetch reports an offset as out of range. -/

namespace KafkaWire.Broker

open Storage Tiering

/-- What `Fetch` returns. The offsets come with an error too. -/
structure FetchResult where
  bytes : Bytes
  firstOffset : Int
  highWatermark : Int
  logStart : Int
  err : Option BrokerErr
  deriving DecidableEq, Repr

def FetchResult.failed (err : BrokerErr) : FetchResult := ⟨[], 0, 0, 0, some err⟩

/-- The archive is asked when the log does not have the offset. Unless it refuses the principal, its
errors give way to the log's own. -/
def fetchArchived (topic : String) (partition fetchOffset maxBytes : Int) (principalTenant : String)
    (hwm logStart : Int) : BrokerM FetchResult := do
  let outOfRange : FetchResult := ⟨[], 0, hwm, logStart, some (.storage .offsetOutOfRange)⟩
  if (← get).archive.isNone then return outOfRange
  let a ← answer
  let result ← onArchive (.error .outOfRange) fun archive =>
    fetchFromArchive archive topic partition fetchOffset maxBytes principalTenant a.restore
  match result with
  | .ok (bytes, firstOffset) => return ⟨bytes, firstOffset, hwm, logStart, none⟩
  | .error .panic => throw .panic
  | .error .unauthorizedTopic => return ⟨[], 0, hwm, logStart, some .unauthorizedTopic⟩
  | .error _ => return outOfRange

/-- The part of `fetchInternal` that works on the log it has found. -/
def fetchLog (topic : String) (partition : Int) (l : LogHandle) (fetchOffset maxBytes : Int)
    (principalTenant : String) : BrokerM FetchResult := do
  let hwm := l.log.highWatermark
  let logStart := l.log.logStart
  match fetchAt l.log (← files l) fetchOffset maxBytes with
  | .ok (bytes, firstOffset) => return ⟨bytes, firstOffset, hwm, logStart, none⟩
  | .error .panic => throw .panic
  | .error (.err err) =>
    if err = .offsetOutOfRange then
      fetchArchived topic partition fetchOffset maxBytes principalTenant hwm logStart
    else return ⟨[], 0, hwm, logStart, some (.storage err)⟩

def fetchInternal (topic : String) (partition fetchOffset maxBytes : Int) (principalTenant : String) :
    BrokerM FetchResult := do
  match ← getTopic topic with
  | none => return .failed .unknownTopic
  | some t =>
    match t.partition partition with
    | none => return .failed .unknownPartition
    | some l => fetchLog topic partition l fetchOffset maxBytes principalTenant

def fetch (topic : String) (partition fetchOffset maxBytes : Int) : BrokerM FetchResult :=
  fetchInternal topic partition fetchOffset maxBytes ""

/-- The topic that is checked and the topic that is read are looked up one after the other. -/
def fetchAuthorized (topic : String) (partition fetchOffset maxBytes : Int)
    (principalTenant : String) : BrokerM FetchResult := do
  match ← getTopic topic with
  | none => return .failed .unknownTopic
  | some t =>
    match verifyTopicTenant t principalTenant with
    | .error err => return .failed err
    | .ok () => fetchInternal topic partition fetchOffset maxBytes principalTenant

def listOffsets (topic : String) (partition timestamp : Int) : BrokerM (Int × Int) := do
  match ← getTopic topic with
  | none => throw .unknownTopic
  | some t =>
    match t.partition partition with
    | none => throw .unknownPartition
    | some l =>
      if timestamp = -2 then
        return ((l.log.segments.head?.map Segment.baseOffset).getD 0, -1)
      else if timestamp = -1 then return (l.log.highWatermark, -1)
      else
        match l.log.segments.findSome? fun seg => seg.lookupOffsetByTimestamp timestamp with
        | none => return (-1, -1)
        | some offset => return (offset, timestamp)

section Range

variable {world : World} {s : Segment} {offset maxBytes : Int}

theorem parse_error_text {buf : Bytes} {h : BatchHeader} {err : Err}
    (failed : parseBatchHeader buf = (h, some err)) : err ≠ .offsetOutOfRange := by
  rintro rfl
  rw [parseBatchHeader] at failed
  dsimp only at failed
  split at failed
  · cases failed
  · split at failed
    · cases failed
    · split at failed
      · cases failed
      · split at failed <;> cases failed

theorem readAt_error {position : Nat} {fault : Fault}
    (failed : s.readAt world position maxBytes = .error fault) : fault = .panic := by
  rw [Segment.readAt] at failed
  split at failed
  · cases failed
  · dsimp only at failed
    generalize (if int64 (position + maxBytes) > s.logSize then (s.logSize : Int) - position
      else maxBytes) = want at failed
    split at failed
    · cases failed
      rfl
    · cases failed

theorem fetchFirstBatch_in_range (position : Nat) (buf : Bytes) :
    fetchFirstBatch world s position offset buf ≠ .error (.err .offsetOutOfRange) := by
  rw [fetchFirstBatch]
  split
  · next err failed =>
      rintro ⟨⟩
      exact parse_error_text failed rfl
  · split
    · next fault failed =>
        rw [readAt_error failed]
        rintro ⟨⟩
    · split <;> rintro ⟨⟩

theorem fetchSegment_in_range :
    fetchSegment world s offset maxBytes ≠ .error (.err .offsetOutOfRange) := by
  rw [fetchSegment]
  split
  · next fault _ => cases fault <;> rintro ⟨⟩
  · split
    · next fault _ => cases fault <;> rintro ⟨⟩
    · dsimp only
      split
      · rintro ⟨⟩
      · split
        · exact fetchFirstBatch_in_range _ _
        · rintro ⟨⟩

theorem fetchAt_in_range {l : Log} {first : Segment} (isFirst : l.segments.head? = some first)
    (low : first.baseOffset ≤ offset) :
    fetchAt l world offset maxBytes ≠ .error (.err .offsetOutOfRange) := by
  rw [fetchAt]
  split
  · rintro ⟨⟩
  · split
    · next missing =>
        split
        · rintro ⟨⟩
        · next below =>
            obtain ⟨s, found⟩ := findSegmentLocked_some isFirst low (not_le.mp below)
            cases missing.symm.trans found
    · exact fetchSegment_in_range

theorem fetchAt_out_of_range_iff {l : Log} :
    fetchAt l world offset maxBytes = .error (.err .offsetOutOfRange) ↔
      ∃ first, l.segments.head? = some first ∧ offset < first.baseOffset ∧
        offset < l.highWatermark := by
  cases isFirst : l.segments.head? with
  | none =>
    rw [List.head?_eq_none_iff] at isFirst
    simp [fetchAt, isFirst]
  | some first =>
    have some' : l.segments.isEmpty = false := by
      cases segments : l.segments with
      | nil => simp [segments] at isFirst
      | cons _ _ => rfl
    by_cases low : first.baseOffset ≤ offset
    · simp only [Option.some.injEq, exists_eq_left', not_lt.mpr low, false_and, iff_false]
      exact fetchAt_in_range isFirst low
    · have missing : l.findSegmentLocked offset = none := by
        rw [Log.findSegmentLocked, isFirst]
        exact if_pos (not_le.mp low)
      by_cases below : offset < l.highWatermark
      · simp [fetchAt, some', missing, below, not_le.mp low]
      · simp [fetchAt, some', missing, below, not_lt.mp below]

end Range

section Archive

variable {cfg : Tiering.Config} {s : Archiving} {topic : String} {partition offset : Int}
  {e : SegmentEntry} {batches : List Bytes}

end Archive

section Answered

open Programs

variable {b : BrokerState} {topic : String} {partition offset maxBytes : Int}

end Answered

def archivedState : Archiving :=
  Machine.exec (Archiving.step archiveConfig) archivedStart (archivedEvents (minimalBatch 4) 5)

/-- A partition with the records of two requests, the first of which retention has deleted. -/
def retained : Option Partition :=
  (partitionRun ⟨61, 0, 4096, .none⟩ World.empty [[minimalBatch 4], [minimalBatch 0]]).bind fun p =>
    match LiveLog.deleteSegmentsBefore 5 ⟨p, false⟩ with
    | .ok _ l => some l.partition
    | .error _ _ => none

def archivedBroker (p : Partition) (restore : RestoreOutcome) : BrokerState where
  cfg := ⟨"data", 1, "c", "localhost", 9092, true, 1, 1, ⟨61, 0, 4096, .none⟩⟩
  acl := none
  topics := AList.singleton "t" ⟨⟨1, 1, -1, -1, 61, ""⟩, [⟨0, p.log, 0, ⟨false, []⟩, 0⟩]⟩
  dirs := fun _ => ⟨true, 0, fun _ => p.world⟩
  topicsFile := ∅
  archive := some archivedState.archive
  nextLog := 1
  script := [{ restore := restore }]

private def unavailable : RestoreOutcome := { attempts := List.replicate 3 { available := false } }

end KafkaWire.Broker
