import KafkaWire.Storage.Deleting
import KafkaWire.Storage.NoPanic

/-! Logs that are closed while others still hold them. A handle outlives the topic it was taken
from, so any operation may come at any time after the close. -/

namespace KafkaWire.Storage

open Bytes Files Programs

inductive LogCall
  | highWatermark
  | logStartOffset
  | append (paused : Bool) (batches : List Bytes)
  | fetchAt (fetchOffset maxBytes : Int)
  | earliestOffset
  | latestOffset
  | lookupOffsetByTimestamp (ts : Int)
  | sealedSegments
  | allSegments
  | deleteSegmentsBefore (cutoff : Int)
  | flushAndSync
  | close

inductive LogReply
  | offset (value : Int)
  | fetched (bytes : Bytes) (firstOffset : Int)
  | found (offset : Option Int)
  | segments (list : List Segment)
  | count (deleted : Nat)
  | done

def LogCall.run : LogCall → LiveM LogReply
  | .highWatermark => .offset <$> LiveLog.highWatermark
  | .logStartOffset => .offset <$> LiveLog.logStartOffset
  | .append paused batches => .offset <$> live (Storage.append paused batches)
  | .fetchAt fetchOffset maxBytes =>
    (fun result => .fetched result.1 result.2) <$> LiveLog.fetchAt fetchOffset maxBytes
  | .earliestOffset => .offset <$> LiveLog.earliestOffset
  | .latestOffset => .offset <$> LiveLog.latestOffset
  | .lookupOffsetByTimestamp ts => .found <$> LiveLog.lookupOffsetByTimestamp ts
  | .sealedSegments => .segments <$> LiveLog.sealedSegments
  | .allSegments => .segments <$> LiveLog.allSegments
  | .deleteSegmentsBefore cutoff => .count <$> LiveLog.deleteSegmentsBefore cutoff
  | .flushAndSync => (fun _ => .done) <$> LiveLog.flushAndSync
  | .close => (fun _ => .done) <$> LiveLog.close

structure LogEvent where
  log : Nat
  call : LogCall
  ticks : List Tick

structure Returned where
  closed : Bool
  call : LogCall
  reply : Except Fault LogReply

structure LogsState where
  logs : Nat → LiveLog
  returned : List Returned

namespace LogsState

def facing (l : LiveLog) (ticks : List Tick) : LiveLog :=
  { l with partition := l.partition.facing ticks }

def step (s : LogsState) (event : LogEvent) : LogsState :=
  let l := s.logs event.log
  let closed := l.segments.isEmpty
  match event.call.run (facing l event.ticks) with
  | .ok reply l' =>
    ⟨Function.update s.logs event.log l', s.returned ++ [⟨closed, event.call, .ok reply⟩]⟩
  | .error fault l' =>
    ⟨Function.update s.logs event.log l', s.returned ++ [⟨closed, event.call, .error fault⟩]⟩

/-- The sealed segments are asked for while the log is open, and so is the start of a log that has
moved; the files of a segment that is deleted can be closed and removed; and a fetch asks for a size
that a client can ask for. -/
def Fitting (s : LogsState) (event : LogEvent) : Prop :=
  match event.call with
  | .sealedSegments => (s.logs event.log).segments ≠ []
  | .logStartOffset =>
    (s.logs event.log).segments ≠ [] ∨ (s.logs event.log).partition.log.logStart = 0
  | .deleteSegmentsBefore _ => ∀ tick ∈ event.ticks, tick.fault = none
  | .fetchAt _ maxBytes =>
    (0 ≤ maxBytes ∧ maxBytes < 2 ^ 31) ∧ ∀ seg ∈ (s.logs event.log).segments, seg.logSize < 2 ^ 62
  | _ => True

instance (s : LogsState) (event : LogEvent) : Decidable (s.Fitting event) :=
  match call : event.call with
  | .sealedSegments => decidable_of_iff ((s.logs event.log).segments ≠ []) (by rw [Fitting, call])
  | .logStartOffset =>
    decidable_of_iff ((s.logs event.log).segments ≠ [] ∨
      (s.logs event.log).partition.log.logStart = 0) (by rw [Fitting, call])
  | .deleteSegmentsBefore _ =>
    decidable_of_iff (∀ tick ∈ event.ticks, tick.fault = none) (by rw [Fitting, call])
  | .fetchAt _ maxBytes =>
    decidable_of_iff ((0 ≤ maxBytes ∧ maxBytes < 2 ^ 31) ∧
      ∀ seg ∈ (s.logs event.log).segments, seg.logSize < 2 ^ 62) (by rw [Fitting, call])
  | .highWatermark | .append _ _ | .earliestOffset | .latestOffset
  | .lookupOffsetByTimestamp _ | .allSegments | .flushAndSync | .close =>
    isTrue (by rw [Fitting, call]; trivial)

end LogsState

def Returned.Empty (r : Returned) : Prop :=
  match r.reply with
  | .error (.err _) => True
  | .error .panic => False
  | .ok (.offset value) => value = 0
  | .ok (.fetched bytes _) => bytes = []
  | .ok (.found offset) => offset = none
  | .ok (.segments list) => list = []
  | .ok (.count deleted) => deleted = 0
  | .ok .done => True

def Returned.Safe (r : Returned) : Prop := NoPanic r.reply ∧ (r.closed = true → r.Empty)

section Calls

variable {α : Type} {l : LiveLog}

/-- What an operation on a log with all its handles leaves and returns: the handles stay, it does
not panic, and from a closed log nothing comes back. -/
def SafeFrom (call : LogCall) (l : LiveLog) : Prop :=
  Yields call.run l
    (fun reply l' => l'.headClosed = false ∧
      Returned.Safe ⟨l.segments.isEmpty, call, .ok reply⟩)
    (fun fault l' => l'.headClosed = false ∧
      Returned.Safe ⟨l.segments.isEmpty, call, .error fault⟩)

theorem safe_err (closed : Bool) (call : LogCall) (cause : Err) :
    Returned.Safe ⟨closed, call, .error (.err cause)⟩ :=
  ⟨noPanic_err cause, fun _ => trivial⟩

theorem yields_true {ε σ : Type} (prog : EStateM ε σ α) (start : σ) :
    Yields prog start (fun _ _ => True) fun _ _ => True :=
  (yields_ran prog start).mono (fun _ _ _ => trivial) fun _ _ _ => trivial

variable (handles : l.headClosed = false)

include handles

theorem highWatermark_safe : SafeFrom .highWatermark l := by
  refine ⟨handles, noPanic_ok _, fun closed => ?_⟩
  show l.partition.log.highWatermark = 0
  rw [Log.highWatermark, show l.partition.log.segments = [] from List.isEmpty_iff.mp closed]
  rfl

theorem logStartOffset_safe (fresh : l.segments ≠ [] ∨ l.partition.log.logStart = 0) :
    SafeFrom .logStartOffset l := by
  refine ⟨handles, noPanic_ok _, fun closed => ?_⟩
  exact fresh.resolve_left (not_not.mpr (List.isEmpty_iff.mp closed))

theorem earliestOffset_safe : SafeFrom .earliestOffset l := by
  simp only [SafeFrom, LogCall.run, LiveLog.earliestOffset, yields_map, yields_bind, yields_get]
  split
  · exact ⟨handles, noPanic_ok _, fun _ => rfl⟩
  · next first isFirst =>
      refine ⟨handles, noPanic_ok _, fun closed => ?_⟩
      rw [List.isEmpty_iff.mp closed] at isFirst
      cases isFirst

theorem append_safe (paused : Bool) (batches : List Bytes) : SafeFrom (.append paused batches) l := by
  simp only [SafeFrom, LogCall.run, yields_map, yields_live]
  by_cases closed : l.segments = []
  · have none' : l.partition.log.segments.getLast? = none := by
      rw [show l.partition.log.segments = [] from closed]
      rfl
    cases paused
    · cases empty : batches.isEmpty
      · simp only [Storage.append, empty, Bool.false_eq_true, if_false, yields_bind, yields_get, none',
          yields_throw]
        exact ⟨handles, safe_err _ _ _⟩
      · simp only [Storage.append, empty, Bool.false_eq_true, if_false, if_true, yields_bind,
          yields_throw]
        exact ⟨handles, safe_err _ _ _⟩
    · simp only [Storage.append, if_true, yields_bind, yields_throw]
      exact ⟨handles, safe_err _ _ _⟩
  · refine (yields_true _ _).mono (fun _ _ _ => ⟨handles, noPanic_ok _, fun empty => ?_⟩)
      (fun _ _ _ => ⟨handles, safe_err _ _ _⟩)
    exact absurd (List.isEmpty_iff.mp empty) closed

theorem fetchAt_safe {fetchOffset maxBytes : Int} (low : 0 ≤ maxBytes) (high : maxBytes < 2 ^ 31)
    (small : ∀ seg ∈ l.segments, seg.logSize < 2 ^ 62) : SafeFrom (.fetchAt fetchOffset maxBytes) l := by
  simp only [SafeFrom, LogCall.run, LiveLog.fetchAt, yields_map, yields_bind, yields_get]
  rw [if_neg (by simp [handles])]
  split
  · next result fetched =>
      refine ⟨handles, noPanic_ok _, fun closed => ?_⟩
      have none' : l.partition.log.segments.isEmpty = true := closed
      rw [Storage.fetchAt, if_pos none'] at fetched
      cases fetched
      rfl
  · next fault failed =>
      have safe := fetchAt_noPanic l.partition.world small fetchOffset low high fault failed
      cases fault with
      | panic => exact absurd rfl safe
      | err cause => exact ⟨handles, safe_err _ _ _⟩

theorem lookupOffsetByTimestamp_safe (ts : Int) : SafeFrom (.lookupOffsetByTimestamp ts) l := by
  simp only [SafeFrom, LogCall.run, LiveLog.lookupOffsetByTimestamp, yields_map, yields_bind, yields_get]
  rw [if_neg (by simp [handles])]
  refine ⟨handles, noPanic_ok _, fun closed => ?_⟩
  show List.findSome? _ l.segments = none
  rw [List.isEmpty_iff.mp closed]
  rfl

theorem sealedSegments_safe (opened : l.segments ≠ []) : SafeFrom .sealedSegments l := by
  have some' : l.segments.isEmpty = false := by simpa using opened
  simp only [SafeFrom, LogCall.run, LiveLog.sealedSegments, yields_map, yields_bind, yields_get]
  rw [if_neg (by simp [opened])]
  refine ⟨handles, noPanic_ok _, fun closed => ?_⟩
  exact absurd (List.isEmpty_iff.mp closed) opened

theorem allSegments_safe : SafeFrom .allSegments l :=
  ⟨handles, noPanic_ok _, fun closed => List.isEmpty_iff.mp closed⟩

theorem flushAndSync_safe : SafeFrom .flushAndSync l := by
  simp only [SafeFrom, LogCall.run, LiveLog.flushAndSync, yields_map, yields_bind, yields_get]
  split
  · exact ⟨handles, noPanic_ok _, fun _ => trivial⟩
  · rw [yields_live]
    exact (yields_true _ _).mono (fun _ _ _ => ⟨handles, noPanic_ok _, fun _ => trivial⟩)
      (fun _ _ _ => ⟨handles, safe_err _ _ _⟩)

theorem close_safe : SafeFrom .close l := by
  simp only [SafeFrom, LogCall.run, LiveLog.close, yields_map, yields_bind, yields_get, yields_live,
    yields_modify]
  refine (yields_true _ _).mono (fun failed _ _ => ?_) (fun _ _ _ => ⟨handles, safe_err _ _ _⟩)
  cases failed with
  | some err => exact ⟨rfl, safe_err _ _ _⟩
  | none => exact ⟨rfl, noPanic_ok _, fun _ => trivial⟩

omit handles

theorem deleteSegmentsBefore_safe (handles : l.headClosed = false) (quiet : l.partition.world.Quiet)
    (cutoff : Int) : SafeFrom (.deleteSegmentsBefore cutoff) l := by
  have kept (l' : LiveLog) (same : l'.headClosed = false) : l'.setLogStart.headClosed = false := by
    rw [LiveLog.setLogStart]
    split <;> exact same
  simp only [SafeFrom, LogCall.run, LiveLog.deleteSegmentsBefore, yields_map, yields_bind, yields_get,
    yields_modify, yields_pure]
  by_cases closed : l.segments = []
  · rw [closed]
    exact ⟨kept l handles, noPanic_ok _, fun _ => rfl⟩
  · refine (deleteLoop_quiet cutoff l quiet).mono (fun _ l' ⟨deletions, _⟩ => ?_)
      fun _ _ impossible => impossible.elim
    exact ⟨kept l' (Deletions.handles deletions handles), noPanic_ok _, fun empty => absurd (List.isEmpty_iff.mp empty) closed⟩

end Calls

namespace LogsState

variable {s : LogsState} {event : LogEvent}

theorem fitting_safe (handles : (s.logs event.log).headClosed = false) (fitting : s.Fitting event) :
    SafeFrom event.call (facing (s.logs event.log) event.ticks) := by
  have handles' : (facing (s.logs event.log) event.ticks).headClosed = false := handles
  obtain ⟨log, call, ticks⟩ := event
  cases call with
  | highWatermark => exact highWatermark_safe handles'
  | logStartOffset => exact logStartOffset_safe handles' fitting
  | append paused batches => exact append_safe handles' paused batches
  | fetchAt fetchOffset maxBytes => exact fetchAt_safe handles' fitting.1.1 fitting.1.2 fitting.2
  | earliestOffset => exact earliestOffset_safe handles'
  | latestOffset => exact highWatermark_safe handles'
  | lookupOffsetByTimestamp ts => exact lookupOffsetByTimestamp_safe handles' ts
  | sealedSegments => exact sealedSegments_safe handles' fitting
  | allSegments => exact allSegments_safe handles'
  | deleteSegmentsBefore cutoff => exact deleteSegmentsBefore_safe handles' fitting cutoff
  | flushAndSync => exact flushAndSync_safe handles'
  | close => exact close_safe handles'

def Sound (s : LogsState) : Prop :=
  (∀ log, (s.logs log).headClosed = false) ∧ ∀ r ∈ s.returned, r.Safe

theorem step_sound (sound : Sound s) (fitting : s.Fitting event) : Sound (s.step event) := by
  have safe := fitting_safe (sound.1 event.log) fitting
  have next (l' : LiveLog) (same : l'.headClosed = false) (r : Returned) (ok : r.Safe) :
      Sound ⟨Function.update s.logs event.log l', s.returned ++ [r]⟩ := by
    refine ⟨fun log => ?_, fun r' member => ?_⟩
    · simp only [Function.update_apply]
      split
      · exact same
      · exact sound.1 log
    · rcases List.mem_append.mp member with old | new
      · exact sound.2 r' old
      · rw [List.mem_singleton.mp new]
        exact ok
  rw [step]
  split
  · next reply l' ran =>
      obtain ⟨same, ok⟩ := safe.of_ok ran
      exact next l' same _ ok
  · next fault l' ran =>
      obtain ⟨same, ok⟩ := safe.of_error ran
      exact next l' same _ ok

end LogsState

/-- In every run whose steps meet the conditions no operation panics, and what a closed log returns
is an error or empty. -/
theorem closed_logs_never_panic (logs : Nat → LiveLog) (opened : ∀ log, (logs log).headClosed = false)
    (events : List LogEvent)
    (guarded : Machine.Guarded LogsState.step LogsState.Fitting ⟨logs, []⟩ events) :
    ∀ r ∈ (Machine.exec LogsState.step ⟨logs, []⟩ events).returned,
      NoPanic r.reply ∧ (r.closed = true → r.Empty) := by
  have sound := guarded.invariant (fun _ s => LogsState.Sound s) ⟨logs, []⟩ ⟨opened, by simp⟩
    fun _ _ _ before fitting => LogsState.step_sound before fitting
  exact sound.2

private def openedLog : LiveLog :=
  match openLog ⟨61, 0, 4096, .none⟩ World.empty with
  | .ok log world => ⟨⟨log, world, []⟩, false⟩
  | .error _ world => ⟨⟨⟨⟨61, 0, 4096, .none⟩, [], 0⟩, world, []⟩, false⟩

private def closingRun : List LogEvent :=
  let requests : List LogCall :=
    [.append false [minimalBatch 0, minimalBatch 4], .fetchAt 0 1000, .deleteSegmentsBefore 1,
      .lookupOffsetByTimestamp 0, .flushAndSync, .allSegments, .earliestOffset]
  (.sealedSegments :: requests ++ .close :: requests).map fun call => ⟨0, call, []⟩

theorem closing_run_safe :
    (Machine.exec LogsState.step ⟨fun _ => openedLog, []⟩ closingRun).returned.length = 16 ∧
      ∀ r ∈ (Machine.exec LogsState.step ⟨fun _ => openedLog, []⟩ closingRun).returned,
        NoPanic r.reply ∧ (r.closed = true → r.Empty) :=
  ⟨by decide +kernel,
    closed_logs_never_panic _ (fun _ => by decide +kernel) closingRun (by decide +kernel)⟩

/-- A retention sweep that took its handles before the topic was deleted. -/
theorem sealedSegments_panics_when_closed :
    ((Machine.exec LogsState.step ⟨fun _ => openedLog, []⟩
      [⟨0, .close, []⟩, ⟨0, .sealedSegments, []⟩]).returned.map fun r =>
        (r.closed, match r.reply with | .error fault => some fault | .ok _ => none)) =
      [(false, none), (true, some .panic)] := by
  decide +kernel

end KafkaWire.Storage
