import KafkaWire.Storage.Renewal
import KafkaWire.Storage.Restart

/-! Everything that happens to the directory of one partition: it is opened, appended to, cut short
by retention, closed, and opened again. -/

namespace KafkaWire.Storage

open Bytes Files Programs Related

inductive LogOp
  | append (paused : Bool) (batches : List Bytes)
  | deleteSegmentsBefore (cutoff : Int)
  | close
  | openLog

structure LogStep where
  op : LogOp
  ticks : List Tick

namespace LiveLog

def after {α : Type} (prog : LiveM α) (l : LiveLog) : LiveLog :=
  match prog l with
  | .ok _ l' => l'
  | .error _ l' => l'

theorem after_spec {α : Type} {prog : LiveM α} {l : LiveLog} {post : LiveLog → Prop}
    (spec : Yields prog l (fun _ l' => post l') fun _ l' => post l') : post (after prog l) := by
  unfold Yields at spec
  unfold after
  split at spec <;> simp_all

def reopen (cfg : Config) (l : LiveLog) : LiveLog :=
  if l.segments.isEmpty then
    match Storage.openLog cfg l.partition.world with
    | .ok log world => ⟨⟨log, world, []⟩, false⟩
    | .error _ world => { l with partition := { l.partition with world := world } }
  else l

def operate (cfg : Config) (l : LiveLog) (event : LogStep) : LiveLog :=
  let l := LogsState.facing l event.ticks
  match event.op with
  | .append paused batches => after (live (Storage.append paused batches)) l
  | .deleteSegmentsBefore cutoff => after (deleteSegmentsBefore cutoff) l
  | .close => after close l
  | .openLog => reopen cfg l

def unopened (cfg : Config) : LiveLog := ⟨⟨⟨cfg, [], 0⟩, World.empty, []⟩, false⟩

end LiveLog

structure Formed (cfg : Config) (p : Partition) : Prop where
  shaped : Shaped p
  cfg : p.log.cfg = cfg

/-- The files of a log that is open, or of one that was closed. With `smooth` the log has its shape
as well. -/
structure Kept (cfg : Config) (smooth : Prop) (opened : Bool) (l : LiveLog) : Prop where
  handles : l.headClosed = false
  files : match opened with
    | true => Retained l.partition ∧ Clean l.partition.world ∧ (smooth → Formed cfg l.partition)
    | false => l.segments = [] ∧ (l.partition.world.Bare ∨
        ∃ p, Rests p l.partition.world ∧ (smooth → Formed cfg p))

section Steps

variable {cfg : Config} {smooth : Prop} {opened : Bool} {l : LiveLog}

theorem Retained.segments_ne {p : Partition} (retained : Retained p) : p.log.segments ≠ [] := by
  intro empty
  have start := retained.start
  rw [empty] at start
  cases start

theorem Kept.facing_at (kept : Kept cfg smooth opened l) (time : Int) (ticks : List Tick) :
    Kept cfg smooth opened { l with partition := { l.partition with
      world := { l.partition.world with time := time, pending := ticks } } } := by
  refine ⟨kept.handles, ?_⟩
  cases opened with
  | true =>
    obtain ⟨retained, clean, formed⟩ := kept.files
    obtain ⟨front, active, old, new, intact⟩ := retained.intact
    exact ⟨⟨⟨front, active, old, new, intact.idle rfl⟩, retained.start⟩, clean,
      fun isSmooth => ⟨(formed isSmooth).shaped.congr rfl, (formed isSmooth).cfg⟩⟩
  | false =>
    obtain ⟨closed, bare | ⟨p, rests, formed⟩⟩ := kept.files
    · exact ⟨closed, .inl bare⟩
    · exact ⟨closed, .inr ⟨p, ⟨rests.retained, rests.unsealed, rests.clean, rests.files⟩, formed⟩⟩

theorem Kept.facing (kept : Kept cfg smooth opened l) (ticks : List Tick) :
    Kept cfg smooth opened (LogsState.facing l ticks) := kept.facing_at _ ticks

theorem Kept.append (kept : Kept cfg smooth opened l) (calm : l.partition.world.Calm)
    (quiet : smooth → 0 < cfg.segmentBytes ∧ l.partition.world.Quiet) (paused : Bool)
    (batches : List Bytes) (valid : ∀ batch ∈ checkedBatches paused batches, IsBatch batch)
    (fits : Fits l.partition.log.highWatermark (checkedBatches paused batches)) :
    Kept cfg smooth opened (LiveLog.after (live (Storage.append paused batches)) l) := by
  refine LiveLog.after_spec (yields_live.mpr ?_)
  cases opened with
  | true =>
    obtain ⟨retained, clean, formed⟩ := kept.files
    obtain ⟨front, active, old, new, intact⟩ := retained.intact
    have layout := intact.readable.layout
    have effects := append_effects layout calm paused batches valid fits
    have shaped : Yields (Storage.append paused batches) l.partition
        (fun _ p' => smooth → Shaped p') (fun _ p' => smooth → Shaped p') := by
      by_cases isSmooth : smooth
      · obtain ⟨isShaped, rfl⟩ := formed isSmooth
        refine (append_shaped layout (quiet isSmooth).2 isShaped (quiet isSmooth).1 paused batches
          fun running accepted => ?_).mono (fun _ _ final _ => final) fun _ _ final _ => final
        rw [checkedBatches, if_pos ⟨running, accepted⟩] at fits
        exact fits
      · exact (yields_ran _ _).mono (fun _ _ _ impossible => absurd impossible isSmooth)
          fun _ _ _ impossible => absurd impossible isSmooth
    have onwards (p' : Partition) (effects : Effects IsBatch False l.partition p')
        (shaped : smooth → Shaped p') : Kept cfg smooth true { l with partition := p' } := by
      refine ⟨kept.handles, Effects.retained effects retained, Effects.clean effects intact clean,
        fun isSmooth => ⟨shaped isSmooth, ?_⟩⟩
      exact (Effects.cfg effects).trans (formed isSmooth).cfg
    exact (effects.and shaped).mono (fun _ p' both => onwards p' both.1 both.2)
      fun _ p' both => onwards p' both.1 both.2
  | false =>
    obtain ⟨closed, -⟩ := kept.files
    have unchanged : Kept cfg smooth false { l with partition := l.partition } := kept
    unfold Storage.append
    dsimp only
    split
    · exact unchanged
    · split
      · exact unchanged
      · rw [yields_bind, yields_get, show l.partition.log.segments = [] from closed]
        exact unchanged

theorem Kept.deleteSegmentsBefore (kept : Kept cfg smooth opened l) (quiet : l.partition.world.Quiet)
    (cutoff : Int) : Kept cfg smooth opened (LiveLog.after (LiveLog.deleteSegmentsBefore cutoff) l) := by
  refine LiveLog.after_spec ?_
  cases opened with
  | true =>
    obtain ⟨retained, clean, formed⟩ := kept.files
    refine ((deleteSegmentsBefore_advances cutoff l kept.handles quiet retained).and
      (deleteSegmentsBefore_prunes cutoff l quiet)).mono ?_
      fun _ _ impossible => impossible.1.elim
    rintro _ l' ⟨⟨handles, advances⟩, pruned⟩
    exact ⟨handles, advances.retained, pruned.clean clean, fun isSmooth =>
      ⟨pruned.shaped (formed isSmooth).shaped, pruned.cfg.trans (formed isSmooth).cfg⟩⟩
  | false =>
    obtain ⟨closed, -⟩ := kept.files
    simp only [LiveLog.deleteSegmentsBefore, yields_bind, yields_get, yields_modify, yields_pure]
    rw [closed]
    show Kept cfg smooth false l.setLogStart
    rw [LiveLog.setLogStart, closed]
    exact kept

theorem Kept.close (kept : Kept cfg smooth opened l) (unsealed : smooth ∨ Unsealed l.partition) :
    Kept cfg smooth false (LiveLog.after LiveLog.close l) := by
  refine LiveLog.after_spec ?_
  have onwards (l' : LiveLog) (emptied : Emptied l l') : Kept cfg smooth false l' := by
    refine ⟨emptied.handles, emptied.segments, ?_⟩
    cases opened with
    | true =>
      obtain ⟨retained, clean, formed⟩ := kept.files
      refine .inr ⟨l.partition, ⟨retained, ?_, clean, emptied.files⟩, formed⟩
      exact unsealed.elim (fun isSmooth => (formed isSmooth).shaped.unsealed) id
    | false =>
      obtain ⟨-, bare | ⟨p, rests, formed⟩⟩ := kept.files
      · refine .inl fun suffix => ?_
        rw [emptied.files]
        exact bare suffix
      · exact .inr ⟨p, ⟨rests.retained, rests.unsealed, rests.clean,
          emptied.files.trans rests.files⟩, formed⟩
  exact (close_empties l).mono (fun _ l' emptied => onwards l' emptied)
    fun _ l' emptied => onwards l' emptied

theorem Fresh.clean {world after : World} {log : Log} (fresh : Fresh cfg world log after) :
    Clean after := by
  intro key empty
  by_cases own : key = 0
  · rw [own]
    exact fresh.vacant
  · intro suffix file found
    rw [fresh.other suffix key own] at found
    cases found

theorem Fresh.formed {world after : World} {log : Log} (fresh : Fresh cfg world log after)
    (limit : 0 < cfg.segmentBytes) : Formed cfg ⟨log, after, []⟩ := by
  obtain ⟨logFd, idxFd, tixFd, createdAt, rfl, -⟩ := fresh.log
  refine ⟨Shaped.of_segments (p := ⟨⟨cfg, [], 0⟩, after, []⟩) (List.nil_append _).symm rfl (by simp)
    rfl ?_ ?_ ?_, rfl⟩
  · simp [emptySegment, segmentOpts]
  · simp only [List.nil_append, List.mem_singleton, forall_eq, emptySegment]
    omega
  · exact fun filled => absurd rfl filled

theorem Kept.reopen (kept : Kept cfg smooth opened l) (quiet : l.partition.world.Quiet)
    (limit : smooth → 0 < cfg.segmentBytes) : Kept cfg smooth true (l.reopen cfg) := by
  unfold LiveLog.reopen
  cases opened with
  | true =>
    rw [if_neg (by simpa [LiveLog.segments] using kept.files.1.segments_ne)]
    exact kept
  | false =>
    obtain ⟨closed, files⟩ := kept.files
    rw [if_pos (List.isEmpty_iff.mpr closed)]
    rcases files with bare | ⟨p, rests, formed⟩
    · have spec := openLog_bare cfg l.partition.world bare
      split
      · next log world ran =>
          have fresh := (spec.of_ok ran).2
          exact ⟨rfl, fresh.recorded.retained, fresh.clean,
            fun isSmooth => fresh.formed (limit isSmooth)⟩
      · next ran => exact absurd (spec.of_error ran).1 (quiet.not_blocked 8)
    · obtain ⟨log, world, ran, resumes, config⟩ := (rests.reopen quiet cfg).succeeds
      rw [ran]
      refine ⟨rfl, resumes.retained, resumes.clean, fun isSmooth => ⟨?_, config⟩⟩
      exact resumes.shaped ((formed isSmooth).cfg.trans config.symm) (formed isSmooth).shaped

end Steps

def LogStep.leavesOpen (opened : Bool) (event : LogStep) : Bool :=
  match event.op with
  | .openLog => true
  | .close => false
  | _ => opened

def isOpen (events : List LogStep) : Bool := events.foldl LogStep.leavesOpen false

theorem isOpen_concat (events : List LogStep) (event : LogStep) :
    isOpen (events ++ [event]) = event.leavesOpen (isOpen events) := by
  rw [isOpen, List.foldl_append]
  rfl

def LiveLog.Undisturbed (l : LiveLog) (event : LogStep) : Prop :=
  (∀ tick ∈ event.ticks, tick.fault = none) ∧
    match event.op with
    | .append paused batches => (∀ batch ∈ checkedBatches paused batches, IsBatch batch) ∧
        Fits l.partition.log.highWatermark (checkedBatches paused batches)
    | _ => True

instance (l : LiveLog) (event : LogStep) : Decidable (l.Undisturbed event) :=
  match event with
  | ⟨.append paused batches, ticks⟩ =>
    inferInstanceAs (Decidable ((∀ tick ∈ ticks, tick.fault = none) ∧
      (∀ batch ∈ checkedBatches paused batches, IsBatch batch) ∧
        Fits l.partition.log.highWatermark (checkedBatches paused batches)))
  | ⟨.deleteSegmentsBefore _, ticks⟩ | ⟨.close, ticks⟩ | ⟨.openLog, ticks⟩ =>
    inferInstanceAs (Decidable ((∀ tick ∈ ticks, tick.fault = none) ∧ True))

/-- A write that fails writes nothing, the other calls of retention and of opening succeed, and the
log is not closed between the two halves of a roll. -/
def LiveLog.Steady (l : LiveLog) (event : LogStep) : Prop :=
  match event.op with
  | .append paused batches => (∀ tick ∈ event.ticks, tick.fault = none ∨ tick.fault = some 0) ∧
      (∀ batch ∈ checkedBatches paused batches, IsBatch batch) ∧
      Fits l.partition.log.highWatermark (checkedBatches paused batches)
  | .deleteSegmentsBefore _ | .openLog => ∀ tick ∈ event.ticks, tick.fault = none
  | .close => ∀ active ∈ l.segments.getLast?, active.sealed = false

instance (l : LiveLog) (event : LogStep) : Decidable (l.Steady event) :=
  match event with
  | ⟨.append paused batches, ticks⟩ =>
    inferInstanceAs (Decidable ((∀ tick ∈ ticks, tick.fault = none ∨ tick.fault = some 0) ∧
      (∀ batch ∈ checkedBatches paused batches, IsBatch batch) ∧
        Fits l.partition.log.highWatermark (checkedBatches paused batches)))
  | ⟨.deleteSegmentsBefore _, ticks⟩ | ⟨.openLog, ticks⟩ =>
    inferInstanceAs (Decidable (∀ tick ∈ ticks, tick.fault = none))
  | ⟨.close, _⟩ => inferInstanceAs (Decidable (∀ active ∈ l.segments.getLast?, active.sealed = false))

section Runs

variable {cfg : Config} {smooth : Prop} {opened : Bool} {l : LiveLog}

theorem unopened_kept (cfg : Config) (smooth : Prop) :
    Kept cfg smooth false (LiveLog.unopened cfg) :=
  ⟨rfl, rfl, .inl World.bare_empty⟩

theorem Kept.undisturbed (kept : Kept cfg True opened l) (limit : 0 < cfg.segmentBytes)
    (event : LogStep) (undisturbed : l.Undisturbed event) :
    Kept cfg True (event.leavesOpen opened) (l.operate cfg event) := by
  obtain ⟨op, ticks⟩ := event
  obtain ⟨quiet, request⟩ := undisturbed
  have kept' := kept.facing ticks
  cases op with
  | append paused batches =>
    exact kept'.append (fun tick member => .inl (quiet tick member)) (fun _ => ⟨limit, quiet⟩) paused
      batches request.1 request.2
  | deleteSegmentsBefore cutoff => exact kept'.deleteSegmentsBefore quiet cutoff
  | close => exact kept'.close (.inl trivial)
  | openLog => exact kept'.reopen quiet fun _ => limit

theorem undisturbed_kept (cfg : Config) (limit : 0 < cfg.segmentBytes) (events : List LogStep)
    (guarded : Machine.Guarded (LiveLog.operate cfg) LiveLog.Undisturbed (.unopened cfg) events) :
    Kept cfg True (isOpen events) (Machine.exec (LiveLog.operate cfg) (.unopened cfg) events) := by
  refine guarded.invariant (fun past l => Kept cfg True (isOpen past) l) _ (unopened_kept cfg True)
    ?_ events
  intro past l event kept undisturbed
  rw [isOpen_concat]
  exact kept.undisturbed limit event undisturbed

theorem Kept.steady (kept : Kept cfg False opened l) (event : LogStep) (steady : l.Steady event) :
    Kept cfg False (event.leavesOpen opened) (l.operate cfg event) := by
  obtain ⟨op, ticks⟩ := event
  have kept' := kept.facing ticks
  cases op with
  | append paused batches =>
    obtain ⟨calm, valid, fits⟩ := steady
    exact kept'.append calm False.elim paused batches valid fits
  | deleteSegmentsBefore cutoff => exact kept'.deleteSegmentsBefore steady cutoff
  | close => exact kept'.close (.inr steady)
  | openLog => exact kept'.reopen steady False.elim

theorem steady_kept (cfg : Config) (events : List LogStep)
    (guarded : Machine.Guarded (LiveLog.operate cfg) LiveLog.Steady (.unopened cfg) events) :
    Kept cfg False (isOpen events) (Machine.exec (LiveLog.operate cfg) (.unopened cfg) events) :=
  guarded.invariant (fun past l => Kept cfg False (isOpen past) l) _ (unopened_kept cfg False)
    (fun past l event kept steady => by
      rw [isOpen_concat]
      exact kept.steady event steady) events

end Runs

/-- As long as no call fails, an open log consists of sealed segments that are not empty and of one
that is not sealed, each starting where the one before it ends. -/
theorem open_log_well_formed (cfg : Config) (limit : 0 < cfg.segmentBytes) (events : List LogStep)
    (guarded : Machine.Guarded (LiveLog.operate cfg) LiveLog.Undisturbed (.unopened cfg) events)
    (opened : isOpen events = true) :
    let l := Machine.exec (LiveLog.operate cfg) (.unopened cfg) events
    l.segments ≠ [] ∧
      (l.segments.map Segment.baseOffset).Pairwise (· < ·) ∧
      l.segments.IsChain (fun before next => next.baseOffset = before.nextOffset) ∧
      (∀ s ∈ l.segments.dropLast, s.sealed = true ∧ s.logSize ≠ 0 ∧ s.baseOffset < s.nextOffset) ∧
      (∀ s, l.segments.getLast? = some s → s.sealed = false) ∧
      l.segments.head?.map Segment.baseOffset = some l.partition.log.logStart ∧
      ∀ s ∈ l.segments, (s.logSize : Int) < cfg.segmentBytes + maxBatchSize := by
  intro l
  have kept : Kept cfg True (isOpen events) l := undisturbed_kept cfg limit events guarded
  rw [opened] at kept
  obtain ⟨retained, clean, formed⟩ := kept.files
  obtain ⟨shaped, config⟩ := formed trivial
  obtain ⟨front, active, old, new, intact⟩ := retained.intact
  have layout := intact.readable.layout
  refine ⟨retained.segments_ne, layout.ascending, ?_, ?_, shaped.unsealed, retained.start, ?_⟩
  · show l.partition.log.segments.IsChain _
    rw [layout.segments]
    exact layout.linked.imp fun _ _ same => same.symm
  · intro s member
    have isFront : s ∈ front := by
      rw [LiveLog.segments, layout.segments, List.dropLast_concat] at member
      exact member
    obtain ⟨group, -, holds⟩ := forall₂_mem_left intact.readable.old s isFront
    have filled := layout.filled s isFront
    refine ⟨shaped.sealed s member, ?_, filled⟩
    cases group with
    | nil => exact absurd rfl (holds.tiles.nonempty filled.ne)
    | cons batch rest =>
      have long := (holds.tiles.isBatch batch List.mem_cons_self).length_ge
      rw [holds.size, List.flatten_cons, List.length_append]
      omega
  · intro s member
    rw [← config]
    exact shaped.sized s member

theorem reopened_log_well_formed :
    let events : List LogStep := [⟨.openLog, []⟩, ⟨.append false [minimalBatch 0, minimalBatch 4], []⟩,
      ⟨.append false [minimalBatch 2], []⟩, ⟨.deleteSegmentsBefore 1, []⟩, ⟨.close, []⟩, ⟨.openLog, []⟩]
    let l := Machine.exec (LiveLog.operate ⟨61, 0, 4096, .none⟩) (.unopened ⟨61, 0, 4096, .none⟩) events
    isOpen events = true ∧ l.segments ≠ [] := by
  intro events l
  exact ⟨by decide, (open_log_well_formed ⟨61, 0, 4096, .none⟩ (by decide) events (by decide +kernel)
    (by decide)).1⟩

/-- The first segment loses its batch when the log is opened again, and the second one still starts
behind it. -/
theorem overlong_batch_breaks_chain :
    let cfg : Config := ⟨1, 0, 4096, .none⟩
    let events : List LogStep := [⟨.openLog, []⟩, ⟨.append false [overlongBatch], []⟩,
      ⟨.append false [minimalBatch 0], []⟩, ⟨.close, []⟩, ⟨.openLog, []⟩]
    0 < cfg.segmentBytes ∧ 0 ≤ (decodeHeader overlongBatch).lastOffsetDelta ∧
      0 ≤ (decodeHeader (minimalBatch 0)).lastOffsetDelta ∧ isOpen events = true ∧
      (Machine.exec (LiveLog.operate cfg) (.unopened cfg) events).segments.map Segment.summary =
        [(0, 0, 0), (1, 61, 2)] := by
  intro cfg events
  refine ⟨by decide, by decide +kernel, by decide +kernel, by decide, ?_⟩
  let l := LogsState.facing (Machine.exec (LiveLog.operate cfg) (.unopened cfg) (events.take 4)) []
  have closed : l.segments.isEmpty = true ∧ l.partition.world.pending = [] ∧
      (l.partition.world.stores .log).keys = [1, 0] := by decide +kernel
  have listed : segmentBases (l.partition.world.stores .log).keys = [0, 1] := by
    refine segmentBases_eq _ _ (Store.keys_nodup _) (by decide) (by decide) fun key => ?_
    rw [closed.2.2]
    simp [or_comm]
  have opened := openLog_listed cfg l.partition.world [0, 1] closed.2.1 listed (by simp)
  have outcome : Yields (openAll cfg [0, 1]) l.partition.world
      (fun segments _ => segments.map Segment.summary = [(0, 0, 0), (1, 61, 2)])
      (fun _ _ => False) := by decide +kernel
  obtain ⟨segments, after, ran, summaries⟩ := outcome.succeeds
  have last : Machine.exec (LiveLog.operate cfg) (.unopened cfg) events = l.reopen cfg := rfl
  rw [last, LiveLog.reopen, if_pos closed.1, opened, ran]
  exact summaries

end KafkaWire.Storage
