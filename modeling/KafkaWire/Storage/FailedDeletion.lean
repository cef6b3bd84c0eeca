import KafkaWire.Storage.Sweeps

/-! A deletion that fails half way. The handles of the segment are closed before its files are
removed, and the start of the log is moved once the loop has come to its end. -/

namespace KafkaWire.Storage

open Bytes Files Programs

structure LiveLog.Usable (l : LiveLog) : Prop where
  start : ∀ first ∈ l.segments.head?, l.partition.log.logStart = first.baseOffset
  lookups : ∀ ts, LiveLog.lookupOffsetByTimestamp ts l =
    .ok (l.segments.findSome? fun seg => seg.lookupOffsetByTimestamp ts) l
  fetches : ∀ offset maxBytes, LiveLog.fetchAt offset maxBytes l =
    match Storage.fetchAt l.partition.log l.partition.world offset maxBytes with
    | .ok result => .ok result l
    | .error fault => .error fault l

theorem LiveLog.usable_of_handles {l : LiveLog} (handles : l.headClosed = false)
    (start : ∀ first ∈ l.segments.head?, l.partition.log.logStart = first.baseOffset) :
    l.Usable := by
  refine ⟨start, fun ts => ?_, fun offset maxBytes => ?_⟩
  · simp only [LiveLog.lookupOffsetByTimestamp, get_bind, handles, Bool.false_eq_true, false_and,
      if_false]
    rfl
  · simp only [LiveLog.fetchAt, get_bind, handles, Bool.false_eq_true, and_false, if_false]
    cases Storage.fetchAt l.partition.log l.partition.world offset maxBytes <;> rfl

variable {cutoff : Int} {l l' : LiveLog}

theorem Deletions.drops (deletions : Deletions cutoff l l') : ∃ gone, Dropped gone l l' := by
  induction deletions using Relation.ReflTransGen.head_induction_on with
  | refl => exact ⟨[], .refl l'⟩
  | head deleted _ ih =>
    obtain ⟨gone, dropped⟩ := ih
    obtain ⟨seg, next, rest, shape, -, shape', -⟩ := deleted.head
    exact ⟨seg :: gone, .head deleted (by rw [shape, shape']) dropped⟩

theorem setLogStart_usable (handles : l.headClosed = false) : l.setLogStart.Usable := by
  rw [LiveLog.setLogStart]
  split
  · next first isFirst =>
      refine LiveLog.usable_of_handles handles fun first' isFirst' => ?_
      obtain rfl : first = first' := Option.some.inj (isFirst.symm.trans isFirst')
      rfl
  · next none' =>
      refine LiveLog.usable_of_handles handles fun first isFirst => ?_
      rw [none'] at isFirst
      cases isFirst

/-- Where a failing deletion leaves the log: everything in front of the segment is gone, the segment
itself is still listed, without its handles. -/
structure Stuck (l l' : LiveLog) : Prop where
  error : ¬ l.partition.world.Quiet
  handles : l'.headClosed = true
  listed : ∃ gone seg rest, l.segments = gone ++ seg :: rest ∧ l'.segments = seg :: rest ∧
    ∀ suffix key, key ≠ seg.baseOffset → (l'.partition.world.stores suffix).lookup key =
      if key ∈ gone.map Segment.baseOffset then none
      else (l.partition.world.stores suffix).lookup key

theorem HeadDamaged.stuck {middle : LiveLog} (deletions : Deletions cutoff l middle)
    (damaged : HeadDamaged middle l') : Stuck l l' := by
  obtain ⟨gone, dropped⟩ := deletions.drops
  obtain ⟨seg, next, rest, shape, touched⟩ := damaged.head
  refine ⟨fun quiet => damaged.noisy (deletions.later.quiet quiet), damaged.handles, gone, seg,
    next :: rest, ?_, ?_, ?_⟩
  · rw [dropped.segments, shape]
  · show l'.partition.log.segments = _
    rw [damaged.log]
    exact shape
  · intro suffix key apart
    rw [touched suffix key apart, dropped.files suffix key]

theorem Stuck.lookup_panics (stuck : Stuck l l') (ts : Int) :
    LiveLog.lookupOffsetByTimestamp ts l' = .error .panic l' := by
  obtain ⟨gone, seg, rest, -, listed, -⟩ := stuck.listed
  simp only [LiveLog.lookupOffsetByTimestamp, get_bind, stuck.handles, listed, List.isEmpty_cons,
    and_self, if_true]
  rfl

theorem Stuck.unusable (stuck : Stuck l l') : ¬ l'.Usable := by
  intro usable
  cases (usable.lookups 0).symm.trans (stuck.lookup_panics 0)

/-- A deletion that fails is reported, and what was deleted before it is no longer listed, but the log
is never usable then: every lookup by time panics. It is usable whenever the call succeeds, as it does
when no deletion fails. -/
theorem deleteSegmentsBefore_usable_iff_ok (cutoff : Int) (l : LiveLog)
    (handles : l.headClosed = false) :
    (∀ fault l', LiveLog.deleteSegmentsBefore cutoff l = .error fault l' →
      (∃ err, fault = .err err) ∧ Stuck l l' ∧ ¬ l'.Usable ∧
        ∀ ts, LiveLog.lookupOffsetByTimestamp ts l' = .error .panic l') ∧
    (∀ count l', LiveLog.deleteSegmentsBefore cutoff l = .ok count l' →
      l'.Usable ∧ ∃ gone, count = gone.length ∧ Dropped gone l l') ∧
    (l.partition.world.Quiet → ∃ count l', LiveLog.deleteSegmentsBefore cutoff l = .ok count l') := by
  have spec : Yields (LiveLog.deleteSegmentsBefore cutoff) l
      (fun count l' => l'.Usable ∧ ∃ gone, count = gone.length ∧ Dropped gone l l')
      (fun fault l' => (∃ err, fault = .err err) ∧ Stuck l l') := by
    simp only [LiveLog.deleteSegmentsBefore, yields_bind, yields_get, yields_modify, yields_pure]
    refine (deleteLoop_spec cutoff _ 0 l le_rfl).mono (fun count l' deleted => ?_) ?_
    rotate_left
    · rintro fault l' ⟨isErr, middle, deletions, damaged⟩
      exact ⟨isErr, damaged.stuck deletions⟩
    obtain ⟨deletions, -, total⟩ := deleted
    obtain ⟨gone, dropped⟩ := Deletions.drops deletions
    refine ⟨setLogStart_usable (Deletions.handles deletions handles), gone, ?_, ?_⟩
    · rw [dropped.segments, List.length_append] at total
      omega
    · have same : l'.setLogStart.segments = l'.segments ∧
          l'.setLogStart.partition.world = l'.partition.world := by
        rw [LiveLog.setLogStart]
        split <;> exact ⟨rfl, rfl⟩
      exact ⟨by rw [same.1]; exact dropped.segments, by rw [same.2]; exact dropped.files⟩
  refine ⟨fun fault l' failed => ?_, fun count l' done => ?_, fun quiet => ?_⟩
  · rw [Yields, failed] at spec
    exact ⟨spec.1, spec.2, spec.2.unusable, spec.2.lookup_panics⟩
  · rw [Yields, done] at spec
    exact spec
  · cases ran : LiveLog.deleteSegmentsBefore cutoff l with
    | ok count l' => exact ⟨count, l', rfl⟩
    | error fault l' =>
      rw [Yields, ran] at spec
      exact absurd quiet spec.2.error

theorem two_segments_deleted :
    ∃ count l', LiveLog.deleteSegmentsBefore 2 (threeSegments []) = .ok count l' ∧ l'.Usable ∧
      count = 2 ∧ l'.segments.map Segment.summary = [(2, 61, 3)] := by
  obtain ⟨-, succeeded, returns⟩ := deleteSegmentsBefore_usable_iff_ok 2 (threeSegments [])
    (by decide +kernel)
  obtain ⟨count, l', done⟩ := returns threeSegments_quiet
  have seen : Yields (LiveLog.deleteSegmentsBefore 2) (threeSegments [])
      (fun count l' => count = 2 ∧ l'.segments.map Segment.summary = [(2, 61, 3)])
      (fun _ _ => False) := by decide +kernel
  exact ⟨count, l', done, (succeeded count l' done).1, seen.of_ok done⟩

def panics {α : Type} : EStateM.Result Fault LiveLog α → Bool
  | .error .panic _ => true
  | _ => false

def halfDeleted : Option LiveLog :=
  match LiveLog.deleteSegmentsBefore 2
    (threeSegments (List.replicate 9 ⟨0, none⟩ ++ [⟨0, some 0⟩])) with
  | .ok _ _ => none
  | .error _ l' => some l'

/-- The second segment is listed first, without its handles, and the log still starts at the first
one. Reads of the segment, and all lookups by time, panic. -/
theorem failed_deletion_unusable :
    halfDeleted.map (fun l => (l.segments.map Segment.summary, l.partition.log.logStart,
        panics (LiveLog.fetchAt 1 100 l), panics (LiveLog.lookupOffsetByTimestamp 0 l))) =
      some ([(1, 61, 2), (2, 61, 3)], 0, true, true) := by
  decide +kernel

end KafkaWire.Storage
