import KafkaWire.Storage.Retained
import KafkaWire.Storage.TimeSamples

/-! Lookups by timestamp in logs whose batches are all sampled. -/

namespace KafkaWire.Storage

open Bytes Files Programs Related

variable {batches : List Bytes} {cfg : Config}

structure Paced (interval : Int) (batches : List Bytes) : Prop where
  long : ∀ batch ∈ batches, interval ≤ batch.length
  ordered : batches.Pairwise fun a b => maxTimestamp a < maxTimestamp b

theorem Paced.sublist {interval : Int} {fewer : List Bytes} (paced : Paced interval batches)
    (sub : fewer.Sublist batches) : Paced interval fewer :=
  ⟨fun batch member => paced.long batch (sub.subset member), paced.ordered.sublist sub⟩

structure OnTime (interval : Int) (p : Partition) : Prop where
  timed : ∃ front active old new, Intact p front active old new ∧
    (old ++ [new]).flatten = p.journal.map Stored.written ∧
    List.Forall₂ (Timed interval) front old ∧ Timed interval active new
  entries : ∀ entry ∈ p.journal, IsBatch entry.sent ∧
    ∃ offset, entry.written = stamp entry.sent offset
  cfg : p.log.cfg.indexInterval = interval

section Steps

variable {interval : Int} {p p' : Partition}

theorem Timed.withSealed {s : Segment} (timed : Timed interval s batches)
    (isSealed : Bool) : Timed interval { s with sealed := isSealed } batches :=
  ⟨timed.entries, timed.last, timed.interval⟩

theorem emptySegment_timed (cfg : Config) (base : Int) (logFd idxFd tixFd : Nat) (createdAt : Int)
    (same : cfg.indexInterval = interval) :
    Timed interval (emptySegment (segmentOpts cfg base) logFd idxFd tixFd createdAt) [] := by
  refine ⟨rfl, fun front batch shape => ?_, same⟩
  simp at shape

theorem Effect.onTime (effect : Effect (fun _ => False) False p p') (onTime : OnTime interval p) :
    OnTime interval p' := by
  obtain ⟨front, active, old, new, intact, stored, timedOld, timedNew⟩ := onTime.timed
  have layout := intact.readable.layout
  have journal : p'.journal = p.journal := Silent.journal (.single effect)
  have finish (front' : List Segment) (active' : Segment) (old' : List (List Bytes))
      (new' : List Bytes) (intact' : Intact p' front' active' old' new')
      (same : (old' ++ [new']).flatten = (old ++ [new]).flatten)
      (timedOld' : List.Forall₂ (Timed interval) front' old') (timedNew' : Timed interval active' new') :
      OnTime interval p' :=
    ⟨⟨front', active', old', new', intact', by rw [same, stored, journal], timedOld', timedNew'⟩,
      by rw [journal]; exact onTime.entries, (congrArg _ effect.cfg).trans onTime.cfg⟩
  cases effect with
  | idle later same => exact finish _ _ _ _ (intact.idle same) rfl timedOld timedNew
  | tore segments tore allowed =>
    obtain ⟨rfl, rfl⟩ := segments_unique layout.segments segments
    exact finish _ _ _ _ (intact.tore tore (allowed.resolve_left id)) rfl timedOld timedNew
  | stored segments member => exact member.elim
  | synced segments later synced =>
    obtain ⟨rfl, rfl⟩ := segments_unique layout.segments segments
    exact finish _ _ _ _ (intact.synced synced) rfl timedOld timedNew
  | closed segments later synced =>
    obtain ⟨rfl, rfl⟩ := segments_unique layout.segments segments
    exact finish _ _ _ _ (intact.closed synced) rfl timedOld (timedNew.withSealed true)
  | opening segments isSealed ahead opening handles =>
    obtain ⟨rfl, rfl⟩ := segments_unique layout.segments segments
    exact finish _ _ _ _ (intact.opening isSealed ahead opening handles) rfl timedOld timedNew
  | rolled idxFd tixFd createdAt segments isSealed ahead opening added =>
    obtain ⟨rfl, rfl⟩ := segments_unique layout.segments segments
    exact finish _ _ _ _
      (intact.rolled p.log.cfg idxFd tixFd createdAt isSealed ahead opening added) (by simp)
      (List.rel_append timedOld (.cons timedNew .nil))
      (emptySegment_timed _ _ _ _ _ _ onTime.cfg)

theorem Silent.onTime (silent : Silent False p p') (onTime : OnTime interval p) :
    OnTime interval p' := by
  induction silent with
  | refl => exact onTime
  | tail _ effect ih => exact effect.onTime ih

theorem OnTime.written (onTime : OnTime interval p) {batch : Bytes} {rest : List Bytes}
    (paced : Paced interval (p.journal.map Stored.sent ++ batch :: rest)) :
    ∀ b ∈ p.journal.map Stored.written, interval ≤ b.length ∧ maxTimestamp b < maxTimestamp batch := by
  rw [List.forall_mem_map]
  intro entry member
  obtain ⟨whole, offset, same⟩ := onTime.entries entry member
  have sent : entry.sent ∈ p.journal.map Stored.sent := List.mem_map_of_mem member
  rw [same, maxTimestamp_stamp _ _ whole.length_ge, stamp_length _ _ whole.length_ge]
  exact ⟨paced.long _ (List.mem_append_left _ sent),
    (List.pairwise_append.mp paced.ordered).2.2 _ sent _ List.mem_cons_self⟩

theorem OnTime.stored {front : List Segment} {active : Segment} {batch : Bytes} {rest : List Bytes}
    {done : Appended} {after : World} (onTime : OnTime interval p) (layout : Layout p front active)
    (whole : IsBatch batch) (counted : 0 < offsetCount batch)
    (fits : active.nextOffset + offsetCount batch < 2 ^ 63) (near : active.nextOffset < 2 ^ 32)
    (paced : Paced interval (p.journal.map Stored.sent ++ batch :: rest))
    (quiet : p.world.Quiet)
    (ran : active.append (stamp batch active.nextOffset) p.world = .ok done after) :
    OnTime interval (recordStored batch (stamp batch active.nextOffset) done { p with world := after }) := by
  obtain ⟨front', active', old, new, intact, stored, timedOld, timedNew⟩ := onTime.timed
  obtain ⟨rfl, rfl⟩ := segments_unique layout.segments intact.readable.layout.segments
  have long := whole.length_ge
  have wrote := (active.append_spec _ p.world layout.active_keyed).of_ok ran
  have base := (stamp_offsets batch _ long layout.next_positive counted fits).1
  have positive := layout.active_positive
  have upward := layout.upward
  have known := onTime.written paced
  have inNew (b : Bytes) (member : b ∈ new) : b ∈ p.journal.map Stored.written := by
    rw [← stored]
    simp [member]
  have relative : int64 ((decodeHeader (stamp batch active.nextOffset)).baseOffset - active.baseOffset) =
      (decodeHeader (stamp batch active.nextOffset)).baseOffset - active.baseOffset := by
    rw [base]
    exact int64_of_range _ (by omega) (by omega)
  have due := timedNew.due intact.readable.new.size (fun b member => (known b (inNew b member)).1)
    (maxTimestamp (stamp batch active.nextOffset))
    (int64 ((decodeHeader (stamp batch active.nextOffset)).baseOffset - active.baseOffset))
    (fun b member => by
      rw [maxTimestamp_stamp _ _ long]
      exact (known b (inNew b member)).2)
    (by rw [relative, base]; omega) (by rw [relative, base]; omega)
  have sampled := (active.append_due _ quiet due).of_ok ran
  rw [relative] at sampled
  refine ⟨⟨front, _, old, _, intact.stored whole counted fits wrote, ?_, timedOld,
    timedNew.append intact.readable.new.size wrote.baseOffset sampled⟩, ?_, onTime.cfg⟩
  · simp [recordStored, ← stored]
  · intro entry member
    rcases List.mem_append.mp member with known | new
    · exact onTime.entries entry known
    · rw [List.mem_singleton.mp new]
      exact ⟨whole, active.nextOffset, rfl⟩

theorem appendLoop_onTime (batches : List Bytes) (p : Partition) (front : List Segment)
    (active : Segment) (i : Nat) (layout : Layout p front active) (onTime : OnTime interval p)
    (quiet : p.world.Quiet) (accepted : ∀ batch ∈ batches, validateBatchForAppend batch = none)
    (valid : ∀ batch ∈ batches, IsBatch batch) (fits : Fits active.nextOffset batches)
    (near : active.nextOffset + (batches.map offsetCount).sum ≤ 2 ^ 32)
    (paced : Paced interval (p.journal.map Stored.sent ++ batches)) :
    Yields (appendLoop active batches i) p (fun _ p' => OnTime interval p')
      (fun _ p' => OnTime interval p') := by
  induction batches generalizing p front active i with
  | nil => exact onTime
  | cons batch rest ih =>
    have whole := valid batch List.mem_cons_self
    have long := whole.length_ge
    obtain ⟨counted, room⟩ := fits.head
    have others := sum_offsetCount_nonneg rest fun b member =>
      fits.1 b (List.mem_cons_of_mem _ member)
    rw [List.map_cons, List.sum_cons] at near
    unfold appendLoop
    rw [yields_bind, yields_mapError, yields_sys]
    refine ((active.append_spec _ p.world layout.active_keyed).and (yields_ran _ _)).mono ?_ ?_
    · rintro done after ⟨wrote, ran⟩
      rw [yields_bind, yields_modify]
      have layout₂ := layout.stored long counted room wrote
      have onTime₂ := onTime.stored layout whole counted room (by omega) paced quiet ran
      have quiet₂ : after.Quiet := (Later.trans p.world.pending_advance wrote.later).quiet quiet
      -- The rest of the loop, from any state that a check for a roll may lead to.
      have onwards (q : Partition) (seg : Segment)
          (silent : Silent False (recordStored batch (stamp batch active.nextOffset) done
            { p with world := after }) q)
          (last : q.log.segments.getLast? = some seg) :
          Yields (appendLoop seg rest (i + 1)) q (fun _ p' => OnTime interval p')
            (fun _ p' => OnTime interval p') := by
        obtain ⟨front', layout', next⟩ := silent.last layout₂ last
        rw [wrote.nextOffset_stamp long layout.next_positive counted room] at next
        refine ih q front' seg (i + 1) layout' (silent.onTime onTime₂)
          ((Effects.later silent).quiet quiet₂)
          (fun b member => accepted b (List.mem_cons_of_mem _ member))
          (fun b member => valid b (List.mem_cons_of_mem _ member)) ?_ (by rw [next]; omega) ?_
        · rw [next]
          exact fits.tail
        · rw [silent.journal]
          simpa [recordStored] using paced
      split
      · rw [yields_bind, yields_pure]
        exact onwards _ done.segment .refl layout₂.last
      · exact yields_rollCheck False layout₂ _ (fun seg => appendLoop seg rest (i + 1))
          (fun seg q silent last _ => onwards q seg silent last)
          fun _ q silent _ => silent.onTime onTime₂
    · rintro _ after ⟨⟨-, rfl⟩ | ⟨count, faulty, -⟩, -⟩
      · exact onTime
      · rw [quiet.next] at faulty
        cases faulty

theorem append_onTime (onTime : OnTime interval p) (quiet : p.world.Quiet) (paused : Bool)
    (batches : List Bytes) (valid : ∀ batch ∈ batches, IsBatch batch)
    (fits : Fits p.log.highWatermark (checkedBatches paused batches))
    (near : p.log.highWatermark + ((checkedBatches paused batches).map offsetCount).sum ≤ 2 ^ 32)
    (paced : Paced interval (p.journal.map Stored.sent ++ checkedBatches paused batches)) :
    Yields (append paused batches) p (fun _ p' => OnTime interval p') (fun _ p' => OnTime interval p') := by
  obtain ⟨front, active, old, new, intact, -, -⟩ := onTime.timed
  have layout := intact.readable.layout
  unfold append
  dsimp only
  split
  · exact onTime
  · next running =>
    split
    · exact onTime
    · rw [yields_bind, yields_get, layout.last]
      refine yields_rollCheck False layout _ _ ?_ fun _ _ silent _ => silent.onTime onTime
      intro seg q silent last _
      obtain ⟨front', layout', next⟩ := silent.last layout last
      rw [yields_bind]
      refine (validateAll_spec batches 0 q).mono ?_ ?_
      · rintro _ _ ⟨rfl, accepted⟩
        rw [checkedBatches, if_pos ⟨Bool.eq_false_iff.mpr running, accepted⟩, layout.highWatermark,
          ← next] at fits near
        rw [checkedBatches, if_pos ⟨Bool.eq_false_iff.mpr running, accepted⟩] at paced
        rw [yields_bind]
        refine (appendLoop_onTime batches q front' seg 0 layout' (silent.onTime onTime)
          ((Effects.later silent).quiet quiet) accepted valid fits near
          (by rw [silent.journal]; exact paced)).mono ?_ fun _ _ final => final
        intro _ r final
        rw [yields_bind, yields_get]
        split
        · obtain ⟨front'', active'', _, _, intact'', -, -⟩ := final.timed
          rw [yields_bind]
          exact (syncLast_spec False intact''.readable.layout).mono
            (fun _ _ synced => synced.1.onTime final) fun _ _ synced => synced.onTime final
        · exact final
      · rintro _ _ ⟨rfl, -⟩
        exact silent.onTime onTime

end Steps

theorem Fresh.onTime {world after : World} {log : Log}
    (fresh : Fresh cfg world log after) : OnTime cfg.indexInterval ⟨log, after, []⟩ := by
  obtain ⟨front, active, old, new, intact, stored⟩ := fresh.recorded.intact
  obtain ⟨logFd, idxFd, tixFd, createdAt, rfl, -⟩ := fresh.log
  obtain ⟨rfl, rfl⟩ := segments_unique (rfl : _ = [] ++ [_]) intact.readable.layout.segments
  obtain rfl : old = [] := List.forall₂_nil_left_iff.mp intact.old
  obtain rfl : new = [] := by simpa using stored
  exact ⟨⟨[], _, [], [], intact, rfl, .nil, emptySegment_timed _ _ _ _ _ _ rfl⟩, by simp, rfl⟩

theorem appendEach_onTime (history : List Request) (p : Partition)
    (running : Running cfg p) (onTime : OnTime cfg.indexInterval p) (quiet : p.world.Quiet)
    (valid : ∀ request ∈ history, ∀ batch ∈ request.batches, IsBatch batch)
    (counted : ∀ batch ∈ history.flatMap Request.checked, 0 < offsetCount batch)
    (near : p.log.highWatermark + ((history.flatMap Request.checked).map offsetCount).sum ≤ 2 ^ 32)
    (paced : Paced cfg.indexInterval
      (p.journal.map Stored.sent ++ history.flatMap Request.checked)) :
    OnTime cfg.indexInterval (appendEach history p) ∧
      Paced cfg.indexInterval ((appendEach history p).journal.map Stored.sent) := by
  induction history generalizing p with
  | nil => exact ⟨onTime, by simpa [appendEach] using paced⟩
  | cons request rest ih =>
    rw [List.flatMap_cons] at counted near paced
    obtain ⟨countedHere, countedRest⟩ := List.forall_mem_append.mp counted
    rw [List.map_append, List.sum_append] at near
    have later := sum_offsetCount_nonneg _ countedRest
    have fits : Fits p.log.highWatermark request.checked := ⟨countedHere, by omega⟩
    obtain ⟨front, active, layout⟩ := running.recorded.layout
    have validHere := valid request List.mem_cons_self
    -- Either outcome stores a first part of the batches.
    have onwards (q : Partition) (running' : Running cfg q) (onTime' : OnTime cfg.indexInterval q)
        (effects : Effects IsBatch False p q) (kept : List Bytes) (isPrefix : kept <+: request.checked)
        (journal : q.journal.map Stored.sent = p.journal.map Stored.sent ++ kept) :
        OnTime cfg.indexInterval (appendEach rest q) ∧
          Paced cfg.indexInterval ((appendEach rest q).journal.map Stored.sent) := by
      refine ih q running' onTime' ((Effects.later effects).quiet quiet)
        (fun other member => valid other (List.mem_cons_of_mem _ member)) countedRest ?_ ?_
      · have fewer := sum_offsetCount_le isPrefix.sublist countedHere
        rw [running'.recorded.highWatermark, journal, List.map_append, List.sum_append,
          ← running.recorded.highWatermark]
        omega
      · rw [journal, List.append_assoc]
        exact paced.sublist
          ((List.Sublist.refl _).append (isPrefix.sublist.append (List.Sublist.refl _)))
    have spec := ((append_running running request.paused request.batches validHere fits).and
      (append_onTime onTime quiet request.paused request.batches validHere fits (by
        rw [show checkedBatches request.paused request.batches = request.checked from rfl]
        omega) (paced.sublist
          ((List.Sublist.refl _).append (List.sublist_append_left _ _))))).and
      (append_effects layout running.calm request.paused request.batches
        (fun batch member => validHere batch (checkedBatches_subset member)) fits)
    unfold appendEach
    cases ran : append request.paused request.batches p with
    | ok first q =>
      obtain ⟨⟨⟨running', all, journal, -⟩, onTime'⟩, effects⟩ := spec.of_ok ran
      exact onwards q running' onTime' effects request.batches (by rw [Request.checked, all]) journal
    | error err q =>
      obtain ⟨⟨⟨running', kept, isPrefix, journal⟩, onTime'⟩, effects⟩ := spec.of_error ran
      exact onwards q running' onTime' effects kept isPrefix journal

theorem OnTime.ordered {interval : Int} {p : Partition} (onTime : OnTime interval p)
    (paced : Paced interval (p.journal.map Stored.sent)) :
    (p.journal.map Stored.written).Pairwise fun a b => maxTimestamp a < maxTimestamp b := by
  rw [List.pairwise_map]
  refine (List.pairwise_map.mp paced.ordered).imp_of_mem fun {a b} first second newer => ?_
  obtain ⟨wholeA, offsetA, sameA⟩ := onTime.entries a first
  obtain ⟨wholeB, offsetB, sameB⟩ := onTime.entries b second
  rwa [sameA, sameB, maxTimestamp_stamp _ _ wholeA.length_ge, maxTimestamp_stamp _ _ wholeB.length_ge]

theorem OnTime.lookup {interval : Int} {p : Partition} (onTime : OnTime interval p)
    (ordered : (p.journal.map Stored.written).Pairwise fun a b => maxTimestamp a < maxTimestamp b)
    (ts : Int) :
    (p.log.segments.findSome? fun seg => seg.lookupOffsetByTimestamp ts) =
      ((p.journal.map Stored.written).find? fun b => decide (ts ≤ maxTimestamp b)).map
        fun b => (decodeHeader b).baseOffset := by
  obtain ⟨front, active, old, new, intact, stored, timedOld, timedNew⟩ := onTime.timed
  have layout := intact.readable.layout
  have timed : List.Forall₂ (Timed interval) (front ++ [active]) (old ++ [new]) :=
    List.rel_append timedOld (.cons timedNew .nil)
  rw [layout.segments, ← stored]
  refine findSome?_of_forall₂ ?_
  refine (forall₂_mem (forall₂_and intact.readable.held timed)).imp ?_
  rintro s batches ⟨⟨isSegment, isGroup⟩, holds, timedHere⟩
  refine timedHere.lookup holds.tiles (layout.positive s isSegment) ?_ ts
  exact ordered.sublist (stored ▸ List.sublist_flatten_of_mem isGroup)

theorem Tiles.ascending {base next : Int} (tiles : Tiles base batches next) :
    batches.Pairwise fun a b => (decodeHeader a).baseOffset < (decodeHeader b).baseOffset := by
  induction batches generalizing base with
  | nil => exact .nil
  | cons batch rest ih =>
    refine .cons (fun later member => ?_) (ih tiles.2)
    obtain ⟨first, low, -, stored⟩ := tiles.2.mem later member
    have counted := tiles.1.counted
    rw [tiles.1.baseOffset, stored.baseOffset]
    omega

/-- A log that is sampled at every batch finds the first batch that is new enough. -/
theorem lookup_finds_first_new_enough (cfg : Config) (world opened : World) (log : Log)
    (history : List Request) (p : Partition) (ts : Int) (bare : world.Bare) (quiet : world.Quiet)
    (opening : openLog cfg world = .ok log opened)
    (valid : ∀ request ∈ history, ∀ batch ∈ request.batches, IsBatch batch)
    (deltas : ∀ batch ∈ history.flatMap Request.checked, 0 ≤ (decodeHeader batch).lastOffsetDelta)
    (offsets : ((history.flatMap Request.checked).map offsetCount).sum ≤ 2 ^ 32)
    (paced : Paced cfg.indexInterval (history.flatMap Request.checked))
    (reached : p = appendEach history ⟨log, opened, []⟩) :
    ∃ found, LiveLog.lookupOffsetByTimestamp ts ⟨p, false⟩ = .ok found ⟨p, false⟩ ∧
      (∀ offset, found = some offset ↔
        IsLeast {base | ∃ batch ∈ p.journal.map Stored.written, ts ≤ maxTimestamp batch ∧
          (decodeHeader batch).baseOffset = base} offset) ∧
      (found = none ↔ ∀ batch ∈ p.journal.map Stored.written, maxTimestamp batch < ts) := by
  obtain ⟨-, fresh⟩ := (openLog_bare cfg world bare).of_ok opening
  obtain ⟨active, layout, next⟩ := fresh.layout []
  have counted : ∀ batch ∈ history.flatMap Request.checked, 0 < offsetCount batch :=
    fun batch member => Int.lt_add_one_of_le (deltas batch member)
  have start : log.highWatermark = 0 := layout.highWatermark.trans next
  have calm : world.Calm := fun tick member => .inl (quiet tick member)
  have running := fresh.running calm
  obtain ⟨running', -⟩ := appendEach_running history _ running valid ⟨counted, by
    show log.highWatermark + _ < _
    omega⟩
  obtain ⟨onTime, pacedAll⟩ := appendEach_onTime history _ running fresh.onTime
    (fresh.later.quiet quiet) valid counted (by
      show log.highWatermark + _ ≤ _
      omega) paced
  rw [← reached] at running' onTime pacedAll
  have answer := onTime.lookup (onTime.ordered pacedAll) ts
  obtain ⟨front, active', old, new, intact, stored⟩ := running'.recorded.intact
  have ascending := (stored ▸ intact.tiles running'.recorded.start).ascending
  refine ⟨_, rfl, fun offset => ?_, ?_⟩
  · rw [LiveLog.segments, answer, find?_map_eq_some_iff ascending]
    simp only [decide_eq_true_eq]
  · rw [LiveLog.segments, answer, Option.map_eq_none_iff, List.find?_eq_none]
    simp only [decide_eq_true_eq, not_le]

def datedBatch (ts : Nat) : Bytes := announce (patch (minimalBody 0) 14 (putUintBE 8 ts))

def builtLog (cfg : Config) (batches : List Bytes) : Option (Log × World × Partition) :=
  match openLog cfg World.empty with
  | .error _ _ => none
  | .ok log opened =>
    some (log, opened, appendEach (batches.map fun batch => ⟨false, [batch]⟩) ⟨log, opened, []⟩)

theorem builtLog_some {log : Log} {opened : World}
    {p : Partition} (built : builtLog cfg batches = some (log, opened, p)) :
    openLog cfg World.empty = .ok log opened ∧
      p = appendEach (batches.map fun batch => ⟨false, [batch]⟩) ⟨log, opened, []⟩ := by
  unfold builtLog at built
  split at built
  · cases built
  · next opening =>
      cases built
      exact ⟨opening, rfl⟩

theorem dated_batch_found :
    ∃ log opened p, builtLog ⟨100, 0, 61, .none⟩ [datedBatch 10, datedBatch 20, datedBatch 30] =
        some (log, opened, p) ∧
      LiveLog.lookupOffsetByTimestamp 15 ⟨p, false⟩ = .ok (some 1) ⟨p, false⟩ := by
  have runs : (builtLog ⟨100, 0, 61, .none⟩ [datedBatch 10, datedBatch 20, datedBatch 30]).map
      (fun run => decide (run.2.2.log.segments.findSome? (fun seg => seg.lookupOffsetByTimestamp 15) =
        some 1)) = some true := by decide +kernel
  obtain ⟨⟨log, opened, p⟩, built, seen⟩ := Option.map_eq_some_iff.mp runs
  obtain ⟨opening, reached⟩ := builtLog_some built
  obtain ⟨found, ran, -⟩ := lookup_finds_first_new_enough _ World.empty opened log _ p 15
    World.bare_empty (by simp [World.Quiet, World.empty]) opening (by decide +kernel)
    (by decide +kernel) (by decide +kernel) ⟨by decide +kernel, by decide +kernel⟩ reached
  obtain rfl : _ = found := EStateM.Result.ok.inj ran |>.1
  exact ⟨log, opened, p, built, ran.trans (by rw [LiveLog.segments, of_decide_eq_true seen])⟩

/-- With the usual distance between samples the second batch is not found, and a batch whose
timestamp was raised to that of a sample is found although it is older. -/
theorem samples_miss_and_mislead :
    (∃ log opened p, builtLog ⟨1000, 0, 4096, .none⟩ [datedBatch 10, datedBatch 20] =
        some (log, opened, p) ∧
      LiveLog.lookupOffsetByTimestamp 15 ⟨p, false⟩ = .ok none ⟨p, false⟩ ∧
      p.journal.map (fun entry => maxTimestamp entry.written) = [10, 20]) ∧
    ∃ log opened p, builtLog ⟨1000, 0, 1, .none⟩ [datedBatch 20, datedBatch 10] =
        some (log, opened, p) ∧
      LiveLog.lookupOffsetByTimestamp 21 ⟨p, false⟩ = .ok (some 1) ⟨p, false⟩ ∧
      p.journal.map (fun entry => maxTimestamp entry.written) = [20, 10] := by
  have outcome (cfg : Config) (batches : List Bytes) (ts : Int) (found : Option Int)
      (stamps : List Int)
      (ran : (builtLog cfg batches).map (fun run =>
        decide ((run.2.2.log.segments.findSome? (fun seg => seg.lookupOffsetByTimestamp ts) = found) ∧
          run.2.2.journal.map (fun entry => maxTimestamp entry.written) = stamps)) = some true) :
      ∃ log opened p, builtLog cfg batches = some (log, opened, p) ∧
        LiveLog.lookupOffsetByTimestamp ts ⟨p, false⟩ = .ok found ⟨p, false⟩ ∧
        p.journal.map (fun entry => maxTimestamp entry.written) = stamps := by
    obtain ⟨⟨log, opened, p⟩, built, seen⟩ := Option.map_eq_some_iff.mp ran
    obtain ⟨answer, same⟩ := of_decide_eq_true seen
    exact ⟨log, opened, p, built, answer ▸ rfl, same⟩
  exact ⟨outcome _ _ _ _ _ (by decide +kernel), outcome _ _ _ _ _ (by decide +kernel)⟩

end KafkaWire.Storage
