import KafkaWire.Storage.Deleting

/-! The retention sweep: how far it deletes, and that it deletes exactly so far. -/

namespace KafkaWire.Storage

open Bytes Files Programs

structure RetentionConfig where
  retentionMS : Int
  retentionBytes : Int
  archived : Option (String → Int → Segment → Bool)

structure NamedLog where
  topic : String
  partition : Int
  log : LiveLog

namespace RetentionConfig

variable (cfg : RetentionConfig)

def archivedLoop (archived : Segment → Bool) : List Segment → Nat → Nat
  | [], i => i
  | seg :: rest, i => if archived seg then archivedLoop archived rest (i + 1) else i

def deletable (topic : String) (partition : Int) (segs : List Segment) : Nat :=
  match cfg.archived with
  | none => segs.length
  | some archived => archivedLoop (archived topic partition) segs 0

def milliseconds (duration : Int) : Int := duration.tdiv 1000000

def expired (now : Int) (seg : Segment) : Bool :=
  !(cfg.retentionMS ≤ 0 ∨ milliseconds (elapsed now seg.createdAt) ≤ cfg.retentionMS)

def ageLoop (now : Int) : List Segment → Int → Int
  | [], cutoff => cutoff
  | seg :: rest, cutoff => if cfg.expired now seg then ageLoop now rest seg.nextOffset else cutoff

def totalBytes (segments : List Segment) : Int := (segments.map fun s => (s.logSize : Int)).sum

def sizeLoop : List Segment → Int → Int → Int
  | [], _, cutoff => cutoff
  | seg :: rest, total, cutoff =>
    if total > cfg.retentionBytes then
      sizeLoop rest (total - seg.logSize) (if seg.nextOffset > cutoff then seg.nextOffset else cutoff)
    else cutoff

def cutoff (now : Int) (segs all : List Segment) : Int :=
  let byAge := cfg.ageLoop now segs (-1)
  if cfg.retentionBytes > 0 then cfg.sizeLoop segs (totalBytes all) byAge else byAge

end RetentionConfig

def deleteLogged (cutoff : Int) : LiveM Unit := fun l =>
  match LiveLog.deleteSegmentsBefore cutoff l with
  | .ok _ l' | .error (.err _) l' => .ok () l'
  | .error .panic l' => .error .panic l'

def sweepLog (cfg : RetentionConfig) (now : Int) (topic : String) (partition : Int) : LiveM Unit := do
  let segs ← LiveLog.sealedSegments
  if segs.isEmpty then return ()
  let deletable := cfg.deletable topic partition segs
  let cutoff := cfg.cutoff now (segs.take deletable) (← LiveLog.allSegments)
  if cutoff < 0 then return ()
  deleteLogged cutoff

def sweepOnce (cfg : RetentionConfig) (now : Int) (logs : List NamedLog) : Option (List NamedLog) :=
  logs.mapM fun named =>
    match sweepLog cfg now named.topic named.partition named.log with
    | .ok _ l => some { named with log := l }
    | .error _ _ => none

section Cutoffs

def sizeCount (limit : Int) : List Segment → Int → Nat
  | [], _ => 0
  | seg :: rest, total => if total > limit then sizeCount limit rest (total - seg.logSize) + 1 else 0

variable (cfg : RetentionConfig)

theorem archivedLoop_eq (archived : Segment → Bool) (segs : List Segment) (i : Nat) :
    RetentionConfig.archivedLoop archived segs i = i + (segs.takeWhile archived).length := by
  induction segs generalizing i with
  | nil => rfl
  | cons seg rest ih =>
    rw [RetentionConfig.archivedLoop, List.takeWhile_cons]
    split
    · rw [ih, List.length_cons]
      omega
    · rfl

theorem ageLoop_eq (now : Int) (segs : List Segment) (cutoff : Int) :
    cfg.ageLoop now segs cutoff =
      ((segs.takeWhile (cfg.expired now)).map Segment.nextOffset).foldl (fun _ next => next) cutoff := by
  induction segs generalizing cutoff with
  | nil => rfl
  | cons seg rest ih =>
    rw [RetentionConfig.ageLoop, List.takeWhile_cons]
    split
    · exact ih seg.nextOffset
    · rfl

theorem sizeLoop_eq (segs : List Segment) (total cutoff : Int) :
    cfg.sizeLoop segs total cutoff =
      ((segs.take (sizeCount cfg.retentionBytes segs total)).map Segment.nextOffset).foldl max cutoff := by
  induction segs generalizing total cutoff with
  | nil => rfl
  | cons seg rest ih =>
    rw [RetentionConfig.sizeLoop, sizeCount]
    split
    · rw [ih, List.take_succ_cons, List.map_cons, List.foldl_cons]
      congr 1
      split <;> omega
    · rfl

/-- The cap asks for as few segments as bring the rest below it, or for all of them. -/
theorem sizeCount_isLeast (limit : Int) (segs : List Segment) (total : Int) :
    IsLeast {n | n = segs.length ∨ n ≤ segs.length ∧
        total - RetentionConfig.totalBytes (segs.take n) ≤ limit} (sizeCount limit segs total) := by
  induction segs generalizing total with
  | nil => exact ⟨.inl rfl, fun n _ => Nat.zero_le n⟩
  | cons seg rest ih =>
    obtain ⟨met, least⟩ := ih (total - seg.logSize)
    have shift (n : Nat) : total - RetentionConfig.totalBytes ((seg :: rest).take (n + 1)) =
        total - seg.logSize - RetentionConfig.totalBytes (rest.take n) := by
      simp only [RetentionConfig.totalBytes, List.take_succ_cons, List.map_cons, List.sum_cons]
      omega
    rw [sizeCount]
    split
    · next above =>
        refine ⟨?_, fun n isMet => ?_⟩
        · rcases met with all | ⟨within, below⟩
          · exact .inl (by rw [all, List.length_cons])
          · exact .inr ⟨Nat.succ_le_succ within, by rw [shift]; exact below⟩
        · cases n with
          | zero =>
            rcases isMet with none | ⟨-, below⟩
            · cases none
            · simp [RetentionConfig.totalBytes] at below
              omega
          | succ n =>
            refine Nat.succ_le_succ (least ?_)
            rcases isMet with all | ⟨within, below⟩
            · exact .inl (Nat.succ.inj all)
            · exact .inr ⟨Nat.le_of_succ_le_succ within, by rw [← shift]; exact below⟩
    · next fits =>
        refine ⟨.inr ⟨Nat.zero_le _, ?_⟩, fun n _ => Nat.zero_le n⟩
        simp [RetentionConfig.totalBytes]
        omega

theorem sizeCount_take (limit : Int) (segs : List Segment) (total : Int) (n : Nat) :
    sizeCount limit (segs.take n) total = min n (sizeCount limit segs total) := by
  induction segs generalizing total n with
  | nil => simp [sizeCount]
  | cons seg rest ih =>
    cases n with
    | zero => simp [sizeCount]
    | succ n =>
      rw [List.take_succ_cons, sizeCount, sizeCount]
      split
      · rw [ih]
        omega
      · simp

end Cutoffs

section Reach

/-- The offset behind the first `n` segments. -/
def reach (segs : List Segment) (n : Nat) : Int :=
  ((segs.take n).map Segment.nextOffset).foldl max (-1)

theorem foldl_max_eq (values : List Int) (start : Int) (low : -1 ≤ start) :
    values.foldl max start = max start (values.foldl max (-1)) := by
  induction values generalizing start with
  | nil => exact (max_eq_left low).symm
  | cons value rest ih =>
    rw [List.foldl_cons, List.foldl_cons, ih _ (by omega), ih (max (-1) value) (by omega)]
    omega

theorem foldl_max_le {values : List Int} {start bound : Int} (low : start ≤ bound)
    (all : ∀ value ∈ values, value ≤ bound) : values.foldl max start ≤ bound := by
  induction values generalizing start with
  | nil => exact low
  | cons value rest ih =>
    obtain ⟨here, later⟩ := List.forall_mem_cons.mp all
    exact ih (max_le low here) later

theorem foldl_last_eq {values : List Int} {start : Int} (above : ∀ value ∈ values, start ≤ value)
    (ascending : values.Pairwise (· < ·)) :
    values.foldl (fun _ value => value) start = values.foldl max start := by
  induction values generalizing start with
  | nil => rfl
  | cons value rest ih =>
    obtain ⟨here, later⟩ := List.pairwise_cons.mp ascending
    rw [List.foldl_cons, List.foldl_cons, max_eq_right (above value List.mem_cons_self)]
    exact ih (fun other member => le_of_lt (here other member)) later

variable {segs : List Segment}

theorem reach_mono {n m : Nat} (le : n ≤ m) : reach segs n ≤ reach segs m := by
  obtain ⟨rest, split⟩ : segs.take n <+: segs.take m := List.take_prefix_take_left le
  have low : -1 ≤ reach segs n := by
    rw [reach, foldl_max_eq _ _ le_rfl]
    exact le_max_left _ _
  have further : reach segs m = (rest.map Segment.nextOffset).foldl max (reach segs n) := by
    rw [reach, ← split, List.map_append, List.foldl_append]
    rfl
  rw [further, foldl_max_eq _ _ low]
  exact le_max_left _ _

theorem max_reach (n m : Nat) : max (reach segs n) (reach segs m) = reach segs (max n m) := by
  rcases Nat.le_total n m with le | le
  · rw [Nat.max_eq_right le, max_eq_right (reach_mono le)]
  · rw [Nat.max_eq_left le, max_eq_left (reach_mono le)]

theorem reach_succ (ascending : (segs.map Segment.nextOffset).Pairwise (· < ·))
    (positive : ∀ s ∈ segs, 0 ≤ s.nextOffset) {n : Nat} {seg : Segment} (found : segs[n]? = some seg) :
    reach segs (n + 1) = seg.nextOffset := by
  have split : segs.take (n + 1) = segs.take n ++ [seg] := by
    rw [List.take_add_one, found]
    rfl
  have low := positive seg (List.mem_of_getElem? found)
  have before : reach segs n ≤ seg.nextOffset := by
    refine foldl_max_le (by omega) fun value member => ?_
    obtain ⟨s, isMember, rfl⟩ := List.mem_map.mp member
    have parts : ((segs.take n ++ [seg]).map Segment.nextOffset).Pairwise (· < ·) := by
      rw [← split]
      exact ascending.sublist ((List.take_sublist _ _).map _)
    rw [List.map_append, List.pairwise_append] at parts
    exact le_of_lt (parts.2.2 _ (List.mem_map_of_mem isMember) _ (List.mem_singleton_self _))
  rw [reach, split, List.map_append, List.foldl_append]
  exact max_eq_right before

theorem cutoff_eq (cfg : RetentionConfig) (now : Int)
    (ascending : (segs.map Segment.nextOffset).Pairwise (· < ·))
    (positive : ∀ s ∈ segs, 0 ≤ s.nextOffset) (deletable : Nat) (all : List Segment) :
    cfg.cutoff now (segs.take deletable) all =
      reach segs (min deletable (max (segs.takeWhile (cfg.expired now)).length
        (if cfg.retentionBytes > 0 then
          sizeCount cfg.retentionBytes segs (RetentionConfig.totalBytes all) else 0))) := by
  have fewer (n : Nat) : (segs.take deletable).take n = segs.take (min deletable n) := by
    rw [List.take_take, Nat.min_comm]
  have byAge : cfg.ageLoop now (segs.take deletable) (-1) =
      reach segs (min deletable (segs.takeWhile (cfg.expired now)).length) := by
    have isPrefix : (segs.take deletable).takeWhile (cfg.expired now) =
        segs.take (min deletable (segs.takeWhile (cfg.expired now)).length) := by
      have isPrefix := List.takeWhile_prefix (l := segs) (cfg.expired now)
      have whole := List.prefix_iff_eq_take.mp isPrefix
      have short := isPrefix.length_le
      rw [← List.take_takeWhile, whole, List.take_take, List.length_take]
      congr 1
      omega
    rw [ageLoop_eq, isPrefix]
    refine foldl_last_eq (fun value member => ?_) (ascending.sublist ((List.take_sublist _ _).map _))
    obtain ⟨s, isMember, rfl⟩ := List.mem_map.mp member
    have low := positive s (List.mem_of_mem_take isMember)
    omega
  rw [RetentionConfig.cutoff, byAge]
  split
  · have low : -1 ≤ reach segs (min deletable (segs.takeWhile (cfg.expired now)).length) :=
      reach_mono (n := 0) (Nat.zero_le _)
    rw [sizeLoop_eq, sizeCount_take, fewer, foldl_max_eq _ _ low]
    show max _ (reach segs _) = _
    rw [max_reach]
    congr 1
    omega
  · congr 1
    omega

end Reach

section Sweeps

variable {cutoff : Int} {l l' : LiveLog} {gone kept : List Segment} {first : Segment}

/-- The segments in front of the one that starts at the cutoff go, with their files. -/
structure Dropped (gone : List Segment) (l l' : LiveLog) : Prop where
  segments : l.segments = gone ++ l'.segments
  files : ∀ suffix key, (l'.partition.world.stores suffix).lookup key =
    if key ∈ gone.map Segment.baseOffset then none
    else (l.partition.world.stores suffix).lookup key

theorem Dropped.refl (l : LiveLog) : Dropped [] l l := ⟨rfl, fun _ _ => by simp⟩

theorem Dropped.head {seg : Segment} {middle : LiveLog} (deleted : HeadDeleted cutoff l middle)
    (isHead : l.segments = seg :: middle.segments) (dropped : Dropped gone middle l') :
    Dropped (seg :: gone) l l' := by
  obtain ⟨seg', next, rest, shape, -, shape', removed⟩ := deleted.head
  obtain rfl : seg = seg' := (List.cons.inj (isHead.symm.trans shape)).1
  refine ⟨?_, fun suffix key => ?_⟩
  · rw [isHead, dropped.segments]
    rfl
  · rw [dropped.files suffix key, List.map_cons, removed suffix, Store.lookup_remove]
    by_cases own : key = seg.baseOffset
    · simp [own]
    · simp [own]

/-- By induction on the segments in front of the cutoff. -/
theorem Deletions.dropped (deletions : Deletions cutoff l l') (stops : l'.Stops cutoff)
    (ascending : (l.segments.map Segment.baseOffset).Pairwise (· < ·))
    (shape : l.segments = gone ++ first :: kept) (start : first.baseOffset = cutoff) :
    l'.segments = first :: kept ∧ Dropped gone l l' := by
  induction gone generalizing l with
  | nil =>
    rcases Relation.ReflTransGen.cases_head deletions with rfl | ⟨middle, deleted, -⟩
    · exact ⟨shape, .refl l⟩
    · obtain ⟨seg, next, rest, shape', low, -⟩ := deleted.head
      rw [shape', List.map_cons, List.map_cons] at ascending
      have less := (List.pairwise_cons.mp ascending).1 next.baseOffset List.mem_cons_self
      obtain rfl : first = seg := (List.cons.inj (shape.symm.trans shape')).1
      omega
  | cons seg rest ih =>
    rw [List.cons_append] at shape
    rw [shape, List.map_cons] at ascending
    have later := (List.pairwise_cons.mp ascending).2
    rcases Relation.ReflTransGen.cases_head deletions with rfl | ⟨middle, deleted, onwards⟩
    · -- the loop does not stop here: the next segment starts at or below the cutoff
      obtain ⟨next, others, isNext⟩ := List.exists_cons_of_ne_nil
        (List.append_ne_nil_of_right_ne_nil rest (List.cons_ne_nil first kept))
      have beyond := stops seg next others (by rw [shape, isNext])
      have isMember : first ∈ next :: others := isNext ▸ List.mem_append_right _ List.mem_cons_self
      rw [isNext, List.map_cons] at later
      rcases List.mem_cons.mp isMember with rfl | behind
      · omega
      · have less := (List.pairwise_cons.mp later).1 _ (List.mem_map_of_mem behind)
        omega
    · obtain ⟨seg', next, others, shape', -, shape'', -⟩ := deleted.head
      obtain ⟨rfl, tail⟩ := List.cons.inj (shape.symm.trans shape')
      have middle' : middle.segments = rest ++ first :: kept := shape''.trans tail.symm
      obtain ⟨left, dropped⟩ := ih onwards (by rw [middle']; exact later) middle'
      exact ⟨left, .head deleted (by rw [shape, middle']) dropped⟩

theorem deleteSegmentsBefore_drops (quiet : l.partition.world.Quiet)
    (ascending : (l.segments.map Segment.baseOffset).Pairwise (· < ·))
    (shape : l.segments = gone ++ first :: kept) :
    Yields (LiveLog.deleteSegmentsBefore first.baseOffset) l
      (fun count l' => count = gone.length ∧ l'.segments = first :: kept ∧
        l'.partition.log.logStart = first.baseOffset ∧
        Dropped gone l l') fun _ _ => False := by
  simp only [LiveLog.deleteSegmentsBefore, yields_bind, yields_get, yields_modify, yields_pure]
  refine (deleteLoop_quiet first.baseOffset l quiet).mono (fun count l' ⟨deletions, stops, total⟩ => ?_)
    fun _ _ impossible => impossible
  obtain ⟨left, dropped⟩ := Deletions.dropped deletions stops ascending shape rfl
  have isFirst : l'.segments.head? = some first := by rw [left]; rfl
  rw [LiveLog.setLogStart, isFirst]
  refine ⟨?_, left, rfl, dropped.segments, dropped.files⟩
  rw [left, shape, List.length_append] at total
  omega

structure LiveLog.Contiguous (l : LiveLog) : Prop where
  opened : l.segments ≠ []
  linked : l.segments.IsChain fun a b => a.nextOffset = b.baseOffset
  ascending : (l.segments.map Segment.baseOffset).Pairwise (· < ·)
  positive : ∀ s ∈ l.segments, 0 ≤ s.baseOffset

def RetentionConfig.archivedCount (cfg : RetentionConfig) (topic : String) (partition : Int)
    (segs : List Segment) : Nat :=
  match cfg.archived with
  | none => segs.length
  | some archived => (segs.takeWhile (archived topic partition)).length

/-- The size cap asks for the removal of the `needed` oldest segments. -/
def RetentionConfig.Asks (cfg : RetentionConfig) (segs all : List Segment) (needed : Nat) : Prop :=
  if cfg.retentionBytes > 0 then
    IsLeast {n | n = segs.length ∨ n ≤ segs.length ∧
      totalBytes all - totalBytes (segs.take n) ≤ cfg.retentionBytes} needed
  else needed = 0

/-- What the sweep does to one log: the first `count` segments go with their files, and the others
stay as they are. -/
structure Swept (cfg : RetentionConfig) (now : Int) (topic : String) (partition : Int) (l l' : LiveLog)
    (count : Nat) : Prop where
  exact : ∃ needed, cfg.Asks l.segments.dropLast l.segments needed ∧
    count = min (cfg.archivedCount topic partition l.segments.dropLast)
      (max (l.segments.dropLast.takeWhile (cfg.expired now)).length needed)
  within : count ≤ l.segments.dropLast.length
  segments : l'.segments = l.segments.drop count
  files : ∀ suffix key, (l'.partition.world.stores suffix).lookup key =
    if key ∈ (l.segments.take count).map Segment.baseOffset then none
    else (l.partition.world.stores suffix).lookup key
  unchanged : count = 0 → l' = l
  logStart : 0 < count →
    l'.segments.head?.map Segment.baseOffset = some l'.partition.log.logStart

theorem map_nextOffset (segments : List Segment)
    (linked : segments.IsChain fun a b => a.nextOffset = b.baseOffset) :
    segments.dropLast.map Segment.nextOffset = segments.tail.map Segment.baseOffset := by
  induction segments with
  | nil => rfl
  | cons s rest ih =>
    cases rest with
    | nil => rfl
    | cons next rest =>
      obtain ⟨here, later⟩ := List.isChain_cons_cons.mp linked
      rw [List.dropLast_cons_cons, List.map_cons, ih later, here]
      rfl

theorem deletable_eq (cfg : RetentionConfig) (topic : String) (partition : Int) (segs : List Segment) :
    cfg.deletable topic partition segs = cfg.archivedCount topic partition segs := by
  rw [RetentionConfig.deletable, RetentionConfig.archivedCount]
  cases cfg.archived with
  | none => rfl
  | some archived => exact (archivedLoop_eq _ segs 0).trans (Nat.zero_add _)

theorem archivedCount_le (cfg : RetentionConfig) (topic : String) (partition : Int)
    (segs : List Segment) : cfg.archivedCount topic partition segs ≤ segs.length := by
  rw [RetentionConfig.archivedCount]
  split
  · exact le_rfl
  · exact (List.takeWhile_prefix _).length_le

section Contiguous

variable (contiguous : l.Contiguous)

include contiguous

theorem LiveLog.Contiguous.nextOffsets :
    (l.segments.dropLast.map Segment.nextOffset).Pairwise (· < ·) ∧
      ∀ s ∈ l.segments.dropLast, 0 ≤ s.nextOffset := by
  have starts := map_nextOffset l.segments contiguous.linked
  refine ⟨?_, fun s member => ?_⟩
  · rw [starts]
    exact contiguous.ascending.sublist ((List.tail_sublist _).map _)
  · have isStart : s.nextOffset ∈ l.segments.tail.map Segment.baseOffset :=
      starts ▸ List.mem_map_of_mem member
    obtain ⟨next, isNext, same⟩ := List.mem_map.mp isStart
    rw [← same]
    exact contiguous.positive next (List.mem_of_mem_tail isNext)

theorem LiveLog.Contiguous.split {n : Nat} (within : n + 1 ≤ l.segments.dropLast.length) :
    ∃ first kept, l.segments.drop (n + 1) = first :: kept ∧
      reach l.segments.dropLast (n + 1) = first.baseOffset := by
  obtain ⟨ascending, positive⟩ := contiguous.nextOffsets
  have starts := map_nextOffset l.segments contiguous.linked
  rw [List.length_dropLast] at within
  obtain ⟨first, found⟩ : ∃ first, l.segments[n + 1]? = some first :=
    ⟨_, List.getElem?_eq_getElem (by omega)⟩
  obtain ⟨seg, isSeg⟩ : ∃ seg, l.segments.dropLast[n]? = some seg :=
    ⟨_, List.getElem?_eq_getElem (by rw [List.length_dropLast]; omega)⟩
  refine ⟨first, l.segments.drop (n + 2), ?_, ?_⟩
  · rw [List.drop_eq_getElem_cons (by omega)]
    congr 1
    exact Option.some.inj ((List.getElem?_eq_getElem _).symm.trans found)
  · rw [reach_succ ascending positive isSeg]
    have same : (l.segments.dropLast.map Segment.nextOffset)[n]? =
        (l.segments.tail.map Segment.baseOffset)[n]? := by rw [starts]
    rw [List.getElem?_map, List.getElem?_map, List.getElem?_tail, isSeg, found] at same
    exact Option.some.inj same

theorem LiveLog.Contiguous.asked (cfg : RetentionConfig) (now : Int) (topic : String)
    (partition : Int) :
    ∃ needed count, cfg.Asks l.segments.dropLast l.segments needed ∧
      count = min (cfg.archivedCount topic partition l.segments.dropLast)
        (max (l.segments.dropLast.takeWhile (cfg.expired now)).length needed) ∧
      count ≤ l.segments.dropLast.length ∧
      cfg.cutoff now (l.segments.dropLast.take
        (cfg.deletable topic partition l.segments.dropLast)) l.segments =
          reach l.segments.dropLast count := by
  obtain ⟨ascending, positive⟩ := contiguous.nextOffsets
  refine ⟨if cfg.retentionBytes > 0 then
    sizeCount cfg.retentionBytes l.segments.dropLast (RetentionConfig.totalBytes l.segments) else 0,
    _, ?_, rfl, ?_, ?_⟩
  · unfold RetentionConfig.Asks
    split
    · exact sizeCount_isLeast _ _ _
    · rfl
  · exact le_trans (min_le_left _ _) (archivedCount_le cfg topic partition _)
  · rw [cutoff_eq cfg now ascending positive, deletable_eq]

end Contiguous

theorem deleteLogged_spec {post : LiveLog → Prop} {failed : Fault → LiveLog → Prop}
    (ran : Yields (LiveLog.deleteSegmentsBefore cutoff) l (fun _ l' => post l') fun _ _ => False) :
    Yields (deleteLogged cutoff) l (fun _ l' => post l') failed := by
  obtain ⟨count, l', done, holds⟩ := ran.succeeds
  rw [Yields, deleteLogged, done]
  exact holds

theorem sweepLog_sweeps (cfg : RetentionConfig) (now : Int) (topic : String) (partition : Int)
    (contiguous : l.Contiguous) (quiet : l.partition.world.Quiet) :
    Yields (sweepLog cfg now topic partition) l
      (fun _ l' => ∃ count, Swept cfg now topic partition l l' count) fun _ _ => False := by
  obtain ⟨needed, count, asks, isCount, within, cutoff⟩ := contiguous.asked cfg now topic partition
  have some : ¬ l.segments.isEmpty = true := by simpa using contiguous.opened
  have unchanged (none : count = 0) : ∃ count, Swept cfg now topic partition l l count := by
    subst none
    exact ⟨0, ⟨needed, asks, isCount⟩, within, rfl, fun _ _ => by simp, fun _ => rfl, by simp⟩
  simp only [sweepLog, LiveLog.sealedSegments, LiveLog.allSegments, yields_bind, yields_get]
  rw [if_neg some]
  simp only [yields_pure]
  split
  · next none =>
      rw [List.isEmpty_iff.mp none] at within
      exact unchanged (Nat.le_zero.mp within)
  · simp only [yields_bind, yields_get, yields_pure, cutoff]
    cases count with
    | zero => exact unchanged rfl
    | succ n =>
      obtain ⟨first, kept, behind, start⟩ := contiguous.split within
      have shape : l.segments = l.segments.take (n + 1) ++ first :: kept := by
        rw [← behind, List.take_append_drop]
      have low := contiguous.positive first (by rw [shape]; simp)
      rw [start, if_neg (by omega)]
      refine deleteLogged_spec ((deleteSegmentsBefore_drops quiet contiguous.ascending shape).mono
        (fun _ l' deleted => ?_) fun _ _ impossible => impossible)
      obtain ⟨-, left, logStart, dropped⟩ := deleted
      refine ⟨n + 1, ⟨needed, asks, isCount⟩, within, left.trans behind.symm, dropped.files, by simp,
        fun _ => ?_⟩
      rw [left, logStart]
      rfl

end Sweeps

end KafkaWire.Storage
