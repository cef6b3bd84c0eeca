import KafkaWire.Lib.Related
import KafkaWire.Storage.Recovery

/-! Opening a log on a directory that holds files from an earlier life of the process. -/

namespace KafkaWire.Storage

open Bytes Files Programs Related

variable (cfg : Config) (disk : World) (keys : List Int)

variable {before after middle : World} {base : Int} {s : Segment} {kept : List Bytes}
  {found : List (Segment × List Bytes)} {bases : List Int}

structure Reopened (before : World) (base : Int) (s : Segment) : Prop where
  baseOffset : s.baseOffset = base
  keyed : s.Keyed
  size : s.logSize = (survivors ((before.stores .log).data base)).flatten.length
  next : s.nextOffset = endOffset base (survivors ((before.stores .log).data base))

/-- Segment `s` holds the batches `kept` of the log file `base` as it stands in `before`: its first
ones, and all that recovery can find when no call fails. The index has some of them, unless the log
is empty and an old index is not. -/
structure Recovered (before : World) (base : Int) (s : Segment) (kept : List Bytes) : Prop where
  baseOffset : s.baseOffset = base
  keyed : s.Keyed
  front : kept <+: survivors ((before.stores .log).data base)
  full : before.Quiet → kept = survivors ((before.stores .log).data base)
  size : s.logSize = kept.flatten.length
  next : s.nextOffset = endOffset base kept
  samples : ((before.stores .index).data base).length < indexEntrySize ∨
    (before.stores .log).data base ≠ [] ↔ Samples base s.idx.entries kept

theorem Recovered.reopened
    (recovered : Recovered before base s kept) (quiet : before.Quiet) : Reopened before base s := by
  have full := recovered.full quiet
  exact ⟨recovered.baseOffset, recovered.keyed, full ▸ recovered.size, full ▸ recovered.next⟩

def Untouched (base : Int) (kept : Bytes) (before after : World) : Prop :=
  ((before.stores .log).lookup base).map File.data = some kept →
    (after.stores .log).lookup base = (before.stores .log).lookup base

theorem openSegment_spec (opts : SegmentOpts) (world : World) :
    Yields (openSegment opts) world
      (fun s after => Local opts.baseOffset world after ∧ s.sealed = false ∧
        s.maxBytes = opts.maxBytes ∧
        s.logFile.fd < (after.stores .log).nextFd ∧ ∃ kept, Recovered world opts.baseOffset s kept ∧
        Positioned (after.stores .log) opts.baseOffset s.logFile.fd kept.flatten ∧
        Untouched opts.baseOffset kept.flatten world after)
      (fun _ _ => ¬ world.Quiet) := by
  generalize bytes : (world.stores .log).data opts.baseOffset = data
  unfold openSegment
  rw [yields_bind, yields_mapError]
  refine (syscall_any world .log _).mono ?_ fun _ _ noisy => noisy
  rintro _ first ⟨later₁, now, rfl, same₁⟩
  have store₁ : first.stores .log = ((world.stores .log).openFile opts.baseOffset now).2 := by
    rw [same₁, World.stores_withStore, if_pos rfl]
  have here₁ : Local opts.baseOffset world first := by
    refine local_withStore .log _ later₁ same₁ fun key apart => ?_
    rw [Store.lookup_openFile, if_neg apart]
  have index₁ : first.stores .index = world.stores .index := by
    rw [same₁, World.stores_withStore, if_neg (by decide)]
  rw [yields_bind]
  refine ((openIndex_harmless opts.indexInterval first).and
    (openIndex_entries opts.indexInterval first)).mono ?_ fun _ _ failed => here₁.later.noisy failed.1
  rintro idx second ⟨⟨idxKey, here₂, logs₂⟩, entries⟩
  rw [yields_bind]
  refine (openTimeIndex_harmless opts.indexInterval second).mono ?_
    fun _ _ noisy => (here₁.trans here₂).later.noisy noisy
  rintro tix third ⟨tixKey, here₃, logs₃⟩
  have opened := (here₁.trans here₂).trans here₃
  have store₃ : third.stores .log = ((world.stores .log).openFile opts.baseOffset now).2 := by
    rw [logs₃, logs₂, store₁]
  have contents : ((third.stores .log).lookup opts.baseOffset).map File.data = some data := by
    rw [store₃, Store.lookup_openFile, if_pos rfl, Option.map_some, ← bytes, Store.data]
    cases (world.stores .log).lookup opts.baseOffset <;> rfl
  rw [yields_bind]
  refine (statFile_spec .log _ third).mono ?_
    fun _ _ failed quiet => (opened.later.quiet quiet).not_blocked 1 failed.1
  rintro ⟨size, mtime⟩ fourth ⟨spent, length, same₄⟩
  dsimp only at length
  have length' : size = data.length := by
    obtain ⟨file, found, data'⟩ := Option.map_eq_some_iff.mp contents
    rw [length, Store.openFile_handle, Store.data, found, ← data']
  have here₄ : Local opts.baseOffset world fourth :=
    opened.trans ⟨spent.later, fun _ _ _ => by rw [same₄]⟩
  refine (Segment.recover_spec _ data fourth ⟨rfl, idxKey, tixKey⟩ rfl length'
    (by rw [same₄]; exact contents) (by rw [same₄, store₃]; simp)).mono ?_
    fun _ _ noisy => here₄.later.noisy noisy
  rintro s after ⟨here₅, nextFd, kept, front, full, ⟨shape, idxFile, tixFile⟩, positioned, unchanged,
    samples⟩
  dsimp only at here₅ shape idxFile tixFile positioned nextFd unchanged samples
  have handle : s.logFile = ⟨(world.stores .log).nextFd, opts.baseOffset⟩ := by
    rw [shape]
    rfl
  refine ⟨here₄.trans here₅, by rw [shape], by rw [shape], ?_, kept, ⟨by rw [shape], ?_, ?_, ?_, by rw [shape],
    by rw [shape], ?_⟩, ?_, ?_⟩
  · rw [handle, nextFd, same₄, store₃]
    exact Nat.lt_succ_self _
  · exact ⟨by rw [handle, shape], by rw [idxFile, idxKey, shape], by rw [tixFile, tixKey, shape]⟩
  · rw [bytes]
    exact front
  · rw [bytes]
    exact fun quiet => full (here₄.later.quiet quiet)
  · rw [bytes]
    rw [← index₁, ← entries]
    exact samples
  · rw [handle]
    exact positioned
  · intro all
    obtain ⟨file, found, data'⟩ := Option.map_eq_some_iff.mp all
    rw [unchanged (by rw [← data', ← bytes, Store.data, found]), same₄, store₃, Store.lookup_openFile,
      if_pos rfl, found]
    rfl

def Clean (world : World) : Prop := ∀ key, (world.stores .log).data key = [] → Vacant key world

theorem Clean.except (clean : Clean before) (other : ∀ suffix key, key ≠ base →
      (after.stores suffix).lookup key = (before.stores suffix).lookup key)
    (here : (after.stores .log).data base = [] → Vacant base after) : Clean after := by
  intro key empty
  by_cases own : key = base
  · rw [own] at empty ⊢
    exact here empty
  · intro suffix file found
    rw [Store.data, other .log key own] at empty
    rw [other suffix key own] at found
    exact clean key empty suffix file found

theorem Clean.congr (clean : Clean before) (same : after.stores = before.stores) : Clean after := by
  unfold Clean Vacant
  rw [same]
  exact clean

def Lossless (world : World) (base : Int) : Prop :=
  (survivors ((world.stores .log).data base)).flatten = (world.stores .log).data base

theorem openSegment_clean (opts : SegmentOpts) (world : World) (quiet : world.Quiet)
    (lossless : Lossless world opts.baseOffset) (clean : Clean world) :
    Yields (openSegment opts) world (fun _ after => Clean after) (fun _ _ => True) := by
  by_cases empty : (world.stores .log).data opts.baseOffset = []
  · refine (openSegment_vacant opts world (clean _ empty)).mono ?_ fun _ _ _ => trivial
    rintro s after ⟨-, opening, -⟩
    exact clean.except opening.other fun _ => opening.vacant
  · refine (openSegment_spec opts world).mono ?_ fun _ _ _ => trivial
    rintro s after ⟨here, -, -, -, kept, recovered, positioned, -⟩
    refine clean.except here.other fun gone => absurd ?_ empty
    rw [← lossless, ← recovered.full quiet, ← positioned.data, gone]

structure ReopenedAll (before : World) (bases : List Int) (segments : List Segment) (after : World) :
    Prop where
  later : Later before after
  reopened : List.Forall₂ (Reopened before) bases segments
  kept : ∀ base ∈ bases, ((after.stores .log).lookup base).map File.data =
    some (survivors ((before.stores .log).data base)).flatten
  other : ∀ suffix key, key ∉ bases →
    (after.stores suffix).lookup key = (before.stores suffix).lookup key
  front : ∀ s ∈ segments.dropLast, s.sealed = true
  last : ∀ s, segments.getLast? = some s → s.sealed = false ∧
    s.logFile.fd < (after.stores .log).nextFd ∧
    (after.stores .log).offset s.logFile.fd = s.logSize

theorem Recovered.congr (recovered : Recovered middle base s kept) (later : Later before middle)
    (same : ∀ suffix, (middle.stores suffix).lookup base = (before.stores suffix).lookup base) :
    Recovered before base s kept := by
  have data (suffix : Suffix) : (middle.stores suffix).data base = (before.stores suffix).data base := by
    rw [Store.data, Store.data, same]
  have full := recovered.full
  have samples := recovered.samples
  rw [data] at full
  rw [data, data] at samples
  exact ⟨recovered.baseOffset, recovered.keyed, data .log ▸ recovered.front,
    fun quiet => full (later.quiet quiet), recovered.size, recovered.next, samples⟩

theorem Recovered.withSealed (recovered : Recovered before base s kept) (isSealed : Bool) :
    Recovered before base { s with sealed := isSealed } kept :=
  ⟨recovered.baseOffset, ⟨recovered.keyed.log, recovered.keyed.index, recovered.keyed.timeIndex⟩,
    recovered.front, recovered.full, recovered.size, recovered.next, recovered.samples⟩

/-- The log files of `bases` were opened, each as one of `found`, a segment with the batches that
were kept, and nothing else was touched. -/
structure RecoveredAll (before : World) (bases : List Int) (found : List (Segment × List Bytes))
    (after : World) : Prop where
  later : Later before after
  recovered : List.Forall₂ (fun base one => Recovered before base one.1 one.2) bases found
  kept : ∀ one ∈ found, ((after.stores .log).lookup one.1.baseOffset).map File.data =
    some one.2.flatten
  untouched : ∀ one ∈ found, Untouched one.1.baseOffset one.2.flatten before after
  clean : before.Quiet → (∀ base ∈ bases, Lossless before base) → Clean before → Clean after
  other : ∀ suffix key, key ∉ bases →
    (after.stores suffix).lookup key = (before.stores suffix).lookup key
  front : ∀ s ∈ (found.map Prod.fst).dropLast, s.sealed = true
  last : ∀ s, (found.map Prod.fst).getLast? = some s → s.sealed = false ∧
    s.logFile.fd < (after.stores .log).nextFd ∧
    (after.stores .log).offset s.logFile.fd = s.logSize

theorem RecoveredAll.cons {rest : List Int} (absent : base ∉ rest)
    (here : Local base before middle) (isOpen : s.sealed = false)
    (handle : s.logFile.fd < (middle.stores .log).nextFd) (recovered : Recovered before base s kept)
    (positioned : Positioned (middle.stores .log) base s.logFile.fd kept.flatten)
    (untouched : Untouched base kept.flatten before middle)
    (clean : before.Quiet → Lossless before base → Clean before → Clean middle)
    (all : RecoveredAll middle rest found after) (idle : rest = [] → middle = after) :
    RecoveredAll before (base :: rest)
      (({ s with sealed := s.sealed || !rest.isEmpty }, kept) :: found) after := by
  have apart (key : Int) (member : key ∈ rest) : key ≠ base := fun same => absent (same ▸ member)
  refine ⟨here.later.trans all.later, .cons (recovered.withSealed _) ?_, ?_, ?_, ?_, ?_, ?_, ?_⟩
  · refine forall₂_imp_of_mem all.recovered fun key member one recovered' => ?_
    exact recovered'.congr here.later fun suffix => here.other suffix key (apart key member)
  · refine List.forall_mem_cons.mpr ⟨?_, all.kept⟩
    show ((after.stores .log).lookup s.baseOffset).map File.data = _
    rw [recovered.baseOffset, all.other .log base absent]
    exact positioned.contents
  · refine List.forall_mem_cons.mpr ⟨?_, fun one member whole => ?_⟩
    · show Untouched s.baseOffset kept.flatten before after
      rw [recovered.baseOffset]
      intro whole
      rw [all.other .log base absent, untouched whole]
    · obtain ⟨key, isKey, recovered'⟩ := forall₂_mem_right all.recovered one member
      have same := here.other .log key (apart key isKey)
      rw [recovered'.baseOffset] at whole ⊢
      have kept' := all.untouched one member
      rw [recovered'.baseOffset, Untouched, same] at kept'
      exact kept' whole
  · intro quiet lossless isClean
    obtain ⟨first, others⟩ := List.forall_mem_cons.mp lossless
    refine all.clean (here.later.quiet quiet) (fun key member => ?_) (clean quiet first isClean)
    rw [Lossless, Store.data, here.other .log key (apart key member)]
    exact others key member
  · intro suffix key outside
    obtain ⟨notHere, notLater⟩ := not_or.mp (fun h => outside (List.mem_cons.mpr h))
    rw [all.other suffix key notLater, here.other suffix key notHere]
  · cases rest with
    | nil =>
      cases all.recovered
      simp
    | cons next later =>
      obtain ⟨one, found', rfl⟩ : ∃ one found', found = one :: found' := by
        cases all.recovered
        exact ⟨_, _, rfl⟩
      rw [List.map_cons, List.map_cons, List.dropLast_cons_cons]
      exact List.forall_mem_cons.mpr ⟨by simp, all.front⟩
  · cases rest with
    | nil =>
      cases all.recovered
      obtain rfl := idle rfl
      intro s' isLast
      obtain rfl : _ = s' := Option.some.inj isLast
      refine ⟨by simp [isOpen], handle, ?_⟩
      exact positioned.offset.trans recovered.size.symm
    | cons next later =>
      obtain ⟨one, found', rfl⟩ : ∃ one found', found = one :: found' := by
        cases all.recovered
        exact ⟨_, _, rfl⟩
      rw [List.map_cons, List.map_cons, List.getLast?_cons_cons]
      exact all.last

theorem openAll_spec (bases : List Int) (world : World) (distinct : bases.Nodup) :
    Yields (openAll cfg bases) world
      (fun segments after => (bases = [] → world = after) ∧
        (∀ s ∈ segments, s.maxBytes = cfg.segmentBytes) ∧ ∃ found,
        segments = found.map Prod.fst ∧ RecoveredAll world bases found after)
      (fun _ _ => ¬ world.Quiet) := by
  induction bases generalizing world with
  | nil =>
    exact ⟨fun _ => rfl, by simp, [], rfl, Later.refl world, .nil, by simp, by simp,
      fun _ _ clean => clean, fun _ _ _ => rfl, by simp, by simp⟩
  | cons base rest ih =>
    obtain ⟨absent, distinct'⟩ := List.nodup_cons.mp distinct
    unfold openAll
    rw [yields_bind]
    refine ((openSegment_spec (segmentOpts cfg base) world).and (yields_ran _ _)).mono ?_
      fun _ _ noisy => noisy.1
    rintro s middle ⟨⟨here, isOpen, limit, handle, kept, recovered, positioned, untouched⟩, ran⟩
    have clean (quiet : world.Quiet) (lossless : Lossless world base) (isClean : Clean world) :
        Clean middle :=
      (openSegment_clean (segmentOpts cfg base) world quiet lossless isClean).of_ok ran
    rw [yields_bind]
    refine (ih middle distinct').mono ?_ fun _ _ noisy => here.later.noisy noisy
    rintro segments after ⟨idle, limits, found, rfl, all⟩
    exact ⟨by simp, List.forall_mem_cons.mpr ⟨limit, limits⟩, _, rfl,
      all.cons absent here isOpen handle recovered positioned untouched clean idle⟩

theorem segmentBases_sorted : (segmentBases keys).Pairwise (· ≤ ·) := by
  have ordered : (segmentBases keys).Pairwise fun a b => decide (a ≤ b) = true := by
    apply List.pairwise_mergeSort
    · intro a b c
      simpa using le_trans
    · intro a b
      simpa using le_total a b
  simpa using ordered

theorem mem_segmentBases (key : Int) : key ∈ segmentBases keys ↔ key ∈ keys ∧ 0 ≤ key := by
  rw [segmentBases, (List.mergeSort_perm _ _).mem_iff, List.mem_filter, decide_eq_true_iff]

theorem segmentBases_nodup {keys : List Int} (distinct : keys.Nodup) : (segmentBases keys).Nodup :=
  (List.mergeSort_perm _ _).nodup_iff.mpr (distinct.filter _)

theorem segmentBases_eq (bases : List Int) (distinct : keys.Nodup)
    (ascending : bases.Pairwise (· < ·)) (positive : ∀ base ∈ bases, 0 ≤ base)
    (same : ∀ key, key ∈ keys ↔ key ∈ bases) : segmentBases keys = bases := by
  have perm : (segmentBases keys).Perm bases := by
    refine (List.perm_ext_iff_of_nodup (segmentBases_nodup distinct) ascending.nodup).mpr ?_
    intro key
    rw [mem_segmentBases, same key]
    exact ⟨fun both => both.1, fun member => ⟨member, positive key member⟩⟩
  exact perm.eq_of_pairwise (fun a b _ _ => le_antisymm) (segmentBases_sorted keys)
    (ascending.imp le_of_lt)

theorem RecoveredAll.congr (all : RecoveredAll middle bases found after)
    (later : Later before middle) (same : middle.stores = before.stores) :
    RecoveredAll before bases found after where
  later := later.trans all.later
  recovered := all.recovered.imp fun _ _ recovered => recovered.congr later fun _ => by rw [same]
  kept := all.kept
  untouched := fun one member whole => by
    have kept := all.untouched one member
    rw [Untouched, same] at kept
    exact kept whole
  clean := by
    have clean := all.clean
    simp only [Lossless, same] at clean
    exact fun quiet lossless isClean => clean (later.quiet quiet) lossless (isClean.congr same)
  other := same ▸ all.other
  front := all.front
  last := all.last

theorem RecoveredAll.bases_eq {disk : World} (all : RecoveredAll disk bases found after) :
    (found.map Prod.fst).map Segment.baseOffset = bases := by
  rw [List.map_map]
  have same := map_eq_of_forall₂ (f := id) (g := Segment.baseOffset ∘ Prod.fst)
    (all.recovered.imp fun _ _ recovered => recovered.baseOffset)
  rw [same, List.map_id]

theorem RecoveredAll.reopenedAll (all : RecoveredAll before bases found after)
    (quiet : before.Quiet) : ReopenedAll before bases (found.map Prod.fst) after where
  later := all.later
  reopened := by
    rw [List.forall₂_map_right_iff]
    exact all.recovered.imp fun _ _ recovered => recovered.reopened quiet
  kept := by
    intro base member
    obtain ⟨one, isOne, recovered⟩ := forall₂_mem_left all.recovered base member
    rw [← recovered.full quiet, ← all.kept one isOne, recovered.baseOffset]
  other := all.other
  front := all.front
  last := all.last

theorem openLog_spec (nonempty : segmentBases (disk.stores .log).keys ≠ []) :
    Yields (openLog cfg) disk
      (fun log after => log.cfg = cfg ∧
        (segmentBases (disk.stores .log).keys).head? = some log.logStart ∧
        (∀ s ∈ log.segments, s.maxBytes = cfg.segmentBytes) ∧ ∃ found,
        log.segments = found.map Prod.fst ∧
        RecoveredAll disk (segmentBases (disk.stores .log).keys) found after)
      (fun _ _ => ¬ disk.Quiet) := by
  generalize bases : segmentBases (disk.stores .log).keys = found at nonempty ⊢
  unfold openLog recoverLog readDir
  simp only [yields_bind, yields_mapError]
  refine (syscall_spec .log _ disk).mono ?_ fun _ _ failed quiet => quiet.not_blocked 1 failed.1
  rintro _ first ⟨spent₁, now, -, rfl⟩
  have stores₁ := withStore_self disk .log
  refine (syscall_spec .log _ _).mono ?_
    fun _ _ failed quiet => (spent₁.later.quiet quiet).not_blocked 1 failed.1
  rintro _ second ⟨spent₂, now', rfl, rfl⟩
  have stores₂ := (withStore_self (disk.advance.withStore .log (disk.stores .log)) .log).trans stores₁
  rw [stores₁, bases]
  have distinct : found.Nodup := bases ▸ segmentBases_nodup (Store.keys_nodup _)
  have later := spent₁.later.trans spent₂.later
  refine (openAll_spec cfg found _ distinct).mono ?_ fun _ _ noisy => later.noisy noisy
  rintro segments after ⟨-, limits, opened, rfl, all⟩
  replace all := all.congr later stores₂
  cases shape : all.recovered with
  | nil => exact absurd rfl nonempty
  | cons here rest => exact ⟨rfl, congrArg some here.baseOffset.symm, limits, _, rfl, all⟩

theorem openLog_listed (bases : List Int) (idle : disk.pending = [])
    (listed : segmentBases (disk.stores .log).keys = bases) (nonempty : bases ≠ []) :
    openLog cfg disk =
      match openAll cfg bases disk with
      | .error err after => .error err after
      | .ok segments after =>
        .ok ⟨cfg, segments, (segments.head?.map Segment.baseOffset).getD 0⟩ after := by
  have same : disk.withStore .log (disk.stores .log) = disk := by
    rw [World.withStore, Function.update_eq_self]
  have all := openAll_spec cfg bases disk (listed ▸ segmentBases_nodup (Store.keys_nodup _))
  simp only [openLog, recoverLog, readDir, mapError, bind, EStateM.bind, syscall_idle _ _ idle, same,
    listed, pure]
  cases ran : openAll cfg bases disk with
  | error err after => rfl
  | ok segments after =>
    obtain ⟨-, -, found, rfl, opened⟩ := all.of_ok ran
    cases opened.recovered with
    | nil => exact absurd rfl nonempty
    | cons here rest => rfl

theorem openLog_quiet (quiet : disk.Quiet) (bases : List Int)
    (nonempty : bases ≠ []) (ascending : bases.Pairwise (· < ·)) (positive : ∀ base ∈ bases, 0 ≤ base)
    (files : ∀ key, ((disk.stores .log).lookup key).isSome = true ↔ key ∈ bases) :
    Yields (openLog cfg) disk
      (fun log after => log.cfg = cfg ∧ bases.head? = some log.logStart ∧
        ReopenedAll disk bases log.segments after)
      (fun _ _ => False) := by
  have sorted : segmentBases (disk.stores .log).keys = bases :=
    segmentBases_eq _ _ (Store.keys_nodup _) ascending positive fun key => by
      rw [Store.mem_keys]
      exact files key
  have spec := openLog_spec cfg disk (by rw [sorted]; exact nonempty)
  rw [sorted] at spec
  refine spec.mono ?_ fun _ _ noisy => noisy quiet
  rintro log after ⟨config, start, -, found, segments, all⟩
  exact ⟨config, start, segments ▸ all.reopenedAll quiet⟩

end KafkaWire.Storage
