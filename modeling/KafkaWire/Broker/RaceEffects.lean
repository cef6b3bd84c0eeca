import KafkaWire.Broker.FetchRace

/-! What the registry and the cache can become while a fetch is under way. -/

namespace KafkaWire.Broker

open Paths (Path Plain)
open Programs Storage Tiering

section Registry

variable {b b' : BrokerState} {name fresh : String}

theorem Evolves.weaken (evolves : Evolves none fresh b b') (gone : Option String) :
    Evolves gone fresh b b' :=
  ⟨evolves.archive, evolves.nextLog, evolves.topics, fun name t _ found => evolves.kept name t nofun found⟩

theorem created_evolves (name : String) (cfg : TopicConfig) (answers : List Answer) :
    Evolves none cfg.ownerTenantID b (after answers (registryCreate name cfg) b) := by
  obtain ⟨t, created⟩ | ⟨err, outside⟩ :=
    after_cases (registryCreate_spec name cfg { b with script := answers })
  · obtain ⟨archive, nextLog, topics, kept⟩ := created.evolves
    exact ⟨archive, nextLog, topics, kept⟩
  · exact .of_topics _ _ outside.archive outside.topics outside.nextLog

theorem deleted_evolves (name : String) (answers : List Answer) :
    Evolves (some name) "" b (after answers (registryDelete name) b) := by
  obtain ⟨-, b'', outside, erased, -⟩ | ⟨-, outside | ⟨t, b'', found, outside, replaced⟩⟩ :=
    after_cases (registryDelete_spec name { b with script := answers })
  · rw [erased]
    refine ⟨outside.archive, outside.nextLog, ?_, ?_⟩
    · intro other t there
      rw [Tables.lookup_erase_eq] at there
      split at there
      · cases there
      · exact .inl ⟨t, there, rfl, fun l member => ⟨l, member, rfl⟩⟩
    · intro other t different there
      exact ⟨t, by rw [Tables.lookup_erase_eq, if_neg (by simpa using different)]; exact there, rfl⟩
  · exact .of_topics _ _ outside.archive outside.topics outside.nextLog
  · have none' : ∀ l' ∈ ({ t with partitions := [] } : Topic).partitions,
        ∃ l ∈ t.partitions, l.id = l'.id := nofun
    have later : b.nextLog ≤ (after answers (registryDelete name) b).nextLog :=
      replaced ▸ outside.nextLog
    have found : b.topics.lookup name = some t := found
    refine (Evolves.of_replaced "" found ?_ none' ?_ ?_ later).weaken _
    · rfl
    · rw [replaced]
      exact outside.archive
    · rw [replaced]

theorem setLog_evolves (name : String) (idx : Nat) (log : Log) (fresh : String) :
    Yields (setLog name idx log) b (fun _ => Evolves none fresh b) fun _ _ => False := by
  rw [setLog, yields_modify]
  split
  · exact (Outside.refl b).evolves _ _
  · next t found =>
      have old : ∀ l' ∈ ({ t with partitions := t.partitions.modify idx fun l =>
          { l with log := log } } : Topic).partitions, ∃ l ∈ t.partitions, l.id = l'.id := by
        intro l' member
        obtain ⟨place, there⟩ := List.mem_iff_getElem?.mp member
        rw [List.getElem?_modify] at there
        obtain ⟨l, old, rfl⟩ := Option.map_eq_some_iff.mp there
        refine ⟨l, List.mem_of_getElem? old, ?_⟩
        split <;> rfl
      refine .of_replaced fresh found ?_ old ?_ ?_ (le_refl _) <;> rfl

theorem appendOn_evolves (name : String) (idx : Nat) (batches : List Bytes) (fresh : String) :
    Yields (appendOn name idx batches) b (fun _ => Evolves none fresh b)
      fun _ => Evolves none fresh b := by
  have same := (Outside.refl b).evolves none fresh
  simp only [appendOn, yields_bind, yields_getTopic]
  split
  · exact same
  · split
    · exact same
    · simp only [appendTo, yields_bind, yields_answer, onFiles, yields_modifyGet]
      split
      · exact ⟨same.archive, same.nextLog, same.topics, same.kept⟩
      · simp only [yields_bind]
        refine (setLog_evolves name idx _ fresh).mono ?_ fun _ _ impossible => impossible.elim
        rintro - b' ⟨archive, nextLog, topics, kept⟩
        split <;> exact ⟨archive, nextLog, topics, kept⟩

theorem appended_evolves (name : String) (idx : Nat) (batches : List Bytes) (answers : List Answer)
    (fresh : String) : Evolves none fresh b (after answers (appendOn name idx batches) b) := by
  obtain ⟨-, archive, nextLog, topics, kept⟩ | ⟨-, archive, nextLog, topics, kept⟩ :=
    after_cases (appendOn_evolves (b := { b with script := answers }) name idx batches fresh) <;>
  exact ⟨archive, nextLog, topics, kept⟩

theorem logChanged_evolves (name : String) (idx : Nat) (log : Log) (fresh : String) :
    Evolves none fresh b (after [] (setLog name idx log) b) := by
  obtain ⟨-, archive, nextLog, topics, kept⟩ | ⟨-, impossible⟩ :=
    after_cases (setLog_evolves (b := { b with script := [] }) name idx log fresh)
  · exact ⟨archive, nextLog, topics, kept⟩
  · exact impossible.elim

theorem persisted_evolves (answers : List Answer) (gone : Option String) (fresh : String) :
    Evolves gone fresh b (after answers persistTopics b) := by
  have same : Yields persistTopics { b with script := answers } (fun _ => Evolves gone fresh b)
      fun _ => Evolves gone fresh b := by
    simp only [persistTopics, yields_bind, yields_answer]
    split <;> exact .of_topics gone fresh rfl rfl (le_refl _)
  obtain ⟨-, holds⟩ | ⟨-, holds⟩ := after_cases same <;> exact holds

def Owned (owner : Nat → String) (b : BrokerState) : Prop :=
  ∀ name t, b.topics.lookup name = some t → ∀ l ∈ t.partitions,
    owner l.id = t.cfg.ownerTenantID ∧ l.id < b.nextLog

def extend (b : BrokerState) (owner : Nat → String) (fresh : String) (id : Nat) : String :=
  if id < b.nextLog then owner id else fresh

theorem extend_old {owner : Nat → String} {id : Nat} (old : id < b.nextLog) :
    extend b owner fresh id = owner id := if_pos old

theorem Owned.evolves {owner : Nat → String} {gone : Option String} (owned : Owned owner b)
    (evolves : Evolves gone fresh b b') : Owned (extend b owner fresh) b' := by
  intro name t' found l' member
  obtain ⟨t, there, same, old⟩ | ⟨owner', new⟩ := evolves.topics name t' found
  · obtain ⟨l, member, number⟩ := old l' member
    obtain ⟨right, taken⟩ := owned name t there l member
    rw [number] at right taken
    exact ⟨by rw [extend_old taken, right, same], taken.trans_le evolves.nextLog⟩
  · obtain ⟨low, high⟩ := new l' member
    exact ⟨by rw [extend, if_neg (not_lt.mpr low), owner'], high⟩

theorem registered_some {id : Nat} {t : Topic} {l : LogHandle}
    (found : registered b id = some (t, l)) :
    ∃ name, b.topics.lookup name = some t ∧ l ∈ t.partitions ∧ l.id = id := by
  obtain ⟨⟨name, t'⟩, member, there⟩ := List.exists_of_findSome?_eq_some found
  obtain ⟨l', found', same⟩ := Option.map_eq_some_iff.mp there
  cases same
  exact ⟨name, AList.mem_lookup_iff.mpr member, List.mem_of_find?_eq_some found',
    by simpa using List.find?_some found'⟩

end Registry

section Restored

variable {a a' a'' : Archive} {new : List SegmentEntry}

structure Fetched (new : List SegmentEntry) (a a' : Archive) : Prop where
  manifest : a'.manifest = a.manifest
  dir : a'.cache.dir = a.cache.dir
  files : ∀ path, (a'.cache.files.lookup path).isSome = true →
    (a.cache.files.lookup path).isSome = true ∨ ∃ e ∈ new, FetchCall.path a e = path

theorem Fetched.refl (new : List SegmentEntry) (a : Archive) : Fetched new a a :=
  ⟨rfl, rfl, fun _ found => .inl found⟩

theorem path_congr (same : a'.cache.dir = a.cache.dir) (e : SegmentEntry) :
    FetchCall.path a' e = FetchCall.path a e := by
  rw [FetchCall.path, FetchCall.path, Cache.pathTenant, Cache.pathTenant, same]

theorem Fetched.trans (first : Fetched new a a') (second : Fetched new a' a'') :
    Fetched new a a'' := by
  refine ⟨second.manifest.trans first.manifest, second.dir.trans first.dir, ?_⟩
  intro path found
  obtain before | ⟨e, member, here⟩ := second.files path found
  · exact first.files path before
  · exact .inr ⟨e, member, path_congr first.dir e ▸ here⟩

theorem downloadOnce_fetched (a : Archive) (e : SegmentEntry) (attempt : Attempt) :
    Fetched [e] a (a.downloadOnce e attempt).2 := by
  obtain same | ⟨data, cache, put, after⟩ := Archiving.downloadOnce_cases a e attempt
  · rw [same]
    exact .refl _ a
  · obtain ⟨-, dir, -, files⟩ := Cache.putTenantStream_spec put
    rw [after]
    refine ⟨rfl, dir, ?_⟩
    intro path found
    obtain ⟨file, found⟩ := Option.isSome_iff_exists.mp found
    obtain ⟨here, -⟩ | before := files path file found
    · exact .inr ⟨e, List.mem_singleton_self e, here.symm⟩
    · exact .inl (Option.isSome_iff_exists.mpr ⟨file, before⟩)

theorem attemptLoop_fetched (e : SegmentEntry) (left : Nat) (attempts : List Attempt)
    (last : RestoreErr) (a : Archive) :
    Fetched [e] a (Archive.attemptLoop e left attempts last a).2.1 := by
  induction left generalizing attempts last a with
  | zero => exact .refl _ a
  | succ left ih =>
    cases attempts with
    | nil => exact .refl _ a
    | cons attempt attempts =>
      have once := downloadOnce_fetched a e attempt
      rw [Archive.attemptLoop]
      rcases ran : a.downloadOnce e attempt with ⟨_ | err, a'⟩
      · rw [ran] at once
        exact once
      · rw [ran] at once
        dsimp only
        split
        · exact once
        · exact once.trans (ih attempts err a')

theorem restore_fetched (a : Archive) (topic : String) (partition base : Int)
    (attempts : List Attempt) : Fetched (a.manifest.lookup topic partition base).toList a
      (a.restore topic partition base attempts).2.1 := by
  rw [Archive.restore]
  split
  · exact .refl _ a
  · rcases a.manifest.lookup topic partition base with _ | e
    · exact .refl _ a
    · dsimp only [Option.toList]
      rw [Archive.doRestore]
      split
      · exact attemptLoop_fetched e 3 attempts .expired a
      · exact .refl _ a

theorem erase_fetched (new : List SegmentEntry) (a : Archive) (path : Path) :
    Fetched new a { a with cache := { a.cache with files := a.cache.files.erase path } } := by
  refine ⟨rfl, rfl, fun other found => .inl ?_⟩
  rw [Tables.lookup_erase_eq] at found
  split at found
  · cases found
  · exact found

theorem openTenant_fetched (new : List SegmentEntry) (a : Archive) (e : SegmentEntry) (now : Int) :
    Fetched new a { a with
      cache := (a.cache.openTenant e.tenantID e.topic e.partition e.baseOffset now).2 } := by
  rcases found : a.cache.files.lookup (FetchCall.path a e) with _ | file
  · have same : a.cache.openTenant e.tenantID e.topic e.partition e.baseOffset now =
        (none, a.cache) := by
      rw [Cache.openTenant]
      rw [← FetchCall.path, found]
    rw [same]
    exact .refl new a
  · have opened : a.cache.openTenant e.tenantID e.topic e.partition e.baseOffset now =
        (some file.data, { a.cache with
          files := a.cache.files.insert (FetchCall.path a e) { file with mtime := now } }) := by
      rw [Cache.openTenant]
      dsimp only
      rw [← FetchCall.path, found]
    rw [opened]
    refine ⟨rfl, rfl, fun other there => .inl ?_⟩
    rw [Tables.lookup_insert_eq] at there
    split at there
    · next here => rw [here, found, Option.isSome_some]
    · exact there

def evictedFirst (a : Archive) (e : SegmentEntry) (outcome : RestoreOutcome) : Archive :=
  if outcome.evicted then
    { a with cache := { a.cache with files := a.cache.files.erase (FetchCall.path a e) } }
  else a

theorem openRestored_eq_open (a : Archive) (e : SegmentEntry) (outcome : RestoreOutcome) :
    openRestored a e outcome =
      (((evictedFirst a e outcome).cache.openTenant e.tenantID e.topic e.partition e.baseOffset
          outcome.now).1,
        { evictedFirst a e outcome with
          cache := ((evictedFirst a e outcome).cache.openTenant e.tenantID e.topic e.partition
            e.baseOffset outcome.now).2 }) := by
  rw [openRestored, evictedFirst]
  dsimp only
  split <;> rfl

theorem evictedFirst_fetched (new : List SegmentEntry) (a : Archive) (e : SegmentEntry)
    (outcome : RestoreOutcome) : Fetched new a (evictedFirst a e outcome) := by
  rw [evictedFirst]
  split
  · exact erase_fetched new a _
  · exact .refl new a

theorem openRestored_fetched (new : List SegmentEntry) (a : Archive) (e : SegmentEntry)
    (outcome : RestoreOutcome) : Fetched new a (openRestored a e outcome).2 := by
  rw [openRestored_eq_open]
  exact (evictedFirst_fetched new a e outcome).trans (openTenant_fetched new _ e outcome.now)

theorem openRestored_there {e : SegmentEntry} {outcome : RestoreOutcome} {data : Bytes}
    (opened : (openRestored a e outcome).1 = some data) :
    (a.cache.files.lookup (FetchCall.path a e)).isSome = true := by
  have kept := evictedFirst_fetched [] a e outcome
  rw [openRestored_eq_open] at opened
  obtain before | ⟨_, member, _⟩ := kept.files (FetchCall.path a e) (by
    rw [← path_congr kept.dir e]
    rcases found : (evictedFirst a e outcome).cache.files.lookup
        (FetchCall.path (evictedFirst a e outcome) e) with _ | file
    · simp only [Cache.openTenant] at opened
      rw [← FetchCall.path, found] at opened
      cases opened
    · rfl)
  · exact before
  · cases member

end Restored

end KafkaWire.Broker
