import KafkaWire.Broker.RaceEffects

/-! Authorized fetches stay with the tenant that they were made for. -/

namespace KafkaWire.Broker

open Paths (Path Plain)
open Programs Storage Tiering

variable {stage : FetchStage} {e : SegmentEntry}

def CallOk (owner : Nat → String) (b : BrokerState) (c : FetchCall) : FetchStage → Prop
  | .checked => ∃ t, b.topics.lookup c.topic = some t ∧ t.cfg.ownerTenantID = c.principalTenant
  | .looked l | .marked l _ _ => owner l.id = c.principalTenant ∧ l.id < b.nextLog
  | .gated e _ _ | .restored e _ _ => e.tenantID = c.principalTenant ∧ Storable e
  | .returned result origin =>
    result.bytes = [] ∨ ∃ place, origin = some place ∧ place.BelongsTo c.principalTenant
  | .started | .missed _ _ | .panicked => True

structure CacheOk (a : Archive) (downloads : List SegmentEntry) : Prop where
  manifest : ∀ e ∈ a.manifest.completed, Storable e
  files : ∀ path, (a.cache.files.lookup path).isSome = true →
    ∃ e ∈ downloads, FetchCall.path a e = path

structure RaceOk (s : FetchRace) (owner : Nat → String) : Prop where
  owned : Owned owner s.broker
  calls : ∀ call ∈ s.calls, call.1.principalTenant ≠ "" → CallOk owner s.broker call.1 call.2
  downloads : ∀ e ∈ s.downloads, Storable e
  cache : ∀ a, s.broker.archive = some a → CacheOk a s.downloads

section Calls

variable {owner : Nat → String} {b b' : BrokerState} {a a' : Archive} {c : FetchCall}
  {downloads new : List SegmentEntry}

theorem CallOk.evolves {gone : Option String} {fresh : String}
    (ok : CallOk owner b c stage) (evolves : Evolves gone fresh b b')
    (stays : stage.isChecked = true → some c.topic ≠ gone) :
    CallOk (extend b owner fresh) b' c stage := by
  cases stage with
  | checked =>
    obtain ⟨t, found, right⟩ := ok
    obtain ⟨t', found', same⟩ := evolves.kept c.topic t (stays rfl) found
    exact ⟨t', found', same ▸ right⟩
  | looked l => exact ⟨(extend_old ok.2).trans ok.1, ok.2.trans_le evolves.nextLog⟩
  | marked l _ _ => exact ⟨(extend_old ok.2).trans ok.1, ok.2.trans_le evolves.nextLog⟩
  | gated _ _ _ | restored _ _ _ | returned _ _ => exact ok
  | started | missed _ _ | panicked => trivial

theorem CallOk.same (ok : CallOk owner b c stage) (topics : b'.topics = b.topics)
    (numbers : b'.nextLog = b.nextLog) : CallOk owner b' c stage := by
  cases stage <;> simp only [CallOk, topics, numbers] at ok ⊢ <;> exact ok

theorem check_ok (tenant : c.principalTenant ≠ "") : CallOk owner b c (c.check b) := by
  rw [FetchCall.check]
  split
  · exact .inl rfl
  · next t found =>
      split
      · exact .inl rfl
      · next verified =>
          refine ⟨t, found, ?_⟩
          rw [verifyTopicTenant, if_neg tenant] at verified
          split at verified
          · cases verified
          · split at verified
            · cases verified
            · next same => exact not_not.mp same

theorem look_ok (owned : Owned owner b) (ok : CallOk owner b c .checked) :
    CallOk owner b c (c.look b) := by
  obtain ⟨t, found, right⟩ := ok
  rw [FetchCall.look, found]
  dsimp only
  split
  · exact .inl rfl
  · next l there =>
      rw [Topic.partition] at there
      split at there
      · cases there
      · obtain ⟨same, taken⟩ := owned c.topic t found l (List.mem_of_getElem? there)
        exact ⟨same.trans right, taken⟩

theorem read_ok {l : LogHandle} (owned : Owned owner b) (right : owner l.id = c.principalTenant)
    (hwm logStart : Int) : CallOk owner b c (c.read b l hwm logStart) := by
  rw [FetchCall.read]
  rcases found : registered b l.id with _ | ⟨t, l'⟩
  · have closed : logNow b l = { l.log with segments := [] } := by rw [logNow, found]
    rw [closed, fetchAt]
    exact .inl rfl
  · obtain ⟨name, there, member, same⟩ := registered_some found
    split
    · exact .inr ⟨_, rfl, by rw [Origin.BelongsTo, ← (owned name t there l' member).1, same, right]⟩
    · trivial
    · split
      · trivial
      · exact .inl rfl

theorem archivedAt_mem {m : Manifest} {topic : String} {partition offset : Int}
    (found : archivedAt m topic partition offset = some e) : e ∈ m.completed :=
  List.mem_of_mem_filter (List.mem_of_find?_eq_some found)

theorem gate_ok (cache : CacheOk a downloads) (tenant : c.principalTenant ≠ "") (hwm logStart : Int) :
    CallOk owner b c (c.gate a hwm logStart) := by
  rw [FetchCall.gate]
  split
  · exact .inl rfl
  · next e found =>
      split
      · exact .inl rfl
      · next allowed =>
          refine ⟨?_, cache.manifest e (archivedAt_mem found)⟩
          by_contra different
          exact allowed ⟨tenant, different⟩

theorem restore_ok (ok : e.tenantID = c.principalTenant ∧ Storable e)
    (hwm logStart : Int) (outcome : RestoreOutcome) :
    CallOk owner b c (c.restore a e hwm logStart outcome) := by
  rw [FetchCall.restore]
  split
  · trivial
  · exact .inl rfl
  · exact ok

theorem readRestored_ok (cache : CacheOk a downloads)
    (stored : ∀ e ∈ downloads, Storable e) (ok : e.tenantID = c.principalTenant ∧ Storable e)
    (hwm logStart : Int) (outcome : RestoreOutcome) :
    CallOk owner b c (c.readRestored a downloads e hwm logStart outcome) := by
  obtain ⟨right, valid, plain⟩ := ok
  rw [FetchCall.readRestored]
  split
  · exact .inl rfl
  · next data opened =>
      obtain ⟨first, member, here⟩ := cache.files _ (openRestored_there opened)
      split
      · split
        · refine .inr ⟨_, rfl, ?_, ?_⟩
          · refine List.ne_nil_of_mem (List.mem_map_of_mem (a := first) ?_)
            simp [member, here]
          · intro other inside
            simp only [List.mem_map, List.mem_filter, decide_eq_true_eq] at inside
            obtain ⟨d, ⟨member, same⟩, rfl⟩ := inside
            obtain ⟨valid', plain'⟩ := stored d member
            exact (Cache.pathTenant_injective valid' valid plain' plain same).1.trans right
        · trivial
        · exact .inl rfl
        · exact .inl rfl
      · exact .inl rfl

theorem CacheOk.fetched (cache : CacheOk a downloads) (fetched : Fetched new a a') :
    CacheOk a' (new ++ downloads) := by
  refine ⟨fetched.manifest ▸ cache.manifest, ?_⟩
  intro path found
  obtain before | ⟨e, member, here⟩ := fetched.files path found
  · obtain ⟨e, member, here⟩ := cache.files path before
    exact ⟨e, List.mem_append_right _ member, (path_congr fetched.dir e).trans here⟩
  · exact ⟨e, List.mem_append_left _ member, (path_congr fetched.dir e).trans here⟩

end Calls

section Steps

variable {s : FetchRace} {owner : Nat → String}

theorem RaceOk.evolves {change : BrokerState → BrokerState} {gone : Option String} {fresh : String}
    (ok : RaceOk s owner) (evolves : Evolves gone fresh s.broker (change s.broker))
    (stays : ∀ call ∈ s.calls, call.2.isChecked = true → some call.1.topic ≠ gone) :
    RaceOk (s.onBroker change) (extend s.broker owner fresh) where
  owned := ok.owned.evolves evolves
  calls call member tenant := (ok.calls call member tenant).evolves evolves (stays call member)
  downloads := ok.downloads
  cache a found := ok.cache a (evolves.archive ▸ found)

theorem RaceOk.archived (act : Archive → Archive) (new : List SegmentEntry) (ok : RaceOk s owner)
    (cache : ∀ a, s.broker.archive = some a → CacheOk (act a) (new ++ s.downloads))
    (storable : ∀ e ∈ new, Storable e) :
    RaceOk { s.onBroker (onBrokerArchive act) with downloads := new ++ s.downloads } owner where
  owned := ok.owned
  calls call member tenant := (ok.calls call member tenant).same rfl rfl
  downloads e member := (List.mem_append.mp member).elim (storable e) (ok.downloads e)
  cache a found := by
    obtain ⟨a', found', rfl⟩ := Option.map_eq_some_iff.mp found
    exact cache a' found'

theorem nextStage_ok {c : FetchCall} (ok : RaceOk s owner)
    (tenant : c.principalTenant ≠ "") (before : CallOk owner s.broker c stage)
    (outcome : RestoreOutcome) : CallOk owner s.broker c (s.nextStage c outcome stage) := by
  cases stage with
  | started => exact check_ok tenant
  | checked => exact look_ok ok.owned before
  | looked l => exact before
  | marked l hwm logStart => exact read_ok ok.owned before.1 hwm logStart
  | missed hwm logStart =>
    simp only [FetchRace.nextStage]
    split
    · trivial
    · next a found => exact gate_ok (ok.cache a found) tenant hwm logStart
  | gated e hwm logStart =>
    simp only [FetchRace.nextStage]
    split
    · exact before
    · exact restore_ok before hwm logStart outcome
  | restored e hwm logStart =>
    simp only [FetchRace.nextStage]
    split
    · exact before
    · next a found => exact readRestored_ok (ok.cache a found) ok.downloads before hwm logStart outcome
  | returned _ _ => exact before
  | panicked => trivial

theorem nextArchive_fetched {a : Archive} (found : s.broker.archive = some a) (c : FetchCall)
    (outcome : RestoreOutcome) (stage : FetchStage) :
    Fetched (s.nextDownload c stage) a (FetchRace.nextArchive c outcome stage a) := by
  cases stage with
  | gated e _ _ =>
    simp only [FetchRace.nextDownload, FetchRace.nextArchive, found, Option.bind_some]
    exact restore_fetched a c.topic c.partition e.baseOffset outcome.attempts
  | restored e _ _ => exact openRestored_fetched _ a e outcome
  | _ => exact .refl _ a

theorem nextDownload_storable (ok : RaceOk s owner) (c : FetchCall) (stage : FetchStage) :
    ∀ e ∈ s.nextDownload c stage, Storable e := by
  intro e member
  cases stage with
  | gated e' _ _ =>
    obtain ⟨a, found, looked⟩ := Option.bind_eq_some_iff.mp (Option.mem_toList.mp member)
    exact (ok.cache a found).manifest e (List.mem_of_find?_eq_some looked)
  | _ => cases member

theorem RaceOk.advance (ok : RaceOk s owner) (idx : Nat) (outcome : RestoreOutcome) :
    RaceOk (s.advance idx outcome) owner := by
  rw [FetchRace.advance]
  rcases here : s.calls[idx]? with _ | ⟨c, stage⟩
  · exact ok
  · have after := ok.archived (FetchRace.nextArchive c outcome stage) _
      (fun a found => (ok.cache a found).fetched (nextArchive_fetched found c outcome stage))
      (nextDownload_storable ok c stage)
    refine ⟨after.owned, ?_, after.downloads, after.cache⟩
    intro call member tenant
    obtain old | rfl := List.mem_or_eq_of_mem_set member
    · exact after.calls call old tenant
    · have before := ok.calls (c, stage) (List.mem_of_getElem? here) tenant
      exact (nextStage_ok ok tenant before outcome).same rfl rfl

theorem RaceOk.step (ok : RaceOk s owner) (event : RaceEvent) (fitting : s.Fitting event) :
    ∃ owner', RaceOk (s.step event) owner' := by
  have nobody : ∀ call ∈ s.calls, call.2.isChecked = true → some call.1.topic ≠ none :=
    fun _ _ _ => nofun
  cases event with
  | created name cfg answers => exact ⟨_, ok.evolves (created_evolves name cfg answers) nobody⟩
  | deleted name answers =>
    refine ⟨_, ok.evolves (deleted_evolves name answers) ?_⟩
    intro call member checked same
    exact fitting call member checked (Option.some.inj same)
  | persisted answers => exact ⟨_, ok.evolves (persisted_evolves answers none "") nobody⟩
  | removed name =>
    refine ⟨extend s.broker owner "", ok.evolves ?_ nobody⟩
    exact .of_topics none "" rfl rfl (le_refl _)
  | appended name idx batches answers =>
    exact ⟨_, ok.evolves (appended_evolves name idx batches answers "") nobody⟩
  | logChanged name idx log => exact ⟨_, ok.evolves (logChanged_evolves name idx log "") nobody⟩
  | filesChanged path generation world =>
    rw [FetchRace.step]
    refine ⟨extend s.broker owner "", ok.evolves ?_ nobody⟩
    exact .of_topics none "" rfl rfl (le_refl _)
  | manifestChanged m =>
    refine ⟨owner, ok.archived (fun a => { a with manifest := m }) [] ?_ nofun⟩
    exact fun a found => ⟨fitting, (ok.cache a found).files⟩
  | downloaded e attempt =>
    refine ⟨owner, ok.archived (fun a => (a.downloadOnce e attempt).2) [e] ?_ ?_⟩
    · exact fun a found => (ok.cache a found).fetched (downloadOnce_fetched a e attempt)
    · intro other member
      rw [List.mem_singleton.mp member]
      exact fitting
  | evicted path =>
    refine ⟨owner, ok.archived _ [] (fun a found => ?_) nofun⟩
    exact (ok.cache a found).fetched (erase_fetched [] a path)
  | called c =>
    refine ⟨owner, ok.owned, ?_, ok.downloads, ok.cache⟩
    intro call member tenant
    obtain old | new := List.mem_append.mp member
    · exact ok.calls call old tenant
    · rw [List.mem_singleton.mp new]
      trivial
  | advanced idx outcome => exact ⟨owner, ok.advance idx outcome⟩

end Steps

/-- A broker without topics. The archive may be switched off, or it is empty; directories may have
been left behind. -/
def FetchRace.start (cfg : Config) (acl : Option ACLStore) (dirs : Path → Dir)
    (archive : Option Archive) : FetchRace :=
  ⟨⟨cfg, acl, ∅, dirs, ∅, archive, 0, []⟩, [], []⟩

def EmptyArchive (a : Archive) : Prop := a.manifest.completed = [] ∧ a.cache.files = ∅

theorem start_ok (cfg : Config) (acl : Option ACLStore) (dirs : Path → Dir)
    {archive : Option Archive} (empty : ∀ a, archive = some a → EmptyArchive a) :
    RaceOk (FetchRace.start cfg acl dirs archive) fun _ => "" where
  owned name t found := by
    have none' : (∅ : Table Topic).lookup name = none := AList.lookup_empty name
    cases none'.symm.trans found
  calls _ member := absurd member List.not_mem_nil
  downloads _ member := absurd member List.not_mem_nil
  cache a found := by
    obtain ⟨entries, files⟩ := empty a found
    refine ⟨fun e member => ?_, fun path there => ?_⟩
    · rw [entries] at member
      cases member
    · rw [files, AList.lookup_empty] at there
      cases there

/-- In every run in which no topic is deleted between the two lookups of a call, and archived
segments have proper paths, all bytes that a tenant's call returns were read in a log of a topic
that the tenant owns or in a restored segment of the tenant. -/
theorem authorized_bytes_belong_to_tenant (cfg : Config) (acl : Option ACLStore) (dirs : Path → Dir)
    (archive : Option Archive) (empty : ∀ a, archive = some a → EmptyArchive a)
    (events : List RaceEvent)
    (guarded : Machine.Guarded FetchRace.step FetchRace.Fitting
      (FetchRace.start cfg acl dirs archive) events)
    (c : FetchCall) (result : FetchResult) (origin : Option Origin)
    (returned : (c, .returned result origin) ∈ (Machine.exec FetchRace.step
      (FetchRace.start cfg acl dirs archive) events).calls)
    (tenant : c.principalTenant ≠ "") :
    result.bytes = [] ∨ ∃ place, origin = some place ∧ place.BelongsTo c.principalTenant := by
  have ok : ∃ owner, RaceOk (Machine.exec FetchRace.step (FetchRace.start cfg acl dirs archive)
      events) owner := by
    apply guarded.invariant fun _ s => ∃ owner, RaceOk s owner
    · exact ⟨_, start_ok cfg acl dirs empty⟩
    · rintro past s event ⟨owner, ok⟩ fitting
      exact ok.step event fitting
  obtain ⟨owner, ok⟩ := ok
  exact ok.calls _ returned tenant

private def raceStart : FetchRace :=
  FetchRace.start ⟨"data", 1, "c", "localhost", 9092, true, 1, 1, ⟨1000, 0, 4096, .none⟩⟩ none
    (fun _ => Dir.absent) none

private def ownedBy (tenant : String) : TopicConfig := ⟨1, 1, -1, -1, 1000, tenant⟩

private def callOfA : FetchCall := ⟨"t", 0, 0, 1000, "A"⟩

private def returnedBytes (call : FetchCall × FetchStage) :
    FetchCall × Option (Bytes × Option Origin) :=
  match call with
  | (c, .returned result origin) => (c, some (result.bytes, origin))
  | (c, _) => (c, none)

private theorem returned_of_bytes {calls : List (FetchCall × FetchStage)} {c : FetchCall}
    {bytes : Bytes} {origin : Option Origin}
    (seen : calls.map returnedBytes = [(c, some (bytes, origin))]) :
    ∃ result, (c, .returned result origin) ∈ calls ∧ result.bytes = bytes := by
  obtain ⟨⟨c', stage⟩, alone, shown⟩ := List.map_eq_singleton_iff.mp seen
  rw [alone]
  cases stage <;> simp only [returnedBytes, Prod.mk.injEq, reduceCtorEq, and_false,
    Option.some.injEq] at shown
  obtain ⟨rfl, same, rfl⟩ := shown
  exact ⟨_, List.mem_singleton_self _, same⟩

private def undisturbed : List RaceEvent :=
  [.created "t" (ownedBy "A") [], .appended "t" 0 [minimalBatch 0] [], .called callOfA,
    .advanced 0 {}, .created "u" (ownedBy "B") [], .deleted "u" [], .advanced 0 {}, .advanced 0 {},
    .advanced 0 {}]

theorem undisturbed_bytes_belong_to_tenant :
    ∃ result origin, (callOfA, .returned result origin) ∈
        (Machine.exec FetchRace.step raceStart undisturbed).calls ∧ result.bytes = minimalBatch 0 ∧
      (result.bytes = [] ∨ ∃ place, origin = some place ∧ place.BelongsTo "A") := by
  obtain ⟨result, member, bytes⟩ := returned_of_bytes (show
    (Machine.exec FetchRace.step raceStart undisturbed).calls.map returnedBytes =
      [(callOfA, some (minimalBatch 0, some (.log "A")))] by decide +kernel)
  exact ⟨result, _, member, bytes, authorized_bytes_belong_to_tenant _ none _ none nofun undisturbed
    (by decide +kernel) callOfA result _ member (by decide)⟩

private def overtaken : List RaceEvent :=
  [.created "t" (ownedBy "A") [], .called callOfA, .advanced 0 {}, .deleted "t" [], .persisted [],
    .removed "t", .created "t" (ownedBy "B") [], .persisted [], .appended "t" 0 [minimalBatch 0] [],
    .advanced 0 {}, .advanced 0 {}, .advanced 0 {}]

/-- A call of tenant A returns the records of tenant B. -/
theorem overtaken_fetch_reads_other_tenant :
    ∃ result, (callOfA, .returned result (some (.log "B"))) ∈
        (Machine.exec FetchRace.step raceStart overtaken).calls ∧
      callOfA.principalTenant = "A" ∧ result.bytes = minimalBatch 0 := by
  obtain ⟨result, member, bytes⟩ := returned_of_bytes (show
    (Machine.exec FetchRace.step raceStart overtaken).calls.map returnedBytes =
      [(callOfA, some (minimalBatch 0, some (.log "B")))] by decide +kernel)
  exact ⟨result, member, rfl, bytes⟩

end KafkaWire.Broker
