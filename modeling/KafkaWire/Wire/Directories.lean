import KafkaWire.Broker.Confined
import KafkaWire.Wire.Handlers

/-! Where the topics of wire requests are stored. -/

namespace KafkaWire.Wire

open Broker Programs Storage

variable {acl : Option ACLStore} {cfg : Broker.Config} {b : BrokerState}

structure Served where
  conn : Conn
  request : TopicRequest
  answers : List Answer

def serveTopics (b : BrokerState) (event : Served) : BrokerState :=
  after event.answers (dispatch event.conn event.request) b

def ImpliedValid (b : BrokerState) (event : Served) : Prop :=
  b.cfg.autoCreateTopics = true → ∀ name ∈ event.request.implied,
    Dispatcher.mayDescribe b.acl event.conn.saslPrincipal name = true →
      (b.topics.lookup name).isSome = true ∨ validateName "topic" name = .ok ()

instance (b : BrokerState) (event : Served) : Decidable (ImpliedValid b event) :=
  inferInstanceAs (Decidable (_ → ∀ name ∈ event.request.implied, _ → _ ∨ _))

theorem confined_respects (acl : Option ACLStore) (cfg : Broker.Config) (principal : String) :
    Respects (fun b b' => b = b' ∧ Confined acl cfg b) acl cfg principal where
  topics := by
    rintro b _ name ⟨rfl, -⟩ -
    rfl
  acl := by
    rintro b _ ⟨rfl, confined⟩
    exact ⟨confined.acl, confined.acl⟩
  cfg := by
    rintro b _ ⟨rfl, confined⟩
    exact ⟨confined.cfg, confined.cfg⟩

theorem confined_agree {principal : String}
    (request : TopicRequest) (valid : cfg.autoCreateTopics = true → ∀ name ∈ request.implied,
      Dispatcher.mayDescribe acl principal name = true → validateName "topic" name = .ok ()) :
    request.Agree (fun b b' => b = b' ∧ Confined acl cfg b) acl principal := by
  cases request with
  | produce req =>
    intro t member may partition batches tenant
    refine (keeps_appendBatchesAuthorized (fun auto => ?_) partition batches tenant).agrees
    exact valid auto t.topic (List.mem_map_of_mem member) (Dispatcher.describe_of_write may)
  | fetch req expired =>
    intro t _ _ partition offset maxBytes tenant
    exact (keeps_fetchAuthorized partition offset maxBytes tenant).agrees
  | listOffsets topics =>
    intro t _ _ partition timestamp
    exact (keeps_listOffsets partition timestamp).agrees
  | metadata req =>
    intro name member may _
    exact (keeps_ensureTopicForTenant (fun auto => valid auto name member may) 1 "").agrees
  | createTopics req =>
    intro t _ _ _ factor
    exact (keeps_createTopic _ factor).agrees
  | deleteTopics req =>
    intro name _ _
    exact keeps_deleteTopic.agrees

theorem ImpliedValid.names
    {event : Served} (valid : ImpliedValid b event) (confined : Confined acl cfg b)
    (auto : cfg.autoCreateTopics = true) (name : String) (member : name ∈ event.request.implied)
    (may : Dispatcher.mayDescribe acl event.conn.saslPrincipal name = true) :
    validateName "topic" name = .ok () := by
  rw [← confined.cfg] at auto
  rw [← confined.acl] at may
  obtain there | right := valid auto name member may
  · obtain ⟨t, found⟩ := Option.isSome_iff_exists.mp there
    exact (confined.proper name t found).1
  · exact right

theorem serve_confined
    (confined : Confined acl cfg b) (event : Served) (valid : ImpliedValid b event) :
    Confined acl cfg (serveTopics b event) := by
  have walk := dispatch_relates (confined_respects acl cfg event.conn.saslPrincipal) event.request
    (confined_agree event.request (valid.names confined))
  obtain ⟨-, kept⟩ | ⟨-, kept⟩ :=
    after_cases (walk.keeps { b with script := event.answers } (confined.of_topics rfl rfl rfl)) <;>
  exact kept

def fresh (cfg : Broker.Config) (acl : Option ACLStore) (dirs : Paths.Path → Dir)
    (archive : Option Tiering.Archive) : BrokerState :=
  ⟨cfg, acl, ∅, dirs, ∅, archive, 0, []⟩

theorem fresh_confined (cfg : Broker.Config) (acl : Option ACLStore) (dirs : Paths.Path → Dir)
    (archive : Option Tiering.Archive) : Confined acl cfg (fresh cfg acl dirs archive) := by
  refine ⟨?_, rfl, rfl⟩
  intro name t found
  have none' : (∅ : Table Topic).lookup name = none := AList.lookup_empty name
  cases none'.symm.trans found

/-- In every sequence of requests in which topics that are created on their own have valid names,
the partitions of the registered topics are inside the topics directory, and different topics have
different partition directories. -/
theorem partition_dirs_separate (cfg : Broker.Config) (acl : Option ACLStore)
    (dirs : Paths.Path → Dir) (archive : Option Tiering.Archive) (events : List Served)
    (guarded : Machine.Guarded serveTopics ImpliedValid (fresh cfg acl dirs archive) events)
    (name : String) (t : Topic) (found : (Machine.exec serveTopics (fresh cfg acl dirs archive)
      events).topics.lookup name = some t) :
    (∀ l ∈ t.partitions, (topicsDir cfg).under l.dir = true) ∧
      (∀ partition, (topicsDir cfg).under (partitionDir cfg name partition) = true) ∧
      ∀ name' t', (Machine.exec serveTopics (fresh cfg acl dirs archive) events).topics.lookup name' =
          some t' → name ≠ name' →
        (∀ l ∈ t.partitions, ∀ l' ∈ t'.partitions, l.dir ≠ l'.dir) ∧
          ∀ partition partition', partitionDir cfg name partition ≠
            partitionDir cfg name' partition' := by
  have confined : Confined acl cfg (Machine.exec serveTopics (fresh cfg acl dirs archive) events) := by
    apply guarded.invariant fun _ b => Confined acl cfg b
    · exact fresh_confined cfg acl dirs archive
    · intro past b event confined valid
      exact serve_confined confined event valid
  have housed {name : String} {t : Topic} (found : (Machine.exec serveTopics
      (fresh cfg acl dirs archive) events).topics.lookup name = some t) {l : LogHandle}
      (member : l ∈ t.partitions) : ∃ partition, l.dir = partitionDir cfg name partition := by
    obtain ⟨idx, there⟩ := List.mem_iff_getElem?.mp member
    exact ⟨idx, confined.cfg ▸ (confined.proper name t found).2 idx l there⟩
  have valid := (confined.proper name t found).1
  refine ⟨fun l member => ?_, partitionDir_under_topicsDir valid, fun name' t' found' different => ?_⟩
  · obtain ⟨partition, dir⟩ := housed found member
    rw [dir]
    exact partitionDir_under_topicsDir valid partition
  · have apart (partition partition' : Int) : partitionDir cfg name partition ≠
        partitionDir cfg name' partition' :=
      partitionDir_ne valid (confined.proper name' t' found').1 different partition partition'
    refine ⟨fun l member l' member' => ?_, apart⟩
    obtain ⟨partition, dir⟩ := housed found member
    obtain ⟨partition', dir'⟩ := housed found' member'
    rw [dir, dir']
    exact apart partition partition'

private def storeConfig : Broker.Config :=
  ⟨"data", 1, "c", "localhost", 9092, true, 1, 1, ⟨1000, 0, 4096, .none⟩⟩

private def emptyBroker : BrokerState := fresh storeConfig none (fun _ => Dir.absent) none

private def asksFor (names : List String) : Served :=
  ⟨⟨"", ""⟩, .metadata ⟨names.map some, true⟩, []⟩

private def registeredDirs (b : BrokerState) : List (String × List Paths.Path) :=
  b.topics.entries.map fun entry => (entry.1, entry.2.partitions.map LogHandle.dir)

private theorem log_of_dirs (name : String) (path : Paths.Path)
    (member : (name, [path]) ∈ registeredDirs b) :
    ∃ t l, b.topics.lookup name = some t ∧ l ∈ t.partitions ∧ l.dir = path := by
  obtain ⟨⟨name', t⟩, there, same⟩ := List.mem_map.mp member
  obtain ⟨rfl, shape⟩ := Prod.mk.injEq _ _ _ _ ▸ same
  obtain ⟨l, inside, dir⟩ := List.mem_map.mp (shape ▸ List.mem_singleton_self path)
  exact ⟨t, l, AList.mem_lookup_iff.mpr there, inside, dir⟩

theorem valid_names_separate :
    ∃ t l t' l', (Machine.exec serveTopics emptyBroker [asksFor ["a", "b"]]).topics.lookup "a" = some t ∧
      (Machine.exec serveTopics emptyBroker [asksFor ["a", "b"]]).topics.lookup "b" = some t' ∧
      l ∈ t.partitions ∧ l' ∈ t'.partitions ∧ (topicsDir storeConfig).under l.dir = true ∧
      l.dir ≠ l'.dir := by
  obtain ⟨t, l, found, member, -⟩ := log_of_dirs (b := Machine.exec serveTopics emptyBroker
    [asksFor ["a", "b"]]) "a" (partitionDir storeConfig "a" 0) (by decide +kernel)
  obtain ⟨t', l', found', member', -⟩ := log_of_dirs (b := Machine.exec serveTopics emptyBroker
    [asksFor ["a", "b"]]) "b" (partitionDir storeConfig "b" 0) (by decide +kernel)
  obtain ⟨inside, -, apart⟩ := partition_dirs_separate storeConfig none _ none [asksFor ["a", "b"]]
    (by decide +kernel) "a" t found
  exact ⟨t, l, t', l', found, found', member, member', inside l member,
    (apart "b" t' found' (by decide)).1 l member l' member'⟩

/-- A name with `..` in it leads out of the topics directory, or into the directory of another
topic. -/
theorem unchecked_names_escape :
    (∃ t l, (Machine.exec serveTopics emptyBroker [asksFor ["../x"]]).topics.lookup "../x" = some t ∧
        l ∈ t.partitions ∧ (topicsDir storeConfig).under l.dir = false) ∧
      ∃ t l t' l', (Machine.exec serveTopics emptyBroker [asksFor ["b", "a/../b"]]).topics.lookup "b" =
          some t ∧
        (Machine.exec serveTopics emptyBroker [asksFor ["b", "a/../b"]]).topics.lookup "a/../b" = some t' ∧
        l ∈ t.partitions ∧ l' ∈ t'.partitions ∧ l.dir = l'.dir := by
  obtain ⟨t, l, found, member, dir⟩ := log_of_dirs (b := Machine.exec serveTopics emptyBroker
    [asksFor ["../x"]]) "../x" (Paths.join ["data", "x", "0"]) (by decide +kernel)
  have outside : (topicsDir storeConfig).under (Paths.join ["data", "x", "0"]) = false := by
    decide +kernel
  obtain ⟨u, k, foundU, memberU, dirU⟩ := log_of_dirs (b := Machine.exec serveTopics emptyBroker
    [asksFor ["b", "a/../b"]]) "b" (partitionDir storeConfig "b" 0) (by decide +kernel)
  obtain ⟨v, m, foundV, memberV, dirV⟩ := log_of_dirs (b := Machine.exec serveTopics emptyBroker
    [asksFor ["b", "a/../b"]]) "a/../b" (partitionDir storeConfig "b" 0) (by decide +kernel)
  exact ⟨⟨t, l, found, member, dir ▸ outside⟩, u, k, v, m, foundU, foundV, memberU, memberV,
    dirU.trans dirV.symm⟩

end KafkaWire.Wire
