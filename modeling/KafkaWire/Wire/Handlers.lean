import KafkaWire.Wire.Dispatcher

/-! The handlers in two runs. If the broker's operations end alike in related states, for the names
that the principal has a grant on, so do the handlers. -/

namespace KafkaWire.Wire

open Broker Programs Storage

def TopicRequest.implied : TopicRequest → List String
  | .produce req => req.topics.map ProduceTopic.topic
  | .metadata req => req.topics.filterMap id
  | _ => []

def SameAnswers : TopicResponse → TopicResponse → Prop
  | .metadata resp, .metadata resp' =>
    { resp with topics := [] } = { resp' with topics := [] } ∧
      ∀ answer, answer ∈ resp.topics ↔ answer ∈ resp'.topics
  | resp, resp' => resp = resp'

theorem SameAnswers.refl (resp : TopicResponse) : SameAnswers resp resp := by
  cases resp with
  | metadata resp => exact ⟨rfl, fun _ => Iff.rfl⟩
  | _ => rfl

/-- Related states have the same grants and the same configuration, and the same topics as far as the
principal may see them. -/
structure Respects (R : BrokerState → BrokerState → Prop) (acl : Option ACLStore)
    (cfg : Broker.Config) (principal : String) : Prop where
  topics : ∀ b b' name, R b b' → Dispatcher.mayDescribe acl principal name = true →
    b.topics.lookup name = b'.topics.lookup name
  acl : ∀ b b', R b b' → b.acl = acl ∧ b'.acl = acl
  cfg : ∀ b b', R b b' → b.cfg = cfg ∧ b'.cfg = cfg

/-- The calls to the broker that the request leads to, for the names that the principal has a grant
on, end alike. -/
def TopicRequest.Agree (R : BrokerState → BrokerState → Prop) (acl : Option ACLStore)
    (principal : String) : TopicRequest → Prop
  | .produce req => ∀ t ∈ req.topics, mayUseTopic acl principal t.topic "write" = true →
      ∀ partition batches tenant, Agrees R (appendBatchesAuthorized t.topic partition batches tenant)
  | .fetch req _ => ∀ t ∈ req.topics, mayUseTopic acl principal t.topic "read" = true →
      ∀ partition offset maxBytes tenant,
        Agrees R (fetchAuthorized t.topic partition offset maxBytes tenant)
  | .listOffsets topics => ∀ t ∈ topics, mayUseTopic acl principal t.topic "read" = true →
      ∀ partition timestamp, Agrees R (Broker.listOffsets t.topic partition timestamp)
  | .metadata req => ∀ name ∈ req.topics.filterMap id,
      Dispatcher.mayDescribe acl principal name = true → req.allowAutoTopicCreation = true →
        Agrees R (ensureTopic name 1)
  | .createTopics req => ∀ t ∈ req.topics, mayUseTopic acl principal t.topic "write" = true →
      req.validateOnly = false → ∀ factor,
        Agrees R (createTopic t.topic (if t.numPartitions ≤ 0 then 1 else t.numPartitions) factor)
  | .deleteTopics req => ∀ name ∈ req.topicNames ++ req.topics.filterMap id,
      mayUseTopic acl principal name "write" = true → Agrees R (deleteTopic name)

namespace Dispatcher

variable {R : BrokerState → BrokerState → Prop} {acl : Option ACLStore} {cfg : Broker.Config}
  {conn : Conn}

theorem describe_of_write {principal name : String}
    (may : mayUseTopic acl principal name "write" = true) : mayDescribe acl principal name = true := by
  rw [mayDescribe, may, Bool.or_true]

theorem describe_of_read {principal name : String}
    (may : mayUseTopic acl principal name "read" = true) : mayDescribe acl principal name = true := by
  rw [mayDescribe, may, Bool.true_or]

theorem agrees_caught {α : Type} {prog : BrokerM α} (agrees : Agrees R prog) :
    Agrees R (caught prog) := agrees.attempt isPanic

theorem agrees_acl {α : Type} (respects : Respects R acl cfg conn.saslPrincipal)
    (next : Option ACLStore → BrokerM α) (agrees : Agrees R (next acl)) :
    Agrees R (do next (← get).acl) := by
  intro b b' related
  obtain ⟨same, same'⟩ := respects.acl b b' related
  have rest := agrees b b' related
  simp only [yields_bind, yields_get, same, same']
  exact rest

theorem producePartition_agrees {topic : String} (append : ∀ partition batches tenant,
    Agrees R (appendBatchesAuthorized topic partition batches tenant)) (p : ProducePartition) :
    Agrees R (producePartition conn topic p) := by
  rw [producePartition]
  split
  · exact agrees_pure _
  · split
    · exact agrees_pure _
    · refine (agrees_caught (append _ _ _)).bind ?_
      rintro (err | first) <;> exact agrees_pure _

section Walks

variable (respects : Respects R acl cfg conn.saslPrincipal)

include respects

theorem handleProduce_agrees (req : ProduceRequest)
    (agree : TopicRequest.Agree R acl conn.saslPrincipal (.produce req)) :
    Agrees R (handleProduce conn req) := by
  refine agrees_acl respects (fun acl => do
    let topics ← collect (produceTopic conn acl) req.topics
    return if req.acks = 0 then none else some topics) ?_
  refine Agrees.bind (Agrees.collect _ fun t member => ?_) fun topics => agrees_pure _
  rw [produceTopic]
  split
  · next may =>
      exact Agrees.bind (Agrees.collect _ fun p _ => producePartition_agrees (agree t member may) p)
        fun _ => agrees_pure _
  · exact agrees_pure _

theorem handleFetch_agrees (req : FetchRequest) (expired : List Bool)
    (agree : TopicRequest.Agree R acl conn.saslPrincipal (.fetch req expired)) :
    Agrees R (handleFetch conn req expired) := by
  refine agrees_acl respects (fun acl => fetchLoop conn acl req expired) ?_
  have one (t : FetchTopic) (member : t ∈ req.topics) : Agrees R (fetchTopic conn acl t) := by
    rw [fetchTopic]
    split
    · next may =>
        refine Agrees.bind (Agrees.collect _ fun p _ => ?_) fun _ => agrees_pure _
        refine (agree t member may _ _ _ _).bind fun result => ?_
        split <;> exact agrees_pure _
    · exact agrees_pure _
  have round := Agrees.collect req.topics one
  clear agree
  induction expired with
  | nil => exact round
  | cons late rest ih =>
    refine round.bind fun topics => ?_
    split
    · exact ih
    · exact agrees_pure _

theorem handleListOffsets_agrees (topics : List ListOffsetsTopic)
    (agree : TopicRequest.Agree R acl conn.saslPrincipal (.listOffsets topics)) :
    Agrees R (handleListOffsets conn topics) := by
  refine agrees_acl respects (fun acl => collect (listOffsetsTopic conn acl) topics) ?_
  refine Agrees.collect _ fun t member => ?_
  rw [listOffsetsTopic]
  split
  · next may =>
      refine Agrees.bind (Agrees.collect _ fun p _ => ?_) fun _ => agrees_pure _
      refine (agrees_caught (agree t member may _ _)).bind ?_
      rintro (err | ⟨offset, timestamp⟩) <;> exact agrees_pure _
  · exact agrees_pure _

theorem handleCreateTopics_agrees (req : CreateTopicsRequest)
    (agree : TopicRequest.Agree R acl conn.saslPrincipal (.createTopics req)) :
    Agrees R (handleCreateTopics conn req) := by
  refine agrees_acl respects (fun acl => collect (createOne conn acl req.validateOnly) req.topics) ?_
  refine Agrees.collect _ fun t member => ?_
  rw [createOne]
  split
  · next may =>
      dsimp only
      split
      · exact agrees_pure _
      · next creates =>
          refine (agrees_caught (agree t member may (Bool.not_eq_true _ ▸ creates) _)).bind fun result => ?_
          split <;> exact agrees_pure _
  · exact agrees_pure _

theorem handleDeleteTopics_agrees (req : DeleteTopicsRequest)
    (agree : TopicRequest.Agree R acl conn.saslPrincipal (.deleteTopics req)) :
    Agrees R (handleDeleteTopics conn req) := by
  refine agrees_acl respects (fun acl => collect (deleteOne conn acl)
    (req.topicNames ++ req.topics.filterMap id)) ?_
  refine Agrees.collect _ fun name member => ?_
  rw [deleteOne]
  split
  · next may =>
      refine (agrees_caught (agree name member may)).bind fun result => ?_
      split <;> exact agrees_pure _
  · exact agrees_pure _

theorem metadataTopic_agrees (autoCreate : Bool) (name : String)
    (ensure : mayDescribe acl conn.saslPrincipal name = true → autoCreate = true →
      Agrees R (ensureTopic name 1)) :
    Agrees R (metadataTopic conn cfg acl autoCreate name) := by
  rw [metadataTopic]
  split
  · next may =>
      have looks : Agrees R (getTopic name) := fun b b' related =>
        ⟨respects.topics b b' name related may, related⟩
      refine Agrees.bind ?_ fun found => ?_
      · refine looks.bind fun found => ?_
        split
        · exact agrees_pure _
        · split
          · next creates =>
              refine (agrees_caught (ensure may creates)).bind fun made => ?_
              split <;> exact agrees_pure _
          · exact agrees_pure _
      · split <;> exact agrees_pure _
  · exact agrees_pure _

end Walks

theorem collect_metadata (conn : Conn) (b : BrokerState) (autoCreate : Bool) (names : List String)
    (there : ∀ name ∈ names, (b.topics.lookup name).isSome = true)
    (may : ∀ name ∈ names, mayDescribe b.acl conn.saslPrincipal name = true) :
    collect (metadataTopic conn b.cfg b.acl autoCreate) names b =
      .ok (names.filterMap fun name => (b.topics.lookup name).map (describeTopic b.cfg name)) b := by
  induction names with
  | nil => rfl
  | cons name rest ih =>
    obtain ⟨t, found⟩ := Option.isSome_iff_exists.mp (there name List.mem_cons_self)
    have one : metadataTopic conn b.cfg b.acl autoCreate name b =
        .ok (describeTopic b.cfg name t) b := by
      have got : getTopic name b = .ok (some t) b := by rw [← found]; rfl
      have looked : findOrCreate autoCreate name b = .ok (some t) b := by
        rw [findOrCreate, bind_of_ok got]
        rfl
      rw [metadataTopic, if_pos (may name List.mem_cons_self), bind_of_ok looked]
      rfl
    have others := ih (fun name member => there name (List.mem_cons_of_mem _ member))
      fun name member => may name (List.mem_cons_of_mem _ member)
    rw [collect, List.filterMap_cons, found, Option.map_some, bind_of_ok one, bind_of_ok others]
    rfl

def visible (conn : Conn) (b : BrokerState) : List MetadataTopic :=
  (b.topics.keys.filter fun name => mayDescribe b.acl conn.saslPrincipal name).filterMap fun name =>
    (b.topics.lookup name).map (describeTopic b.cfg name)

theorem handleMetadata_all (req : MetadataRequest) (all : req.topics.isEmpty = true)
    (b : BrokerState) :
    handleMetadata conn req b = .ok ⟨b.cfg.clusterID, b.cfg.brokerID, b.cfg.advertisedHost,
      b.cfg.advertisedPort, visible conn b⟩ b := by
  have listed := collect_metadata conn b
    (req.allowAutoTopicCreation && b.cfg.autoCreateTopics)
    (b.topics.keys.filter fun name => mayDescribe b.acl conn.saslPrincipal name)
    (fun name member => AList.lookup_isSome.mpr (AList.mem_keys.mpr (List.mem_filter.mp member).1))
    (fun name member => (List.mem_filter.mp member).2)
  rw [handleMetadata, get_bind]
  simp only [all, if_true]
  rw [bind_of_ok listed]
  rfl

theorem mem_visible (b : BrokerState) (answer : MetadataTopic) : answer ∈ visible conn b ↔
    ∃ name t, mayDescribe b.acl conn.saslPrincipal name = true ∧ b.topics.lookup name = some t ∧
      describeTopic b.cfg name t = answer := by
  simp only [visible, List.mem_filterMap, List.mem_filter, Option.map_eq_some_iff]
  constructor
  · rintro ⟨name, ⟨-, may⟩, t, found, same⟩
    exact ⟨name, t, may, found, same⟩
  · rintro ⟨name, t, may, found, same⟩
    have there : name ∈ b.topics.keys :=
      AList.mem_keys.mp (AList.lookup_isSome.mp (by rw [found, Option.isSome_some]))
    exact ⟨name, ⟨there, may⟩, t, found, same⟩

def answerWith (cfg : Broker.Config) (topics : BrokerM (List MetadataTopic)) :
    BrokerM MetadataResponse := do
  return ⟨cfg.clusterID, cfg.brokerID, cfg.advertisedHost, cfg.advertisedPort, ← topics⟩

theorem answerWith_relates (cfg : Broker.Config) {topics : BrokerM (List MetadataTopic)}
    (agrees : Agrees R topics) :
    Relates R (fun resp resp' => SameAnswers (.metadata resp) (.metadata resp'))
      (answerWith cfg topics) (answerWith cfg topics) := by
  refine Relates.bind agrees ?_
  rintro list _ rfl
  exact relates_pure (SameAnswers.refl _)

theorem handleMetadata_relates (respects : Respects R acl cfg conn.saslPrincipal)
    (req : MetadataRequest) (agree : TopicRequest.Agree R acl conn.saslPrincipal (.metadata req)) :
    Relates R (fun resp resp' => SameAnswers (.metadata resp) (.metadata resp'))
      (handleMetadata conn req) (handleMetadata conn req) := by
  intro b b' related
  obtain ⟨grants, grants'⟩ := respects.acl b b' related
  obtain ⟨config, config'⟩ := respects.cfg b b' related
  by_cases all : req.topics.isEmpty = true
  · simp only [Yields, handleMetadata_all req all, config, config']
    refine ⟨⟨rfl, fun answer => ?_⟩, related⟩
    have same (name : String) (t : Topic) : mayDescribe acl conn.saslPrincipal name = true →
        (b.topics.lookup name = some t ↔ b'.topics.lookup name = some t) := by
      intro may
      rw [respects.topics b b' name related may]
    simp only [mem_visible, grants, grants', config, config']
    constructor
    · rintro ⟨name, t, may, found, shown⟩
      exact ⟨name, t, may, (same name t may).mp found, shown⟩
    · rintro ⟨name, t, may, found, shown⟩
      exact ⟨name, t, may, (same name t may).mpr found, shown⟩
  · have walk := Agrees.collect (req.topics.filterMap id) fun name member =>
      metadataTopic_agrees respects (req.allowAutoTopicCreation && cfg.autoCreateTopics) name
        fun may creates => agree name member may (Bool.and_eq_true_iff.mp creates).1
    have ends := answerWith_relates cfg walk b b' related
    simp only [handleMetadata, answerWith, yields_bind, yields_get, grants, grants', config, config', all] at ends ⊢
    exact ends

end Dispatcher

theorem dispatch_relates {R : BrokerState → BrokerState → Prop} {acl : Option ACLStore}
    {cfg : Broker.Config} {conn : Conn} (respects : Respects R acl cfg conn.saslPrincipal)
    (request : TopicRequest) (agree : request.Agree R acl conn.saslPrincipal) :
    Relates R SameAnswers (dispatch conn request) (dispatch conn request) := by
  have lift {α : Type} {prog : BrokerM α} (agrees : Agrees R prog) (wrap : α → TopicResponse) :
      Relates R SameAnswers (do return wrap (← prog)) (do return wrap (← prog)) := by
    refine Relates.bind agrees ?_
    rintro value _ rfl
    exact relates_pure (SameAnswers.refl _)
  cases request with
  | produce req => exact lift (Dispatcher.handleProduce_agrees respects req agree) _
  | fetch req expired => exact lift (Dispatcher.handleFetch_agrees respects req expired agree) _
  | listOffsets topics => exact lift (Dispatcher.handleListOffsets_agrees respects topics agree) _
  | metadata req =>
    refine Relates.bind (Dispatcher.handleMetadata_relates respects req agree) ?_
    exact fun resp resp' same => relates_pure same
  | createTopics req => exact lift (Dispatcher.handleCreateTopics_agrees respects req agree) _
  | deleteTopics req => exact lift (Dispatcher.handleDeleteTopics_agrees respects req agree) _

end KafkaWire.Wire
