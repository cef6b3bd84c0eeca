import KafkaWire.Broker.Acl
import KafkaWire.Broker.Fetch
import KafkaWire.Lib.TwoRuns
import KafkaWire.Wire.Messages
import KafkaWire.Wire.Produce

/-! The handlers of the requests that name topics. -/

namespace KafkaWire.Wire

open Broker Programs Storage

namespace Dispatcher

def isPanic (err : BrokerErr) : Bool := err = .panic

def caught {α : Type} (prog : BrokerM α) : BrokerM (Except BrokerErr α) := attempt isPanic prog

def mapAppendError : BrokerErr → Int
  | .unknownTopic | .unknownPartition => errCodeUnknownTopicOrPart
  | .unauthorizedTopic => errCodeTopicAuthorizationFailed
  | _ => errCodeCorruptMessage

section Produce

variable (conn : Conn) (topic : String)

def producePartition (p : ProducePartition) : BrokerM ProducePartitionResponse := do
  if p.records.length = 0 then return { partition := p.partition, errorCode := errCodeCorruptMessage }
  match splitBatches p.records with
  | .error err =>
    return ⟨p.partition, errCodeCorruptMessage, -1, some (.records err)⟩
  | .ok batches =>
    match ← caught (appendBatchesAuthorized topic p.partition batches conn.tenantID) with
    | .error err => return ⟨p.partition, mapAppendError err, -1, some (.broker err)⟩
    | .ok firstOffset => return ⟨p.partition, errCodeNone, firstOffset, none⟩

def produceRefused (p : ProducePartition) : ProducePartitionResponse :=
  ⟨p.partition, errCodeTopicAuthorizationFailed, -1, some (.text "principal lacks write ACL")⟩

def produceTopic (acl : Option ACLStore) (t : ProduceTopic) :
    BrokerM (TopicAnswer ProducePartitionResponse) := do
  if mayUseTopic acl conn.saslPrincipal t.topic "write" then
    return ⟨t.topic, ← collect (producePartition conn t.topic) t.partitions⟩
  else return ⟨t.topic, t.partitions.map produceRefused⟩

def handleProduce (req : ProduceRequest) :
    BrokerM (Option (List (TopicAnswer ProducePartitionResponse))) := do
  let acl := (← get).acl
  let topics ← collect (produceTopic conn acl) req.topics
  return if req.acks = 0 then none else some topics

end Produce

section Fetch

variable (conn : Conn)

def fetchError : BrokerErr → Int
  | .unknownTopic | .unknownPartition => errCodeUnknownTopicOrPart
  | .unauthorizedTopic => errCodeTopicAuthorizationFailed
  | .storage .offsetOutOfRange => errCodeOffsetOutOfRange
  | _ => errCodeCorruptMessage

def fetchPartition (topic : String) (p : FetchPartition) : BrokerM FetchPartitionResponse := do
  let result ← fetchAuthorized topic p.partition p.fetchOffset p.partitionMaxBytes conn.tenantID
  match result.err with
  | some err =>
    return {
      partition := p.partition
      errorCode := fetchError err
      highWatermark := result.highWatermark
      logStartOffset := result.logStart }
  | none =>
    return ⟨p.partition, errCodeNone, result.highWatermark, result.highWatermark, result.logStart,
      -1, result.bytes⟩

def fetchTopic (acl : Option ACLStore) (t : FetchTopic) :
    BrokerM (TopicAnswer FetchPartitionResponse) := do
  if mayUseTopic acl conn.saslPrincipal t.topic "read" then
    return ⟨t.topic, ← collect (fetchPartition conn t.topic) t.partitions⟩
  else
    return ⟨t.topic, t.partitions.map fun p =>
      { partition := p.partition, errorCode := errCodeTopicAuthorizationFailed }⟩

def totalBytes (topics : List (TopicAnswer FetchPartitionResponse)) : Int :=
  (topics.map fun t => (t.partitions.map fun p => (p.recordBatches.length : Int)).sum).sum

/-- The long poll. `expired` says of each round that comes up short whether the time is up. -/
def fetchLoop (acl : Option ACLStore) (req : FetchRequest) :
    List Bool → BrokerM (List (TopicAnswer FetchPartitionResponse))
  | [] => collect (fetchTopic conn acl) req.topics
  | expired :: rest => do
      let topics ← collect (fetchTopic conn acl) req.topics
      if req.minBytes > 0 ∧ totalBytes topics < req.minBytes ∧ expired = false then
        fetchLoop acl req rest
      else return topics

def handleFetch (req : FetchRequest) (expired : List Bool) :
    BrokerM (List (TopicAnswer FetchPartitionResponse)) := do
  fetchLoop conn (← get).acl req expired

end Fetch

section ListOffsets

variable (conn : Conn)

def listOffsetsPartition (topic : String) (p : ListOffsetsPartition) :
    BrokerM ListOffsetsPartitionResponse := do
  match ← caught (listOffsets topic p.partition p.timestamp) with
  | .ok (offset, timestamp) => return ⟨p.partition, errCodeNone, timestamp, offset⟩
  | .error err =>
    return {
      partition := p.partition
      errorCode :=
        if err = .unknownTopic ∨ err = .unknownPartition then errCodeUnknownTopicOrPart
        else errCodeCorruptMessage }

def listOffsetsTopic (acl : Option ACLStore) (t : ListOffsetsTopic) :
    BrokerM (TopicAnswer ListOffsetsPartitionResponse) := do
  if mayUseTopic acl conn.saslPrincipal t.topic "read" then
    return ⟨t.topic, ← collect (listOffsetsPartition t.topic) t.partitions⟩
  else
    return ⟨t.topic, t.partitions.map fun p =>
      { partition := p.partition, errorCode := errCodeTopicAuthorizationFailed }⟩

def handleListOffsets (topics : List ListOffsetsTopic) :
    BrokerM (List (TopicAnswer ListOffsetsPartitionResponse)) := do
  let acl := (← get).acl
  collect (listOffsetsTopic conn acl) topics

end ListOffsets

section Metadata

variable (conn : Conn)

def notIncluded : Int := -2147483648

def mayDescribe (acl : Option ACLStore) (principal topic : String) : Bool :=
  mayUseTopic acl principal topic "read" || mayUseTopic acl principal topic "write"

def describeTopic (cfg : Broker.Config) (name : String) (t : Topic) : MetadataTopic where
  topic := name
  errorCode := errCodeNone
  authorizedOperations := notIncluded
  partitions := t.partitions.map fun l => ⟨l.partition, cfg.brokerID, [cfg.brokerID], [cfg.brokerID]⟩

def findOrCreate (autoCreate : Bool) (name : String) : BrokerM (Option Topic) := do
  match ← getTopic name with
  | some t => return some t
  | none =>
    if autoCreate then
      match ← caught (ensureTopic name 1) with
      | .ok t => return some t
      | .error _ => return none
    else return none

def metadataTopic (cfg : Broker.Config) (acl : Option ACLStore) (autoCreate : Bool)
    (name : String) : BrokerM MetadataTopic := do
  if mayDescribe acl conn.saslPrincipal name then
    match ← findOrCreate autoCreate name with
    | some t => return describeTopic cfg name t
    | none => return { topic := name, errorCode := errCodeUnknownTopicOrPart }
  else return ⟨name, errCodeUnknownTopicOrPart, notIncluded, []⟩

/-- All topics are listed when none is named; those that the principal may not see are left out. -/
def handleMetadata (req : MetadataRequest) : BrokerM MetadataResponse := do
  let b ← get
  let autoCreate := req.allowAutoTopicCreation && b.cfg.autoCreateTopics
  let names :=
    if req.topics.isEmpty then
      b.topics.keys.filter fun name => mayDescribe b.acl conn.saslPrincipal name
    else req.topics.filterMap id
  let topics ← collect (metadataTopic conn b.cfg b.acl autoCreate) names
  return ⟨b.cfg.clusterID, b.cfg.brokerID, b.cfg.advertisedHost, b.cfg.advertisedPort, topics⟩

end Metadata

section Admin

variable (conn : Conn)

def createError : BrokerErr → Int
  | .topicExists => errCodeTopicAlreadyExists
  | .invalidName _ | .tooManyPartitions _ => errCodeInvalidTopic
  | _ => errCodeInvalidPartitions

def createOne (acl : Option ACLStore) (validateOnly : Bool) (t : CreatableTopic) :
    BrokerM CreateTopicAnswer := do
  if mayUseTopic acl conn.saslPrincipal t.topic "write" then
    let partitions := if t.numPartitions ≤ 0 then 1 else t.numPartitions
    let repFactor := if t.replicationFactor ≤ 0 then 1 else t.replicationFactor
    if validateOnly then return { topic := t.topic, errorCode := errCodeNone }
    else
      match ← caught (createTopic t.topic partitions repFactor) with
      | .ok _ => return ⟨t.topic, errCodeNone, none, partitions, repFactor⟩
      | .error .topicExists => return { topic := t.topic, errorCode := createError .topicExists }
      | .error err =>
        return { topic := t.topic, errorCode := createError err, errorMessage := some (.broker err) }
  else return { topic := t.topic, errorCode := errCodeTopicAuthorizationFailed }

def handleCreateTopics (req : CreateTopicsRequest) : BrokerM (List CreateTopicAnswer) := do
  let acl := (← get).acl
  collect (createOne conn acl req.validateOnly) req.topics

def deleteOne (acl : Option ACLStore) (name : String) : BrokerM DeleteTopicAnswer := do
  if mayUseTopic acl conn.saslPrincipal name "write" then
    match ← caught (deleteTopic name) with
    | .ok () => return { topic := name, errorCode := errCodeNone }
    | .error .unknownTopic => return { topic := name, errorCode := errCodeUnknownTopicOrPart }
    | .error err => return ⟨name, errCodeCorruptMessage, some (.broker err)⟩
  else return { topic := name, errorCode := errCodeTopicAuthorizationFailed }

/-- The names come in two lists, of which old clients fill the first and new ones the second. -/
def handleDeleteTopics (req : DeleteTopicsRequest) : BrokerM (List DeleteTopicAnswer) := do
  let acl := (← get).acl
  collect (deleteOne conn acl) (req.topicNames ++ req.topics.filterMap id)

end Admin

end Dispatcher

inductive TopicRequest
  | produce (req : ProduceRequest)
  | fetch (req : FetchRequest) (expired : List Bool)
  | listOffsets (topics : List ListOffsetsTopic)
  | metadata (req : MetadataRequest)
  | createTopics (req : CreateTopicsRequest)
  | deleteTopics (req : DeleteTopicsRequest)

inductive TopicResponse
  | produce (topics : Option (List (TopicAnswer ProducePartitionResponse)))
  | fetch (topics : List (TopicAnswer FetchPartitionResponse))
  | listOffsets (topics : List (TopicAnswer ListOffsetsPartitionResponse))
  | metadata (resp : MetadataResponse)
  | createTopics (topics : List CreateTopicAnswer)
  | deleteTopics (topics : List DeleteTopicAnswer)

/-- `Dispatch`, for the requests that name topics. -/
def dispatch (conn : Conn) : TopicRequest → BrokerM TopicResponse
  | .produce req => return .produce (← Dispatcher.handleProduce conn req)
  | .fetch req expired => return .fetch (← Dispatcher.handleFetch conn req expired)
  | .listOffsets topics => return .listOffsets (← Dispatcher.handleListOffsets conn topics)
  | .metadata req => return .metadata (← Dispatcher.handleMetadata conn req)
  | .createTopics req => return .createTopics (← Dispatcher.handleCreateTopics conn req)
  | .deleteTopics req => return .deleteTopics (← Dispatcher.handleDeleteTopics conn req)

end KafkaWire.Wire
