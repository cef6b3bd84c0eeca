import KafkaWire.Broker.Topics

/-! The requests that name topics, and their responses. -/

namespace KafkaWire.Wire

open Broker Storage

structure Conn where
  saslPrincipal : String
  tenantID : String
  deriving DecidableEq, Repr

def errCodeOffsetOutOfRange : Int := 1
def errCodeUnknownTopicOrPart : Int := 3
def errCodeInvalidTopic : Int := 17
def errCodeTopicAuthorizationFailed : Int := 29
def errCodeTopicAlreadyExists : Int := 36
def errCodeInvalidPartitions : Int := 37

inductive Message
  | text (text : String)
  | records (cause : Err)
  | broker (cause : BrokerErr)
  deriving DecidableEq, Repr

structure ProducePartition where
  partition : Int
  records : Bytes
  deriving DecidableEq, Repr

structure ProduceTopic where
  topic : String
  partitions : List ProducePartition
  deriving DecidableEq, Repr

structure ProduceRequest where
  acks : Int
  topics : List ProduceTopic
  deriving DecidableEq, Repr

structure ProducePartitionResponse where
  partition : Int
  errorCode : Int
  baseOffset : Int := -1
  errorMessage : Option Message := none
  deriving DecidableEq, Repr

structure FetchPartition where
  partition : Int
  fetchOffset : Int
  partitionMaxBytes : Int
  deriving DecidableEq, Repr

structure FetchTopic where
  topic : String
  partitions : List FetchPartition
  deriving DecidableEq, Repr

structure FetchRequest where
  minBytes : Int
  topics : List FetchTopic
  deriving DecidableEq, Repr

structure FetchPartitionResponse where
  partition : Int
  errorCode : Int
  highWatermark : Int := 0
  lastStableOffset : Int := 0
  logStartOffset : Int := 0
  preferredReadReplica : Int := 0
  recordBatches : Bytes := []
  deriving DecidableEq, Repr

structure ListOffsetsPartition where
  partition : Int
  timestamp : Int
  deriving DecidableEq, Repr

structure ListOffsetsTopic where
  topic : String
  partitions : List ListOffsetsPartition
  deriving DecidableEq, Repr

structure ListOffsetsPartitionResponse where
  partition : Int
  errorCode : Int
  timestamp : Int := 0
  offset : Int := 0
  deriving DecidableEq, Repr

structure TopicAnswer (α : Type) where
  topic : String
  partitions : List α
  deriving DecidableEq, Repr

structure MetadataRequest where
  topics : List (Option String)
  allowAutoTopicCreation : Bool
  deriving DecidableEq, Repr

structure MetadataPartition where
  partition : Int
  leader : Int
  replicas : List Int
  isr : List Int
  deriving DecidableEq, Repr

structure MetadataTopic where
  topic : String
  errorCode : Int
  authorizedOperations : Int := 0
  partitions : List MetadataPartition := []
  deriving DecidableEq, Repr

structure MetadataResponse where
  clusterID : String
  controllerID : Int
  host : String
  port : Int
  topics : List MetadataTopic
  deriving DecidableEq, Repr

structure CreatableTopic where
  topic : String
  numPartitions : Int
  replicationFactor : Int
  deriving DecidableEq, Repr

structure CreateTopicsRequest where
  topics : List CreatableTopic
  validateOnly : Bool
  deriving DecidableEq, Repr

structure CreateTopicAnswer where
  topic : String
  errorCode : Int
  errorMessage : Option Message := none
  numPartitions : Int := 0
  replicationFactor : Int := 0
  deriving DecidableEq, Repr

structure DeleteTopicsRequest where
  topicNames : List String
  topics : List (Option String)
  deriving DecidableEq, Repr

structure DeleteTopicAnswer where
  topic : String
  errorCode : Int
  errorMessage : Option Message := none
  deriving DecidableEq, Repr

end KafkaWire.Wire
