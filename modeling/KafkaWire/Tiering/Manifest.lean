import KafkaWire.Broker.GroupState
import KafkaWire.Storage.Index

/-! The archive manifest in memory: the segments that are in cold storage and the multipart
uploads that are in flight. -/

namespace KafkaWire.Tiering

open Broker (Table)

structure SegmentEntry where
  topic : String
  partition : Int
  baseOffset : Int
  nextOffset : Int
  sizeBytes : Int
  sha256 : String
  s3Key : String
  uploadedAt : Int
  tenantID : String := ""
  hmacSignature : String := ""
  deriving DecidableEq, Repr

structure PendingUploadPart where
  partNumber : Int
  etag : String
  sizeBytes : Int
  deriving DecidableEq, Repr

structure PendingUpload where
  topic : String
  partition : Int
  baseOffset : Int
  nextOffset : Int
  tenantID : String
  sha256 : String
  s3Key : String
  uploadID : String
  parts : List PendingUploadPart
  startedAt : Int
  deriving DecidableEq, Repr

structure Manifest where
  completed : List SegmentEntry := []
  pending : Table PendingUpload := ∅

namespace Manifest

def replacedBy (new old : SegmentEntry) : Bool :=
  old.topic = new.topic && old.partition = new.partition &&
    ((old.baseOffset < new.nextOffset && new.baseOffset < old.nextOffset) ||
      old.baseOffset = new.baseOffset)

def addCompleted (m : Manifest) (entry : SegmentEntry) : Manifest where
  completed := (m.completed.filter fun old => !replacedBy entry old) ++ [entry]
  pending := m.pending.erase entry.s3Key

def setPending (m : Manifest) (upload : PendingUpload) : Manifest :=
  { m with pending := m.pending.insert upload.s3Key upload }

def getPending (m : Manifest) (s3Key : String) : Option PendingUpload := m.pending.lookup s3Key

def abortPending (m : Manifest) (s3Key : String) : Manifest :=
  { m with pending := m.pending.erase s3Key }

def lookup (m : Manifest) (topic : String) (partition baseOffset : Int) : Option SegmentEntry :=
  m.completed.find? fun entry =>
    entry.topic = topic && entry.partition = partition && entry.baseOffset = baseOffset

def forgetTopic (m : Manifest) (topic : String) : Manifest where
  completed := m.completed.filter fun entry => entry.topic ≠ topic
  pending := (m.pending.entries.filter fun entry => entry.2.topic = topic).foldl
    (fun kept entry => kept.erase entry.1) m.pending

def allForTopic (m : Manifest) (topic : String) : List SegmentEntry :=
  m.completed.filter fun entry => entry.topic = topic

end Manifest

/-- `<prefix>/[tenants/<tenant>/]<topic>/<partition>/<base>.log`, where one slash at the end of
the prefix is dropped. -/
def segmentKeyTenant (keyPrefix tenantID topic : String) (partition baseOffset : Int) : String :=
  let root := if keyPrefix.endsWith "/" then (keyPrefix.dropEnd 1).toString else keyPrefix
  let owner := if tenantID = "" then "" else "tenants/" ++ tenantID ++ "/"
  root ++ "/" ++ owner ++ topic ++ "/" ++ toString partition ++ "/" ++
    Storage.segmentFilename baseOffset .log

structure Crypto where
  sha256 : Bytes → String
  hmac : Bytes → String → String

def segmentSignature (crypto : Crypto) (hmacKey : Bytes) (tenantID topic : String)
    (partition baseOffset : Int) (sha256 : String) : String :=
  crypto.hmac hmacKey s!"v1|{tenantID}|{topic}|{partition}|{baseOffset}|{sha256}"

def SegmentEntry.verifySignature (crypto : Crypto) (hmacKey : Bytes) (e : SegmentEntry) : Bool :=
  if hmacKey.isEmpty || e.hmacSignature = "" then true
  else e.hmacSignature =
    segmentSignature crypto hmacKey e.tenantID e.topic e.partition e.baseOffset e.sha256

end KafkaWire.Tiering
