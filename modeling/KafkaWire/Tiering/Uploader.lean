import KafkaWire.Tiering.Tier

/-! `uploadOne`: one segment on its way to cold storage, one call at a time. -/

namespace KafkaWire.Tiering

structure Config where
  keyPrefix : String
  partSize : Nat
  hmacKey : Bytes
  tenantResolver : Option (String → Int → String)

/-- `NewUploader` replaces a part size that is not positive. -/
def effectivePartSize (partSize : Int) : Nat :=
  if partSize ≤ 0 then 5 * 1024 * 1024 else partSize.toNat

structure SegmentSource where
  topic : String
  partition : Int
  baseOffset : Int
  nextOffset : Int
  deriving DecidableEq, Repr

/-- The file at a segment's path. Nothing writes to the file of a sealed segment, so an open
descriptor reads the same bytes throughout. -/
structure SegmentFile where
  inode : Nat
  data : Bytes
  deriving DecidableEq, Repr

/-- What the world answers to one step: whether the call succeeds, the time, the file now at the
segment's path, the upload id drawn, and how far a removal gets. -/
structure Answer where
  ok : Bool := true
  now : Int := 0
  file : Option SegmentFile := none
  uploadID : String := ""
  removal : Removal := .whole

structure UploadRun where
  key : String
  tenantID : String
  file : SegmentFile
  sha : String
  uploadID : String
  parts : List Part
  pending : PendingUpload
  position : Nat
  totalSize : Nat

inductive UploadStage
  | opening
  | resuming (key tenantID : String) (file : SegmentFile) (sha : String)
  | listing (key tenantID : String) (file : SegmentFile) (sha : String) (prev : PendingUpload)
  | creating (key tenantID : String) (file : SegmentFile) (sha : String)
  | checkpointing (run : UploadRun) (call : CallStage)
  | streaming (run : UploadRun)
  | noting (run : UploadRun) (last : Bool) (call : CallStage)
  | assembling (run : UploadRun)
  | describing (run : UploadRun)
  | discarding (run : UploadRun)
  | verifying (run : UploadRun)
  | recording (call : CallStage)
  | aborting (key uploadID : String)
  | releasing (call : CallStage)
  | returned (ok : Bool)

/-- The parts that a resumed upload trusts: those before the first that is out of line. The size
of the last part in the list is not looked at. -/
def trusted (partSize : Nat) (existing : List Part) : Nat → List Part → List Part
  | _, [] => []
  | i, part :: rest =>
    if part.number ≠ i + 1 ∨ (i < existing.length - 1 ∧ part.size ≠ partSize) then []
    else part :: trusted partSize existing (i + 1) rest

def Part.checkpoint (part : Part) : PendingUploadPart := ⟨part.number, part.etag, part.size⟩

namespace UploadStage

variable (cfg : Config) (crypto : Crypto) (seg : SegmentSource)

def tenantID : String :=
  match cfg.tenantResolver with
  | some resolve => resolve seg.topic seg.partition
  | none => ""

def key : String :=
  segmentKeyTenant cfg.keyPrefix (tenantID cfg seg) seg.topic seg.partition seg.baseOffset

def metadata (sha : String) : Broker.Table String :=
  (((AList.insert "sha256" sha ∅).insert "topic" seg.topic).insert "partition"
    (toString seg.partition)).insert "baseoffset" (toString seg.baseOffset)

def entry (run : UploadRun) (now : Int) : SegmentEntry where
  topic := seg.topic
  partition := seg.partition
  baseOffset := seg.baseOffset
  nextOffset := seg.nextOffset
  sizeBytes := run.totalSize
  sha256 := run.sha
  s3Key := run.key
  uploadedAt := now
  tenantID := run.tenantID
  hmacSignature :=
    if cfg.hmacKey.isEmpty then ""
    else segmentSignature crypto cfg.hmacKey run.tenantID seg.topic seg.partition seg.baseOffset
      run.sha

def resumed (prev : PendingUpload) (key tenantID : String) (file : SegmentFile) (sha : String)
    (existing : List Part) : UploadRun where
  key := key
  tenantID := tenantID
  file := file
  sha := sha
  uploadID := prev.uploadID
  parts := existing
  pending := { prev with parts := existing.map Part.checkpoint }
  position := existing.length * cfg.partSize
  totalSize := existing.length * cfg.partSize

def fresh (key tenantID : String) (file : SegmentFile) (sha uploadID : String) (now : Int) :
    UploadRun where
  key := key
  tenantID := tenantID
  file := file
  sha := sha
  uploadID := uploadID
  parts := []
  pending :=
    { topic := seg.topic
      partition := seg.partition
      baseOffset := seg.baseOffset
      nextOffset := seg.nextOffset
      tenantID := tenantID
      sha256 := sha
      s3Key := key
      uploadID := uploadID
      parts := []
      startedAt := now }
  position := 0
  totalSize := 0

def sent (run : UploadRun) (part : Part) : UploadRun :=
  { run with
    parts := run.parts ++ [part]
    pending := { run.pending with parts := run.pending.parts ++ [part.checkpoint] }
    position := run.position + part.size
    totalSize := run.totalSize + part.size }

/-- One step of the upload `caller`. -/
def step (caller : Nat) (tier : Tier) (answer : Answer) : UploadStage → Tier × UploadStage
  | .opening =>
    match answer.ok, answer.file with
    | true, some file =>
      (tier, .resuming (key cfg seg) (tenantID cfg seg) file (crypto.sha256 file.data))
    | _, _ => (tier, .returned false)
  | .resuming key tenantID file sha =>
    match tier.manifest.getPending key with
    | some prev =>
      if prev.uploadID ≠ "" ∧ prev.sha256 = sha then (tier, .listing key tenantID file sha prev)
      else (tier, .creating key tenantID file sha)
    | none => (tier, .creating key tenantID file sha)
  | .listing key tenantID file sha prev =>
    match answer.ok, tier.store.listParts prev.uploadID with
    | true, some existing =>
      let kept := trusted cfg.partSize existing 0 existing
      if kept.isEmpty then (tier, .creating key tenantID file sha)
      else
        let run := resumed cfg prev key tenantID file sha kept
        (tier, .checkpointing run (.mutate (.setPending run.pending)))
    | _, _ => (tier, .creating key tenantID file sha)
  | .creating key tenantID file sha =>
    if answer.ok ∧ answer.uploadID ∉ tier.store.uploads then
      match tier.store.createMultipart key answer.uploadID (metadata seg sha) with
      | some store =>
        let run := fresh seg key tenantID file sha answer.uploadID answer.now
        ({ tier with store := store }, .checkpointing run (.mutate (.setPending run.pending)))
      | none => (tier, .returned false)
    else (tier, .returned false)
  | .checkpointing run call =>
    match call.step caller tier answer.ok with
    | (tier', .done true) => (tier', .streaming run)
    | (tier', .done false) => (tier', .returned false)
    | (tier', call') => (tier', .checkpointing run call')
  | .streaming run =>
    let bytes := (run.file.data.drop run.position).take cfg.partSize
    if bytes.isEmpty then (tier, .assembling run)
    else
      match answer.ok, tier.store.uploadPart run.uploadID (run.parts.length + 1) bytes with
      | true, some (part, store) =>
        let run' := sent run part
        ({ tier with store := store },
          .noting run' (bytes.length < cfg.partSize) (.mutate (.setPending run'.pending)))
      | _, _ => (tier, .aborting run.key run.uploadID)
  | .noting run last call =>
    match call.step caller tier answer.ok with
    | (tier', .done _) => (tier', if last then .assembling run else .streaming run)
    | (tier', call') => (tier', .noting run last call')
  | .assembling run =>
    match answer.ok, tier.store.assemble run.key run.uploadID run.parts with
    | true, some store => ({ tier with store := store }, .describing run)
    | _, _ => (tier, .aborting run.key run.uploadID)
  | .describing run =>
    -- a metadata file that cannot be written is left out
    if answer.ok then
      ({ tier with store := tier.store.describe run.key run.uploadID }, .discarding run)
    else (tier, .discarding run)
  | .discarding run =>
    ({ tier with store := tier.store.removeUpload run.uploadID answer.removal },
      if answer.removal = .whole then .verifying run else .aborting run.key run.uploadID)
  | .verifying run =>
    match answer.ok, answer.file with
    | true, some now =>
      if now.inode = run.file.inode then
        (tier, .recording (.mutate (.addCompleted (entry cfg crypto seg run answer.now))))
      else (tier, .releasing (.mutate (.abortPending run.key)))
    | _, _ => (tier, .releasing (.mutate (.abortPending run.key)))
  | .recording call =>
    match call.step caller tier answer.ok with
    | (tier', .done ok) => (tier', .returned ok)
    | (tier', call') => (tier', .recording call')
  | .aborting key uploadID =>
    ({ tier with store := tier.store.removeUpload uploadID answer.removal },
      .releasing (.mutate (.abortPending key)))
  | .releasing call =>
    match call.step caller tier answer.ok with
    | (tier', .done _) => (tier', .returned false)
    | (tier', call') => (tier', .releasing call')
  | .returned ok => (tier, .returned ok)

end UploadStage

end KafkaWire.Tiering
