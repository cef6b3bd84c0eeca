import KafkaWire.Storage.Segment

/-! One partition's log: an ordered list of segments, the last of which is active. -/

namespace KafkaWire.Storage

open Bytes Files Programs BinarySearch

inductive FsyncMode where
  | none
  | interval
  | always
  deriving DecidableEq, Repr

structure Config where
  segmentBytes : Int
  segmentMS : Int
  indexInterval : Int
  fsyncMode : FsyncMode
  deriving DecidableEq, Repr

structure Log where
  cfg : Config
  segments : List Segment
  logStart : Int

/-- What one successful write to a segment was: the bytes as sent and as written, the
offsets the segment reported, and the high watermark right after it. -/
structure Stored where
  sent : Bytes
  written : Bytes
  firstOffset : Int
  lastOffset : Int
  highWatermark : Int

/-- A log together with its directory. The journal records every write in order; no
operation of the log reads it. -/
structure Partition where
  log : Log
  world : World
  journal : List Stored

abbrev LogM := EStateM Err Partition

def sys {α : Type} (prog : SysM α) : LogM α :=
  zoom Partition.world (fun world p => { p with world := world }) prog

def segmentOpts (cfg : Config) (base : Int) : SegmentOpts where
  baseOffset := base
  indexInterval := cfg.indexInterval
  maxBytes := cfg.segmentBytes
  maxAge := int64 (cfg.segmentMS * 1000000)

def readDir : SysM (List Int) := syscall .log fun _ store => (store.keys, store)

def openAll (cfg : Config) : List Int → SysM (List Segment)
  | [] => return []
  | base :: rest => do
      let seg ← openSegment (segmentOpts cfg base)
      let tail ← openAll cfg rest
      return { seg with sealed := seg.sealed || !rest.isEmpty } :: tail

def segmentBases (keys : List Int) : List Int :=
  (keys.filter fun base => decide (0 ≤ base)).mergeSort fun first second => decide (first ≤ second)

def recoverLog (cfg : Config) : SysM Log := do
  let keys ← mapError (.wrap "read partition dir") readDir
  let segments ← openAll cfg (segmentBases keys)
  match segments.head? with
  | some first => return ⟨cfg, segments, first.baseOffset⟩
  | none => return ⟨cfg, segments, 0⟩

def openLog (cfg : Config) : SysM Log := do
  mapError (.wrap "storage: mkdir partition") (syscall .log fun _ store => ((), store))
  let log ← recoverLog cfg
  if log.segments.length = 0 then
    let seg ← openSegment (segmentOpts cfg 0)
    return { log with segments := [seg] }
  return log

def Log.highWatermark (l : Log) : Int :=
  match l.segments.getLast? with
  | none => 0
  | some active => active.nextOffset

def Log.setActive (l : Log) (seg : Segment) : Log :=
  { l with segments := l.segments.dropLast ++ [seg] }

/-- An empty segment is not rolled: a successor would reuse its base offset and file. -/
def rollLocked (old : Segment) : LogM Segment := do
  if old.nextOffset = old.baseOffset then return old
  let closed ← sys old.seal
  modify fun p => { p with log := p.log.setActive closed }
  let seg ← sys (openSegment (segmentOpts (← get).log.cfg closed.nextOffset))
  modify fun p => { p with log := { p.log with segments := p.log.segments ++ [seg] } }
  return seg

def validateAll : List Bytes → Nat → LogM Unit
  | [], _ => return ()
  | batch :: rest, i =>
    match validateBatchForAppend batch with
    | some err => throw (.wrap s!"batch {i}" err)
    | none => validateAll rest (i + 1)

def recordStored (sent written : Bytes) (done : Appended) (p : Partition) : Partition :=
  { p with
    log := p.log.setActive done.segment
    journal := p.journal ++
      [⟨sent, written, done.firstOffset, done.lastOffset, done.segment.nextOffset⟩] }

def appendLoop (active : Segment) : List Bytes → Nat → LogM Unit
  | [], _ => return ()
  | batch :: rest, i => do
      let written := stamp batch active.nextOffset
      let done ← mapError (.wrap s!"append batch {i}") (sys (active.append written))
      modify (recordStored batch written done)
      let full ← if rest.isEmpty then pure false else sys done.segment.shouldRoll
      let active' ←
        if full then mapError (.wrap "roll mid-produce") (rollLocked done.segment)
        else pure done.segment
      appendLoop active' rest (i + 1)

def syncLast : LogM Unit := do
  match (← get).log.segments.getLast? with
  | some last => mapError (.wrap "fsync after append") (sys last.sync)
  | none => return ()

def append (paused : Bool) (batches : List Bytes) : LogM Int := do
  if paused then throw .diskFull
  if batches.isEmpty then throw (.text "append: empty batches")
  match (← get).log.segments.getLast? with
  | none => throw (.text "append: no active segment")
  | some active => do
      let full ← sys active.shouldRoll
      let active' ←
        if full then mapError (.wrap "roll segment") (rollLocked active) else pure active
      validateAll batches 0
      appendLoop active' batches 0
      if (← get).log.cfg.fsyncMode = .always then syncLast
      return active'.nextOffset

def trimLoop (buf : Bytes) : Nat → Nat → Nat
  | 0, position => position
  | fuel + 1, position =>
    if position < buf.length then
      if position + v2HeaderSize > buf.length then position
      else
        match parseBatchHeader (slice buf position (position + v2HeaderSize)) with
        | (_, some _) => position
        | (h, none) =>
          if position + h.totalSize.toNat > buf.length then position
          else trimLoop buf fuel (position + h.totalSize.toNat)
    else position

def trimToBatchBoundary (buf : Bytes) : Bytes := buf.take (trimLoop buf buf.length 0)

def Log.startsPast (l : Log) (fetchOffset : Int) (k : Nat) : Bool :=
  match l.segments[k]? with
  | some seg => decide (seg.baseOffset > fetchOffset)
  | none => true

def Log.findSegmentLocked (l : Log) (fetchOffset : Int) : Option Segment :=
  match l.segments.head? with
  | none => none
  | some first =>
    if fetchOffset < first.baseOffset then none
    else if fetchOffset ≥ l.highWatermark then none
    else
      let idx := search l.segments.length (l.startsPast fetchOffset)
      if idx = 0 then some first else l.segments[idx - 1]?

def wrapFault (context : String) : Fault → Fault
  | .panic => .panic
  | .err cause => .err (.wrap context cause)

def fetchFirstBatch (world : World) (seg : Segment) (startPos : Nat) (fetchOffset : Int)
    (buf : Bytes) : Except Fault (Bytes × Int) :=
  match parseBatchHeader buf with
  | (_, some err) => .error (.err err)
  | (hdr, none) =>
    match seg.readAt world startPos hdr.totalSize with
    | .error fault => .error fault
    | .ok full =>
      if (full.length : Int) < hdr.totalSize then .ok ([], fetchOffset)
      else .ok (full, (parseBatchHeader full).1.baseOffset)

def fetchSegment (world : World) (seg : Segment) (fetchOffset maxBytes : Int) :
    Except Fault (Bytes × Int) :=
  match seg.findBatchAt world fetchOffset with
  | .error fault => .error (wrapFault "find batch" fault)
  | .ok startPos =>
    match seg.readAt world startPos maxBytes with
    | .error fault => .error (wrapFault s!"read at {startPos}" fault)
    | .ok buf =>
      if buf.isEmpty then .ok ([], fetchOffset)
      else
        let trimmed := trimToBatchBoundary buf
        if trimmed.isEmpty then fetchFirstBatch world seg startPos fetchOffset buf
        else .ok (trimmed, (parseBatchHeader trimmed).1.baseOffset)

def fetchAt (l : Log) (world : World) (fetchOffset maxBytes : Int) : Except Fault (Bytes × Int) :=
  if l.segments.isEmpty then .ok ([], fetchOffset)
  else
    match l.findSegmentLocked fetchOffset with
    | none =>
      if fetchOffset ≥ l.highWatermark then .ok ([], fetchOffset)
      else .error (.err .offsetOutOfRange)
    | some seg => fetchSegment world seg fetchOffset maxBytes

end KafkaWire.Storage
