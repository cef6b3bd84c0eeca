import KafkaWire.Storage.Index

/-! One segment: an append-only log file with its two indexes. -/

namespace KafkaWire.Storage

open Bytes Files Programs

structure Segment where
  baseOffset : Int
  logFile : Handle Int
  logSize : Nat
  createdAt : Int
  idx : Index
  tix : TimeIndex
  nextOffset : Int
  maxBytes : Int
  maxAge : Int
  sealed : Bool
  deriving DecidableEq, Repr

structure SegmentOpts where
  baseOffset : Int
  indexInterval : Int
  maxBytes : Int
  maxAge : Int
  deriving DecidableEq, Repr

def Segment.indexBatch (s : Segment) (h : BatchHeader) (position : Nat) : SysM Segment := do
  let relOff := int64 (h.baseOffset - s.baseOffset)
  let idx ← orElse (s.idx.maybeAppend relOff position) s.idx
  let tix ← orElse (s.tix.maybeAppend h.maxTimestamp relOff position) s.tix
  return { s with idx := idx, tix := tix }

/-- The whole batch at `position`, or nothing when the log ends or turns bad there. -/
def Segment.recoverBatch (s : Segment) (position : Nat) : SysM (Option (BatchHeader × Nat)) := do
  let header ← mapError (.wrap s!"read segment header at {position}")
    (readAt .log s.logFile position v2HeaderSize)
  if header.length < v2HeaderSize then return none
  match parseBatchHeader header with
  | (_, some _) => return none
  | (h, none) =>
    let batchSize := h.totalSize.toNat
    if position + batchSize > s.logSize then return none
    let body ← orElse (readAt .log s.logFile position batchSize) []
    if body.length < batchSize then return none
    match validateCRC body with
    | some _ => return none
    | none => return some (h, batchSize)

def Segment.recoverLoop : Nat → Segment → Nat → SysM (Segment × Nat)
  | 0, s, position => return (s, position)
  | fuel + 1, s, position =>
    if position < s.logSize then do
      match ← s.recoverBatch position with
      | none => return (s, position)
      | some (h, batchSize) =>
        let indexed ← s.indexBatch h position
        recoverLoop fuel { indexed with nextOffset := int64 (h.lastOffset + 1) }
          (position + batchSize)
    else return (s, position)

/-- Every batch takes up bytes, so the size of the file bounds the turns of the loop. -/
def Segment.recover (s : Segment) : SysM Segment := do
  if s.logSize = 0 then return { s with nextOffset := s.baseOffset }
  let idx ← mapError (.wrap "reset index") s.idx.reset
  let tix ← mapError (.wrap "reset timeindex") s.tix.reset
  let (scanned, position) ← recoverLoop s.logSize { s with idx := idx, tix := tix } 0
  if position < scanned.logSize then
    mapError (.wrap "truncate corrupt tail") (truncateFile .log scanned.logFile position)
    seekFile .log scanned.logFile position
    return { scanned with logSize := position }
  else
    seekFile .log scanned.logFile scanned.logSize
    return scanned

def openSegment (opts : SegmentOpts) : SysM Segment := do
  let logFile ← mapError (.wrap ("open segment log " ++ segmentFilename opts.baseOffset .log))
    (openFile .log opts.baseOffset)
  let idx ← openIndex opts.baseOffset opts.indexInterval
  let tix ← openTimeIndex opts.baseOffset opts.indexInterval
  let stat ← statFile .log logFile
  Segment.recover
    { baseOffset := opts.baseOffset
      logFile := logFile
      logSize := stat.1
      createdAt := stat.2
      idx := idx
      tix := tix
      nextOffset := opts.baseOffset
      maxBytes := opts.maxBytes
      maxAge := opts.maxAge
      sealed := false }

def elapsed (now since : Int) : Int := max (-(2 ^ 63)) (min (2 ^ 63 - 1) (now - since))

def Segment.shouldRoll (s : Segment) : SysM Bool := do
  if s.logSize = 0 then return false
  if s.maxBytes > 0 ∧ (s.logSize : Int) ≥ s.maxBytes then return true
  if s.maxAge > 0 then
    let answer ← tick
    return decide (elapsed answer.now s.createdAt ≥ s.maxAge)
  return false

structure Appended where
  segment : Segment
  firstOffset : Int
  lastOffset : Int
  position : Nat

def Segment.append (s : Segment) (batch : Bytes) : SysM Appended := do
  if s.sealed then throw (.text "segment sealed")
  match parseBatchHeader batch with
  | (_, some err) => throw (.wrap "parse batch" err)
  | (h, none) =>
    match validateCRC batch with
    | some err => throw (.wrap "validate CRC" err)
    | none =>
      match validateBatchAttributes h.attributes with
      | some err => throw (.wrap "validate attributes" err)
      | none => do
          let position := s.logSize
          mapError (.wrap "write batch") (writeFile .log s.logFile batch)
          let grown := { s with
            logSize := s.logSize + batch.length
            nextOffset := int64 (h.lastOffset + 1) }
          let indexed ← grown.indexBatch h position
          return ⟨indexed, h.baseOffset, h.lastOffset, position⟩

def Segment.sync (s : Segment) : SysM Unit := do
  syncFile .log s.logFile
  syncFile .index s.idx.file
  syncFile .timeIndex s.tix.file

def Segment.seal (s : Segment) : SysM Segment := do
  s.sync
  return { s with sealed := true }

inductive Fault where
  | panic
  | err (cause : Err)
  deriving DecidableEq, Repr

section Reading

variable (world : World)

def maxAlloc : Int := 2 ^ 48

def Segment.readAt (s : Segment) (position : Nat) (maxBytes : Int) : Except Fault Bytes :=
  if position ≥ s.logSize then .ok []
  else
    let want : Int :=
      if int64 (position + maxBytes) > s.logSize then (s.logSize : Int) - position else maxBytes
    if want < 0 ∨ want > maxAlloc then .error .panic
    else .ok ((((world.stores .log).data s.logFile.key).drop position).take want.toNat)

/-- The header buffer is reused, so a read that comes up short leaves the end of the
previous header in it. -/
def Segment.findBatchLoop (s : Segment) (targetOffset : Int) :
    Nat → Bytes → Nat → Except Fault Nat
  | 0, _, _ => .ok s.logSize
  | fuel + 1, buffer, position =>
    if position < s.logSize then
      let got := (((world.stores .log).data s.logFile.key).drop position).take v2HeaderSize
      let header := got ++ buffer.drop got.length
      match parseBatchHeader header with
      | (_, some err) => .error (.err (.wrap s!"scan batch at {position}" err))
      | (h, none) =>
        if targetOffset ≥ h.baseOffset ∧ targetOffset ≤ h.lastOffset then .ok position
        else if h.baseOffset > targetOffset then .ok position
        else findBatchLoop s targetOffset fuel header (position + h.totalSize.toNat)
    else .ok s.logSize

def Segment.findBatchAt (s : Segment) (targetOffset : Int) : Except Fault Nat :=
  let startPos := (s.idx.lookupPosition (int64 (targetOffset - s.baseOffset))).getD 0
  s.findBatchLoop world targetOffset s.logSize (List.replicate v2HeaderSize 0) startPos

def Segment.lookupOffsetByTimestamp (s : Segment) (ts : Int) : Option Int :=
  match s.tix.lookupOffset ts with
  | some rel => some (int64 (s.baseOffset + rel))
  | none => none

end Reading

end KafkaWire.Storage
