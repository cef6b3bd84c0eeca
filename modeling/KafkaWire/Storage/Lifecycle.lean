import KafkaWire.Lib.Machine
import KafkaWire.Storage.Fresh

/-! The log as the goroutines of the broker share it: every exported operation, up to the closing
of its files. Each holds the log's lock, so an operation is one step. -/

namespace KafkaWire.Storage

open Bytes Files Programs BinarySearch

/-- A log and whether the handles of its oldest segment are gone, as after a deletion that closed
them and then failed. -/
structure LiveLog where
  partition : Partition
  headClosed : Bool

abbrev LiveM := EStateM Fault LiveLog

def live {α : Type} (prog : LogM α) : LiveM α := fun l =>
  match prog l.partition with
  | .ok value p => .ok value { l with partition := p }
  | .error err p => .error (.err err) { l with partition := p }

def closeFile (suffix : Suffix) : SysM Unit := syscall suffix fun _ store => ((), store)

def removeFile (suffix : Suffix) (base : Int) : SysM Unit :=
  syscall suffix fun _ store => ((), store.remove base)

def firstError : List (SysM Unit) → SysM (Option Err)
  | [] => return none
  | act :: rest => do
      let failed ← orElse (do act; return none) (some .io)
      let later ← firstError rest
      return failed.or later

def Segment.close (closed : Bool) : SysM (Option Err) :=
  if closed then return none
  else firstError [closeFile .log, closeFile .index, closeFile .timeIndex]

def Segment.delete (s : Segment) (closed : Bool) : SysM Unit := do
  match ← Segment.close closed with
  | some err => throw err
  | none => do
      mapError (.wrap ("remove " ++ segmentFilename s.baseOffset .log)) (removeFile .log s.baseOffset)
      mapError (.wrap ("remove " ++ segmentFilename s.baseOffset .index))
        (removeFile .index s.baseOffset)
      mapError (.wrap ("remove " ++ segmentFilename s.baseOffset .timeIndex))
        (removeFile .timeIndex s.baseOffset)

namespace LiveLog

def segments (l : LiveLog) : List Segment := l.partition.log.segments

def setSegments (segments : List Segment) (headClosed : Bool) (l : LiveLog) : LiveLog :=
  ⟨{ l.partition with log := { l.partition.log with segments := segments } }, headClosed⟩

/-- The oldest segment goes as long as the next one starts at or below the cutoff; the active
segment stays. -/
def deleteLoop (cutoff : Int) : Nat → Nat → LiveM Nat
  | 0, deleted => return deleted
  | fuel + 1, deleted => do
      let l ← get
      match l.segments with
      | seg :: next :: rest =>
        if next.baseOffset > cutoff then return deleted
        else
          modify (setSegments (seg :: next :: rest) true)
          live (sys (seg.delete l.headClosed))
          modify (setSegments (next :: rest) false)
          deleteLoop cutoff fuel (deleted + 1)
      | _ => return deleted

def setLogStart (l : LiveLog) : LiveLog :=
  match l.segments.head? with
  | some first =>
    { l with
      partition :=
        { l.partition with log := { l.partition.log with logStart := first.baseOffset } } }
  | none => l

def deleteSegmentsBefore (cutoff : Int) : LiveM Nat := do
  let deleted ← deleteLoop cutoff (← get).segments.length 0
  modify setLogStart
  return deleted

def sealedSegments : LiveM (List Segment) := do
  let segments := (← get).segments
  if segments.isEmpty then throw .panic
  return segments.dropLast

def allSegments : LiveM (List Segment) := do return (← get).segments

def highWatermark : LiveM Int := do return (← get).partition.log.highWatermark

def logStartOffset : LiveM Int := do return (← get).partition.log.logStart

def earliestOffset : LiveM Int := do
  match (← get).segments.head? with
  | none => return 0
  | some first => return first.baseOffset

def latestOffset : LiveM Int := highWatermark

def fetchAt (fetchOffset : Int) (maxBytes : Int) : LiveM (Bytes × Int) := do
  let l ← get
  let log := l.partition.log
  if (log.findSegmentLocked fetchOffset).isSome ∧
      search log.segments.length (log.startsPast fetchOffset) ≤ 1 ∧ l.headClosed then throw .panic
  match Storage.fetchAt log l.partition.world fetchOffset maxBytes with
  | .ok result => return result
  | .error fault => throw fault

def lookupOffsetByTimestamp (ts : Int) : LiveM (Option Int) := do
  let l ← get
  if l.headClosed ∧ l.segments.isEmpty = false then throw .panic
  return l.segments.findSome? fun seg => seg.lookupOffsetByTimestamp ts

def flushAndSync : LiveM Unit := do
  match (← get).segments.getLast? with
  | none => return ()
  | some last => live (sys last.sync)

def closeLoop : Bool → List Segment → SysM (Option Err)
  | _, [] => return none
  | closed, _ :: rest => do
      let failed ← Segment.close closed
      let later ← closeLoop false rest
      return failed.or later

def close : LiveM Unit := do
  let l ← get
  let failed ← live (sys (closeLoop l.headClosed l.segments))
  modify (setSegments [] false)
  match failed with
  | some err => throw (.err err)
  | none => return ()

end LiveLog

end KafkaWire.Storage
