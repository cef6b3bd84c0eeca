import KafkaWire.Lib.BinarySearch
import KafkaWire.Storage.World

/-! The sparse offset index and the sparse timestamp index of a segment. -/

namespace KafkaWire.Storage

open Bytes Files Programs BinarySearch

def suffixText : Suffix → String
  | .log => ".log"
  | .index => ".index"
  | .timeIndex => ".timeindex"

/-- `%020d`: the sign counts towards the twenty characters. -/
def segmentFilename (base : Int) (suffix : Suffix) : String :=
  let digits := toString base.natAbs
  let sign := if base < 0 then "-" else ""
  sign ++ String.ofList (List.replicate (20 - sign.length - digits.length) '0') ++ digits ++
    suffixText suffix

def indexEntrySize : Nat := 8

structure IndexEntry where
  relOffset : Nat
  position : Nat
  deriving DecidableEq, Repr

structure Index where
  file : Handle Int
  entries : List IndexEntry
  lastIndexedPos : Int
  interval : Int
  deriving DecidableEq, Repr

def decodeIndexEntries : Nat → Bytes → List IndexEntry
  | 0, _ => []
  | count + 1, buf =>
    ⟨uintBE (slice buf 0 4), uintBE (slice buf 4 8)⟩ ::
      decodeIndexEntries count (buf.drop indexEntrySize)

def loadIndex (file : Handle Int) (interval : Int) : SysM Index := do
  let stat ← statFile .index file
  let size := stat.1 - stat.1 % indexEntrySize
  if stat.1 % indexEntrySize ≠ 0 then
    mapError (.wrap "truncate partial index") (truncateFile .index file size)
  if size = 0 then return ⟨file, [], 0, interval⟩
  let buf ← mapError (.wrap "read index") (readAt .index file 0 size)
  let entries := decodeIndexEntries (size / indexEntrySize) buf
  match entries.getLast? with
  | some last => return ⟨file, entries, last.position, interval⟩
  | none => return ⟨file, entries, 0, interval⟩

def openIndex (base interval : Int) : SysM Index := do
  let file ← mapError (.wrap ("open index " ++ segmentFilename base .index)) (openFile .index base)
  loadIndex file interval

def Index.maybeAppend (i : Index) (relOffset position : Int) : SysM Index := do
  if position - i.lastIndexedPos < i.interval ∧ 0 < i.entries.length then return i
  if relOffset < 0 ∨ relOffset > 0xFFFFFFFF then
    throw (.text s!"relative offset {relOffset} out of range")
  if position < 0 ∨ position > 0xFFFFFFFF then
    throw (.text s!"position {position} out of range")
  let entry : IndexEntry := ⟨relOffset.toNat, position.toNat⟩
  mapError (.wrap "write index entry")
    (writeFile .index i.file (putUintBE 4 entry.relOffset ++ putUintBE 4 entry.position))
  return { i with entries := i.entries ++ [entry], lastIndexedPos := position }

def Index.isPast (i : Index) (target k : Nat) : Bool :=
  match i.entries[k]? with
  | some entry => decide (entry.relOffset > target)
  | none => true

def Index.lookupPosition (i : Index) (relOffset : Int) : Option Nat :=
  if i.entries.length = 0 then none
  else
    let target := (relOffset % 2 ^ 32).toNat
    let idx := search i.entries.length (i.isPast target)
    if idx = 0 then some 0
    else
      match i.entries[idx - 1]? with
      | some entry => some entry.position
      | none => some 0

def Index.reset (i : Index) : SysM Index := do
  truncateFile .index i.file 0
  seekFile .index i.file 0
  return { i with entries := [], lastIndexedPos := 0 }

def timeIndexEntrySize : Nat := 16

structure TimeEntry where
  timestamp : Int
  relOffset : Nat
  deriving DecidableEq, Repr

structure TimeIndex where
  file : Handle Int
  entries : List TimeEntry
  lastIndexedPos : Int
  lastTS : Int
  interval : Int
  deriving DecidableEq, Repr

def decodeTimeEntries : Nat → Bytes → List TimeEntry
  | 0, _ => []
  | count + 1, buf =>
    ⟨int64 (uintBE (slice buf 0 8)), uintBE (slice buf 8 12)⟩ ::
      decodeTimeEntries count (buf.drop timeIndexEntrySize)

def loadTimeIndex (file : Handle Int) (interval : Int) : SysM TimeIndex := do
  let stat ← statFile .timeIndex file
  let size := stat.1 - stat.1 % timeIndexEntrySize
  if stat.1 % timeIndexEntrySize ≠ 0 then
    mapError (.wrap "truncate partial timeindex") (truncateFile .timeIndex file size)
  if size = 0 then return ⟨file, [], 0, 0, interval⟩
  let buf ← mapError (.wrap "read timeindex") (readAt .timeIndex file 0 size)
  let entries := decodeTimeEntries (size / timeIndexEntrySize) buf
  match entries.getLast? with
  | some last => return ⟨file, entries, 0, last.timestamp, interval⟩
  | none => return ⟨file, entries, 0, 0, interval⟩

def openTimeIndex (base interval : Int) : SysM TimeIndex := do
  let file ← mapError (.wrap ("open timeindex " ++ segmentFilename base .timeIndex))
    (openFile .timeIndex base)
  loadTimeIndex file interval

def TimeIndex.maybeAppend (t : TimeIndex) (ts relOffset position : Int) : SysM TimeIndex := do
  if position - t.lastIndexedPos < t.interval ∧ 0 < t.entries.length then return t
  let stamped := if ts ≤ t.lastTS ∧ 0 < t.entries.length then int64 (t.lastTS + 1) else ts
  if relOffset < 0 ∨ relOffset > 0xFFFFFFFF then
    throw (.text s!"relative offset {relOffset} out of range")
  let entry : TimeEntry := ⟨stamped, relOffset.toNat⟩
  mapError (.wrap "write timeindex entry") (writeFile .timeIndex t.file
    (putUintBE 8 (entry.timestamp % 2 ^ 64).toNat ++ putUintBE 4 entry.relOffset ++
      List.replicate 4 0))
  return { t with entries := t.entries ++ [entry], lastIndexedPos := position, lastTS := stamped }

def TimeIndex.isAtLeast (t : TimeIndex) (ts : Int) (k : Nat) : Bool :=
  match t.entries[k]? with
  | some entry => decide (entry.timestamp ≥ ts)
  | none => true

def TimeIndex.lookupOffset (t : TimeIndex) (ts : Int) : Option Int :=
  if t.entries.length = 0 then none
  else
    let idx := search t.entries.length (t.isAtLeast ts)
    match t.entries[idx]? with
    | some entry => some entry.relOffset
    | none => none

def TimeIndex.reset (t : TimeIndex) : SysM TimeIndex := do
  truncateFile .timeIndex t.file 0
  seekFile .timeIndex t.file 0
  return { t with entries := [], lastIndexedPos := 0, lastTS := 0 }

end KafkaWire.Storage
