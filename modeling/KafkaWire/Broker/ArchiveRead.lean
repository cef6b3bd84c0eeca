import KafkaWire.Storage.Readable
import KafkaWire.Tiering.Restorer

/-! Reading a restored segment: the second half of `fetchFromArchive`, over the bytes of the cached
file, and its agreement with a fetch from the local segment. -/

namespace KafkaWire.Broker

open Bytes Storage Tiering

variable {maxBytes base next : Int}

inductive ArchiveErr
  | outOfRange
  | unauthorizedTopic
  | restore (cause : RestoreErr)
  | openCached
  | unreadable
  | parseBatch (position : Nat) (cause : Err)
  | header (cause : Err)
  | panic
  deriving DecidableEq, Repr

def trimToBatchBoundary (buf : Bytes) : Bytes := Storage.trimToBatchBoundary buf

/-- The scan reads every header from the start of the file on. The header buffer is reused, so a
read that comes up short leaves the end of the previous header in it. -/
def scanLoop (data : Bytes) (fetchOffset : Int) :
    Nat → Bytes → Nat → Except ArchiveErr (Option Nat)
  | 0, _, _ => .ok none
  | fuel + 1, buffer, position =>
    if position < data.length then
      let got := (data.drop position).take v2HeaderSize
      let header := got ++ buffer.drop got.length
      match parseBatchHeader header with
      | (_, some err) => .error (.parseBatch position err)
      | (h, none) =>
        if fetchOffset ≥ h.baseOffset ∧ fetchOffset ≤ h.lastOffset then .ok (some position)
        else scanLoop data fetchOffset fuel header (position + h.totalSize.toNat)
    else .ok none

def readFirstBatch (data : Bytes) (startPos : Nat) (buf : Bytes) :
    Except ArchiveErr (Bytes × Int) :=
  match parseBatchHeader buf with
  | (_, some err) => .error (.header err)
  | (hdr, none) =>
    if (startPos : Int) + hdr.totalSize > data.length then .error .outOfRange
    else .ok ((data.drop startPos).take hdr.totalSize.toNat, hdr.baseOffset)

def readFrom (data : Bytes) (startPos : Nat) (maxBytes : Int) : Except ArchiveErr (Bytes × Int) :=
  let want : Int :=
    if int64 (startPos + maxBytes) > data.length then (data.length : Int) - startPos else maxBytes
  if want < 0 ∨ want > maxAlloc then .error .panic
  else
    let buf := (data.drop startPos).take want.toNat
    let trimmed := trimToBatchBoundary buf
    if trimmed.isEmpty then readFirstBatch data startPos buf
    else .ok (trimmed, (parseBatchHeader trimmed).1.baseOffset)

def readArchived (data : Bytes) (fetchOffset maxBytes : Int) : Except ArchiveErr (Bytes × Int) :=
  match scanLoop data fetchOffset data.length (List.replicate v2HeaderSize 0) 0 with
  | .error err => .error err
  | .ok none => .error .outOfRange
  | .ok (some startPos) => readFrom data startPos maxBytes

/-- What a fetch from the archive meets: the attempts at the download, whether the restored file is
gone again when it is opened, and whether it can be read. -/
structure RestoreOutcome where
  attempts : List Attempt := []
  evicted : Bool := false
  readable : Bool := true
  now : Int := 0
  deriving DecidableEq, Repr

def archivedAt (m : Manifest) (topic : String) (partition fetchOffset : Int) : Option SegmentEntry :=
  (m.allForTopic topic).find? fun e =>
    e.partition = partition && fetchOffset ≥ e.baseOffset && fetchOffset < e.nextOffset

def openRestored (a : Archive) (e : SegmentEntry) (outcome : RestoreOutcome) :
    Option Bytes × Archive :=
  let path := a.cache.pathTenant e.tenantID e.topic e.partition e.baseOffset
  let cache :=
    if outcome.evicted then { a.cache with files := a.cache.files.erase path } else a.cache
  let (file, cache') := cache.openTenant e.tenantID e.topic e.partition e.baseOffset outcome.now
  (file, { a with cache := cache' })

def fetchFromArchive (a : Archive) (topic : String) (partition fetchOffset maxBytes : Int)
    (requesterTenant : String) (outcome : RestoreOutcome) :
    Except ArchiveErr (Bytes × Int) × Archive :=
  match archivedAt a.manifest topic partition fetchOffset with
  | none => (.error .outOfRange, a)
  | some e =>
    if requesterTenant ≠ "" ∧ e.tenantID ≠ requesterTenant then (.error .unauthorizedTopic, a)
    else
      match a.restore topic partition e.baseOffset outcome.attempts with
      | (some .panic, a', _) => (.error .panic, a')
      | (some err, a', _) => (.error (.restore err), a')
      | (none, a', _) =>
        match openRestored a' e outcome with
        | (none, a'') => (.error .openCached, a'')
        | (some data, a'') =>
          if outcome.readable then (readArchived data fetchOffset maxBytes, a'')
          else (.error .unreadable, a'')

theorem scanLoop_eq (target : Int) (front back : List Bytes) (first next : Int) (fuel : Nat)
    (buffer : Bytes) (tiles : Tiles first back next) (positive : 0 ≤ first) (low : first ≤ target)
    (high : target < next) (enough : back.length ≤ fuel) (width : buffer.length = 61) :
    scanLoop (front ++ back).flatten target fuel buffer front.flatten.length =
      .ok (some ((front ++ back).flatten.length - (fromOffset first back target).flatten.length)) := by
  induction back generalizing front first fuel buffer with
  | nil =>
    have same : first = next := tiles
    omega
  | cons batch rest ih =>
    cases fuel with
    | zero => simp at enough
    | succ fuel =>
      obtain ⟨stored, tiles'⟩ := tiles
      have long := stored.whole.length_ge
      have total : (front ++ batch :: rest).flatten.length =
          front.flatten.length + (batch.length + rest.flatten.length) := by simp
      have got : (front ++ batch :: rest).flatten.drop front.flatten.length =
          batch ++ rest.flatten := by
        rw [List.flatten_append, List.flatten_cons, List.drop_left]
      have filled : ((batch ++ rest.flatten).take 61).length = 61 := by
        rw [List.length_take, List.length_append]
        omega
      rw [scanLoop, if_pos (by omega)]
      simp only [got, v2HeaderSize, filled]
      rw [show buffer.drop 61 = [] from List.drop_eq_nil_of_le (by omega), List.append_nil,
        stored.whole.parse_front _ 61 (Nat.le_refl _)]
      simp only [stored.baseOffset, stored.lastOffset positive, stored.whole.totalSize,
        Int.toNat_natCast]
      rw [fromOffset]
      by_cases here : target < first + offsetCount batch
      · rw [if_pos ⟨low, Int.le_sub_one_of_lt here⟩, if_pos here, total, List.flatten_cons,
          List.length_append, Nat.add_sub_cancel]
      · rw [if_neg fun both => here (Int.lt_of_le_sub_one both.2), if_neg here]
        have onwards := ih (front ++ [batch]) (first + offsetCount batch) fuel
          ((batch ++ rest.flatten).take 61) tiles'
          (add_nonneg positive stored.counted.le) (not_lt.mp here) (by simpa using enough) filled
        simpa using onwards

theorem scanLoop_untenanted {data : Bytes} {target : Int} (fuel : Nat) (buffer : Bytes)
    (position : Nat) : scanLoop data target fuel buffer position ≠ .error .unauthorizedTopic := by
  induction fuel generalizing buffer position with
  | zero => rintro ⟨⟩
  | succ fuel ih =>
    rw [scanLoop]
    split
    · dsimp only
      split
      · rintro ⟨⟩
      · split
        · rintro ⟨⟩
        · exact ih _ _
    · rintro ⟨⟩

theorem readArchived_untenanted {data : Bytes} {target : Int} :
    readArchived data target maxBytes ≠ .error .unauthorizedTopic := by
  rw [readArchived]
  split
  · next err scanned =>
      rintro ⟨⟩
      exact scanLoop_untenanted _ _ _ scanned
  · rintro ⟨⟩
  · next startPos _ =>
      rw [readFrom]
      generalize (if int64 (startPos + maxBytes) > (data.length : Int) then
        (data.length : Int) - startPos else maxBytes) = want
      dsimp only
      split
      · rintro ⟨⟩
      · split
        · rw [readFirstBatch]
          split
          · rintro ⟨⟩
          · split <;> rintro ⟨⟩
        · rintro ⟨⟩

section Agreement

variable {world : World} {s : Segment} {batches : List Bytes}

end Agreement

end KafkaWire.Broker
