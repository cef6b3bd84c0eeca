import KafkaWire.Broker.ArchiveRead
import KafkaWire.Storage.Restart
import KafkaWire.Tiering.Archiving
import KafkaWire.Tiering.Verified

/-! A fetch from the archive against the fetch from the local log that the segment was once in. -/

namespace KafkaWire.Broker

open Bytes Storage Tiering Related

def Delivers (bytes : Bytes) (attempt : Attempt) : Bool :=
  attempt.available && attempt.damaged.getD bytes = bytes && attempt.write = .stored

def Answered (bytes : Bytes) : Nat → List Attempt → Bool
  | 0, _ => false
  | _ + 1, [] => false
  | left + 1, attempt :: attempts =>
    Delivers bytes attempt || (!attempt.expired && Answered bytes left attempts)

section Restoring

variable {a : Archive} {entry : SegmentEntry} {bytes : Bytes}

end Restoring

section Sound

variable {cfg : Tiering.Config} {s : Archiving} {e : SegmentEntry} {bytes : Bytes}
  (sound : Archiving.Sound cfg s) (member : e ∈ s.archive.manifest.completed)

include sound member

variable (distinct : ∀ other, s.archive.crypto.sha256 other = e.sha256 → other = bytes)

include distinct

variable (hex : ∀ data, (s.archive.crypto.sha256 data).utf8ByteSize = 64)

include hex

end Sound

def oneSource (next : Int) : SegmentSource := ⟨"t", 0, 0, next⟩

def archiveConfig : Tiering.Config := ⟨"archive", 64, [], none⟩

def markCrypto : Crypto :=
  ⟨fun data => if data = minimalBatch 4 then restoredDigest
    else "e3b0c44298fc1c149afbf4c8996fb92427ae41e4649b934ca495991b7852b855", fun _ text => text⟩

def archivedRun (data : Bytes) (next : Int) : UploadRun :=
  UploadStage.fresh (oneSource next) (UploadStage.key archiveConfig (oneSource next)) "" ⟨1, data⟩
    (markCrypto.sha256 data) "u" 0

def archivedEvents (data : Bytes) (next : Int) : List ArchiveEvent :=
  [.archived (oneSource next) (archivedRun data next) 0 true, .expired "t" 0 next]

def archivedEntry (data : Bytes) (next : Int) : SegmentEntry :=
  UploadStage.entry archiveConfig markCrypto (oneSource next) (archivedRun data next) 0

def archivedStart : Archiving := Archiving.start archiveConfig markCrypto "/cache" 1000

end KafkaWire.Broker
