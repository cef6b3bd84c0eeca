import KafkaWire.Tiering.FileStore
import KafkaWire.Tiering.Manifest

/-! What the calls of the archive share: the manifest with its lock, its two files and their
temporary files, and the store. A call that changes the manifest is a sequence of steps. -/

namespace KafkaWire.Tiering

open Broker (Table)

/-- `archive.json` and `archive_pending.json` -/
inductive ManifestFile
  | completed | pending
  deriving DecidableEq, Repr

inductive Raw
  | completed (segments : List SegmentEntry)
  | pending (uploads : Table PendingUpload)

def Manifest.marshal (m : Manifest) : ManifestFile → Raw
  | .completed => .completed m.completed
  | .pending => .pending m.pending

def Manifest.replace (m : Manifest) : Raw → Manifest
  | .completed segments => { m with completed := segments }
  | .pending uploads => { m with pending := uploads }

structure Tier where
  manifest : Manifest
  flushMu : Option Nat
  temp : ManifestFile → Option Raw
  disk : Manifest
  store : FS

/-- `OpenManifest` in a new process. -/
def Tier.reopen (tier : Tier) : Tier := { tier with manifest := tier.disk, flushMu := none }

inductive ManifestOp
  | addCompleted (entry : SegmentEntry)
  | setPending (upload : PendingUpload)
  | abortPending (s3Key : String)
  | forgetTopic (topic : String)

namespace ManifestOp

def apply : ManifestOp → Manifest → Manifest
  | .addCompleted entry, m => m.addCompleted entry
  | .setPending upload, m => m.setPending upload
  | .abortPending s3Key, m => m.abortPending s3Key
  | .forgetTopic topic, m => m.forgetTopic topic

def files : ManifestOp → List ManifestFile
  | .addCompleted _ => [.completed, .pending]
  | .setPending _ => [.pending]
  | .abortPending _ => [.pending]
  | .forgetTopic _ => [.completed, .pending]

end ManifestOp

/-- Where a call that changes the manifest is: it changes memory under `mu`, and then, for each
file, takes `flushMu`, marshals memory under `mu`, writes the temporary file and renames it. -/
inductive CallStage
  | mutate (op : ManifestOp)
  | acquire (files : List ManifestFile)
  | marshal (file : ManifestFile) (rest : List ManifestFile)
  | write (file : ManifestFile) (raw : Raw) (rest : List ManifestFile)
  | rename (file : ManifestFile) (rest : List ManifestFile)
  | done (ok : Bool)

/-- One step of the call `caller`; `ok` says whether a file operation succeeds. -/
def CallStage.step (caller : Nat) (tier : Tier) (ok : Bool) : CallStage → Tier × CallStage
  | .mutate op => ({ tier with manifest := op.apply tier.manifest }, .acquire op.files)
  | .acquire [] => (tier, .done true)
  | .acquire (file :: rest) =>
    match tier.flushMu with
    | none => ({ tier with flushMu := some caller }, .marshal file rest)
    | some _ => (tier, .acquire (file :: rest))
  | .marshal file rest => (tier, .write file (tier.manifest.marshal file) rest)
  | .write file raw rest =>
    if ok then ({ tier with temp := Function.update tier.temp file (some raw) }, .rename file rest)
    else ({ tier with flushMu := none }, .done false)
  | .rename file rest =>
    match tier.temp file with
    | some raw =>
      if ok then
        ({ tier with
            flushMu := none
            temp := Function.update tier.temp file none
            disk := tier.disk.replace raw },
          .acquire rest)
      else ({ tier with flushMu := none }, .done false)
    | none => ({ tier with flushMu := none }, .done false)
  | .done ok => (tier, .done ok)

/-! Where a manifest may be found: in memory, on disk, in a temporary file, or in the hands of a
call that has marshalled it. -/

def Manifest.All (good : Raw → Prop) (m : Manifest) : Prop := ∀ file, good (m.marshal file)

structure Tier.All (good : Raw → Prop) (tier : Tier) : Prop where
  memory : tier.manifest.All good
  disk : tier.disk.All good
  temp : ∀ file, ∀ raw ∈ tier.temp file, good raw

def CallStage.All (good : Raw → Prop) : CallStage → Prop
  | .mutate op => ∀ m : Manifest, m.All good → (op.apply m).All good
  | .write _ raw _ => good raw
  | _ => True

variable {good : Raw → Prop}

theorem Manifest.All.replace {m : Manifest} (all : m.All good) (raw : Raw) (isGood : good raw) :
    (m.replace raw).All good := by
  intro file
  cases raw <;> cases file
  · exact isGood
  · exact all .pending
  · exact all .completed
  · exact isGood

theorem temp_update {temp : ManifestFile → Option Raw} (all : ∀ file, ∀ raw ∈ temp file, good raw)
    (file : ManifestFile) (value : Option Raw) (isGood : ∀ raw ∈ value, good raw) :
    ∀ other, ∀ raw ∈ Function.update temp file value other, good raw := by
  intro other raw member
  by_cases same : other = file
  · rw [same, Function.update_self] at member
    exact isGood raw member
  · rw [Function.update_of_ne same] at member
    exact all other raw member

theorem CallStage.step_all (caller : Nat) (tier : Tier) (ok : Bool) (call : CallStage)
    (all : tier.All good) (callAll : call.All good) :
    (call.step caller tier ok).1.All good ∧ (call.step caller tier ok).2.All good := by
  cases call with
  | mutate op => exact ⟨⟨callAll _ all.memory, all.disk, all.temp⟩, trivial⟩
  | acquire files =>
    cases files with
    | nil => exact ⟨all, trivial⟩
    | cons file rest =>
      simp only [CallStage.step]
      split
      · exact ⟨⟨all.memory, all.disk, all.temp⟩, trivial⟩
      · exact ⟨all, trivial⟩
  | marshal file rest => exact ⟨all, all.memory file⟩
  | write file raw rest =>
    simp only [CallStage.step]
    split
    · refine ⟨⟨all.memory, all.disk, temp_update all.temp file _ ?_⟩, trivial⟩
      rintro written ⟨⟩
      exact callAll
    · exact ⟨⟨all.memory, all.disk, all.temp⟩, trivial⟩
  | rename file rest =>
    simp only [CallStage.step]
    split
    · next raw found =>
        split
        · exact ⟨⟨all.memory, all.disk.replace raw (all.temp file raw found),
            temp_update all.temp file none (by simp)⟩, trivial⟩
        · exact ⟨⟨all.memory, all.disk, all.temp⟩, trivial⟩
    · exact ⟨⟨all.memory, all.disk, all.temp⟩, trivial⟩
  | done result => exact ⟨all, trivial⟩

@[simp] theorem CallStage.step_store (caller : Nat) (tier : Tier) (ok : Bool) (call : CallStage) :
    (call.step caller tier ok).1.store = tier.store := by
  cases call with
  | acquire files =>
    cases files with
    | nil => rfl
    | cons file rest =>
      simp only [CallStage.step]
      split <;> rfl
  | write file raw rest =>
    simp only [CallStage.step]
    split <;> rfl
  | rename file rest =>
    simp only [CallStage.step]
    split
    · split <;> rfl
    · rfl
  | _ => rfl

theorem Tier.All.mono {tier tier' : Tier} {good' : Raw → Prop} (all : tier.All good)
    (weaker : ∀ raw, good raw → good' raw) (memory : tier'.manifest = tier.manifest)
    (disk : tier'.disk = tier.disk) (temp : tier'.temp = tier.temp) : tier'.All good' := by
  refine ⟨?_, ?_, ?_⟩
  · rw [memory]
    exact fun file => weaker _ (all.memory file)
  · rw [disk]
    exact fun file => weaker _ (all.disk file)
  · rw [temp]
    exact fun file raw member => weaker _ (all.temp file raw member)

end KafkaWire.Tiering
