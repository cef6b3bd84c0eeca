import KafkaWire.Tiering.Resume

/-! Histories of uploads of one unchanged file, each with a part size of its own and each killed
at any point. -/

namespace KafkaWire.Tiering

open Machine

def Tier.boot (disk : Manifest) (store : FS) : Tier where
  manifest := disk
  flushMu := none
  temp := fun _ => none
  disk := disk
  store := store

inductive UploadEvent
  | start (partSize : Int)
  | step (answer : Answer)
  | kill

/-- The archive with the upload that is under way, if there is one, and its part size. -/
structure Uploading where
  tier : Tier
  run : Option (Nat × UploadStage)

namespace Uploading

variable (cfg : Config) (crypto : Crypto) (seg : SegmentSource) (file : SegmentFile)

/-- The file stays at its path throughout. An upload starts when none is under way. -/
def step (s : Uploading) : UploadEvent → Uploading
  | .start partSize =>
    match s.run with
    | none => { s with run := some (effectivePartSize partSize, .opening) }
    | some (_, .returned _) => { s with run := some (effectivePartSize partSize, .opening) }
    | some _ => s
  | .step answer =>
    match s.run with
    | none => s
    | some (partSize, stage) =>
      let next := stage.step { cfg with partSize := partSize } crypto seg 0 s.tier
        { answer with file := some file }
      ⟨next.1, some (partSize, next.2)⟩
  | .kill => ⟨s.tier.reopen, none⟩

def Fitting (s : Uploading) : UploadEvent → Prop
  | .step answer => answer.ok = true → ∀ run ∈ s.run, ∀ prev ∈ run.2.checkpoint,
      ∀ existing ∈ s.tier.store.listParts prev.uploadID, FitsPartSize file.data run.1 existing
  | _ => True

instance (s : Uploading) (event : UploadEvent) : Decidable (Fitting file s event) :=
  match event with
  | .start _ => isTrue trivial
  | .kill => isTrue trivial
  | .step _ => inferInstanceAs (Decidable (_ → ∀ run ∈ s.run, ∀ prev ∈ run.2.checkpoint,
      ∀ existing ∈ s.tier.store.listParts prev.uploadID, FitsPartSize file.data run.1 existing))

def succeeded (s : Uploading) : Bool :=
  match s.run with
  | some (_, .returned true) => true
  | _ => false

structure Sound (sizes : Set Nat) (data : Bytes) (target : String) (s : Uploading) : Prop where
  checkpoints : s.tier.All (CheckpointCut sizes data target s.tier.store)
  run : ∀ partSize stage, s.run = some (partSize, stage) →
    partSize ∈ sizes ∧ 0 < partSize ∧ stage.Sound sizes data target partSize s.tier.store

variable {cfg crypto seg file} {sizes : Set Nat} {s : Uploading}

theorem effectivePartSize_pos (partSize : Int) : 0 < effectivePartSize partSize := by
  unfold effectivePartSize
  split <;> omega

theorem sound_boot (disk : Manifest) (store : FS) (data : Bytes) (target : String)
    (cut : ∀ prev ∈ disk.getPending target, store.Cut sizes data prev.uploadID) :
    Sound sizes data target ⟨Tier.boot disk store, none⟩ := by
  have all : disk.All (CheckpointCut sizes data target store) := by
    rintro (_ | _)
    · trivial
    · exact cut
  refine ⟨⟨all, all, ?_⟩, ?_⟩
  · intro file raw member
    exact absurd member (by simp [Tier.boot])
  · rintro _ _ ⟨⟩

theorem step_sound (event : UploadEvent)
    (sound : Sound sizes file.data (UploadStage.key cfg seg) s) (fitting : Fitting file s event)
    (isSize : ∀ partSize, event = .start partSize → effectivePartSize partSize ∈ sizes) :
    Sound sizes file.data (UploadStage.key cfg seg) (step cfg crypto seg file s event) := by
  cases event with
  | start partSize =>
    have started : Sound sizes file.data (UploadStage.key cfg seg)
        { s with run := some (effectivePartSize partSize, .opening) } := by
      refine ⟨sound.checkpoints, ?_⟩
      rintro _ _ ⟨⟩
      exact ⟨isSize partSize rfl, effectivePartSize_pos partSize, trivial⟩
    simp only [step]
    split
    · exact started
    · exact started
    · exact sound
  | step answer =>
    simp only [step]
    split
    · exact sound
    · next partSize stage running =>
        obtain ⟨allowed, positive, stageSound⟩ := sound.run partSize stage running
        have kept := UploadStage.step_kept { cfg with partSize := partSize } crypto seg 0
          { answer with file := some file } sound.checkpoints allowed positive stage rfl
          (fun found member => by rw [Option.mem_some_iff.mp member]) stageSound
          fun ok => fitting ok _ running
        refine ⟨kept.1, ?_⟩
        rintro _ _ ⟨⟩
        exact ⟨allowed, positive, kept.2⟩
  | kill =>
    refine ⟨⟨sound.checkpoints.disk, sound.checkpoints.disk, sound.checkpoints.temp⟩, ?_⟩
    rintro _ _ ⟨⟩

theorem Sound.exact {data : Bytes} {target : String} (sound : Sound sizes data target s)
    (done : s.succeeded = true) : s.tier.store.get target = some data := by
  unfold succeeded at done
  split at done
  · next partSize returned => exact (sound.run partSize _ returned).2.2 rfl
  · cases done

/-- An upload that returns without error has stored the file, however often uploads of it were cut
off before, as long as each finds a single stored part only where that part fits. -/
theorem fitting_uploads_are_exact (disk : Manifest) (store : FS)
    (unknown : disk.getPending (UploadStage.key cfg seg) = none) (events : List UploadEvent)
    (fitting : Guarded (step cfg crypto seg file) (Fitting file) ⟨Tier.boot disk store, none⟩ events)
    (done : (exec (step cfg crypto seg file) ⟨Tier.boot disk store, none⟩ events).succeeded = true) :
    (exec (step cfg crypto seg file) ⟨Tier.boot disk store, none⟩ events).tier.store.get
      (UploadStage.key cfg seg) = some file.data := by
  have sound := Guarded.invariant
    (fun _ s => Sound Set.univ file.data (UploadStage.key cfg seg) s) _
    (sound_boot disk store file.data _ (by simp [unknown]))
    (fun _ s event inv guard => step_sound event inv guard fun _ _ => trivial) events fitting
  exact sound.exact done

theorem Sound.fitting {partSize : Nat} {target : String} (event : UploadEvent)
    (sound : Sound {partSize} file.data target s) : Fitting file s event := by
  cases event with
  | start _ => trivial
  | kill => trivial
  | step answer =>
    rintro - ⟨size, stage⟩ running prev isListed
    obtain ⟨rfl, -, stageSound⟩ := sound.run size stage running
    cases stage with
    | listing key tenantID file sha found =>
      obtain rfl : found = prev := Option.some.inj isListed
      exact fits_of_cut stageSound.2.2
    | _ => cases isListed

theorem same_size_fitting (crypto : Crypto) (disk : Manifest) (store : FS) (size : Nat)
    (cut : ∀ prev ∈ disk.getPending (UploadStage.key cfg seg), store.Cut {size} file.data prev.uploadID)
    (events : List UploadEvent)
    (same : ∀ partSize, UploadEvent.start partSize ∈ events → effectivePartSize partSize = size) :
    Guarded (step cfg crypto seg file) (Fitting file) ⟨Tier.boot disk store, none⟩ events ∧
      Sound {size} file.data (UploadStage.key cfg seg)
        (exec (step cfg crypto seg file) ⟨Tier.boot disk store, none⟩ events) := by
  induction events using List.reverseRecOn with
  | nil => exact ⟨trivial, sound_boot disk store _ _ cut⟩
  | append_singleton front event ih =>
    obtain ⟨guarded, sound⟩ := ih fun partSize member => same partSize (by simp [member])
    rw [guarded_append, exec_concat]
    refine ⟨⟨guarded, sound.fitting event, trivial⟩, step_sound event sound (sound.fitting event) ?_⟩
    rintro partSize rfl
    exact same partSize (by simp)

end Uploading

section Runs

def smallFile : SegmentFile := ⟨1, [1, 2, 3]⟩

def smallSource : SegmentSource := ⟨"t", 0, 0, 3⟩

def plainConfig : Config := ⟨"archive", 2, [], none⟩

def plainCrypto : Crypto := ⟨fun data => toString data.length, fun _ text => text⟩

def answers (count : Nat) : List UploadEvent :=
  List.replicate count (.step { uploadID := "u" })

def emptyBoot : Uploading := ⟨Tier.boot {} ⟨∅, ∅, ∅⟩, none⟩

/-- An upload in parts of two bytes is killed after its first part and then resumed. -/
private def resumedRun : List UploadEvent := .start 2 :: answers 16 ++ .kill :: .start 2 :: answers 30

private def splicedRun : List UploadEvent := .start 2 :: answers 16 ++ .kill :: .start 1 :: answers 40

theorem resumed_upload_is_exact :
    (exec (Uploading.step plainConfig plainCrypto smallSource smallFile) emptyBoot
      resumedRun).tier.store.get (UploadStage.key plainConfig smallSource) = some [1, 2, 3] :=
  Uploading.fitting_uploads_are_exact {} ⟨∅, ∅, ∅⟩ (by decide +kernel) resumedRun
    (by decide +kernel) (by decide +kernel)

/-- The second upload trusts the two-byte part and goes on reading after the first byte. -/
theorem changed_part_size_splices :
    (exec (Uploading.step plainConfig plainCrypto smallSource smallFile) emptyBoot
        splicedRun).succeeded = true ∧
      (exec (Uploading.step plainConfig plainCrypto smallSource smallFile) emptyBoot
        splicedRun).tier.store.get (UploadStage.key plainConfig smallSource) =
          some [1, 2, 2, 3] := by
  decide +kernel

end Runs

end KafkaWire.Tiering
