import KafkaWire.Lib.Machine
import KafkaWire.Tiering.Parts

/-! Uploads of one file that are interrupted and resumed. -/

namespace KafkaWire.Tiering

open Chunks

def CheckpointCut (sizes : Set Nat) (data : Bytes) (target : String) (store : FS) : Raw → Prop
  | .completed _ => True
  | .pending uploads => ∀ prev ∈ uploads.lookup target, store.Cut sizes data prev.uploadID

structure UploadRun.Filling (data : Bytes) (target : String) (partSize : Nat) (store : FS)
    (run : UploadRun) : Prop where
  file : run.file.data = data
  key : run.key = target
  pending : run.pending.uploadID = run.uploadID
  numbers : run.parts.map Part.number = (List.range run.parts.length).map (· + 1)
  stored : ∀ dir ∈ store.uploads.lookup run.uploadID,
    dir.CutBy data partSize ∧ dir.Filled data partSize run.parts.length

def UploadStage.checkpoint : UploadStage → Option PendingUpload
  | .listing _ _ _ _ prev => some prev
  | _ => none

def UploadStage.Sound (sizes : Set Nat) (data : Bytes) (target : String) (partSize : Nat)
    (store : FS) : UploadStage → Prop
  | .opening => True
  | .resuming key _ file _ => key = target ∧ file.data = data
  | .listing key _ file _ prev => key = target ∧ file.data = data ∧ store.Cut sizes data prev.uploadID
  | .creating key _ file _ => key = target ∧ file.data = data
  | .checkpointing run call =>
    run.Filling data target partSize store ∧ run.position = run.parts.length * partSize ∧
      call.All (CheckpointCut sizes data target store)
  | .streaming run =>
    run.Filling data target partSize store ∧ run.position = run.parts.length * partSize
  | .noting run last call =>
    run.Filling data target partSize store ∧
      (if last then data.length ≤ run.parts.length * partSize
        else run.position = run.parts.length * partSize) ∧
      call.All (CheckpointCut sizes data target store)
  | .assembling run =>
    run.Filling data target partSize store ∧ data.length ≤ run.parts.length * partSize
  | .describing run => run.key = target ∧ store.get target = some data
  | .discarding run => run.key = target ∧ store.get target = some data
  | .verifying run => run.key = target ∧ store.get target = some data
  | .recording call => store.get target = some data ∧ call.All (CheckpointCut sizes data target store)
  | .aborting _ _ => True
  | .releasing call => call.All (CheckpointCut sizes data target store)
  | .returned ok => ok = true → store.get target = some data

section Calls

variable {sizes : Set Nat} {data : Bytes} {target : String} {partSize : Nat} {store : FS}

theorem all_setPending {run : UploadRun} (filling : run.Filling data target partSize store)
    (isSize : partSize ∈ sizes) (positive : 0 < partSize) :
    (CallStage.mutate (.setPending run.pending)).All (CheckpointCut sizes data target store) := by
  intro m all file
  cases file with
  | completed => trivial
  | pending =>
    intro prev member
    by_cases same : target = run.pending.s3Key
    · rw [ManifestOp.apply, Manifest.setPending, same, AList.lookup_insert,
        Option.mem_some_iff] at member
      rw [← member, filling.pending]
      exact fun dir found => ⟨partSize, isSize, positive, (filling.stored dir found).1⟩
    · rw [ManifestOp.apply, Manifest.setPending, AList.lookup_insert_ne same] at member
      exact all .pending prev member

theorem lookup_erase_sub (uploads : Broker.Table PendingUpload) (key target : String) :
    ∀ prev ∈ (uploads.erase key).lookup target, prev ∈ uploads.lookup target := by
  intro prev member
  by_cases same : target = key
  · rw [same, AList.lookup_erase] at member
    exact absurd member (by simp)
  · rwa [AList.lookup_erase_ne same] at member

theorem all_abortPending (key : String) :
    (CallStage.mutate (.abortPending key)).All (CheckpointCut sizes data target store) := by
  intro m all file
  cases file with
  | completed => trivial
  | pending => exact fun prev member => all .pending prev (lookup_erase_sub _ _ _ prev member)

theorem all_addCompleted (entry : SegmentEntry) :
    (CallStage.mutate (.addCompleted entry)).All (CheckpointCut sizes data target store) := by
  intro m all file
  cases file with
  | completed => trivial
  | pending => exact fun prev member => all .pending prev (lookup_erase_sub _ _ _ prev member)

end Calls

section Filling

variable {data : Bytes} {target : String} {partSize : Nat} {store store' : FS} {run : UploadRun}
  {part : Part}

theorem UploadRun.Filling.piece (filling : run.Filling data target partSize store)
    (position : run.position = run.parts.length * partSize) :
    (run.file.data.drop run.position).take partSize = chunk data partSize run.parts.length := by
  rw [filling.file, position, chunk]

theorem UploadRun.Filling.sent (filling : run.Filling data target partSize store)
    (more : chunk data partSize run.parts.length ≠ [])
    (stored : store.uploadPart run.uploadID (run.parts.length + 1)
      (chunk data partSize run.parts.length) = some (part, store')) :
    (UploadStage.sent run part).Filling data target partSize store' := by
  obtain ⟨dir, found, number, -, rfl⟩ := FS.uploadPart_eq stored
  obtain ⟨cut, filled⟩ := filling.stored dir found
  refine ⟨filling.file, filling.key, filling.pending, ?_, ?_⟩
  · simp [UploadStage.sent, filling.numbers, number, List.range_succ]
  · intro dir' member
    obtain rfl : ⟨dir.header, dir.parts.insert _ _⟩ = dir' :=
      Option.some.inj ((AList.lookup_insert _).symm.trans member)
    have grown : (UploadStage.sent run part).parts.length = run.parts.length + 1 := by
      simp [UploadStage.sent]
    rw [grown]
    exact ⟨cut.insert _ more, filled.insert⟩

theorem sent_reached (position : run.position = run.parts.length * partSize)
    (size : part.size = (chunk data partSize run.parts.length).length) :
    if decide ((chunk data partSize run.parts.length).length < partSize) = true then
      data.length ≤ (UploadStage.sent run part).parts.length * partSize
    else (UploadStage.sent run part).position = (UploadStage.sent run part).parts.length * partSize := by
  have length := chunk_length data partSize run.parts.length
  have grown : (UploadStage.sent run part).parts.length = run.parts.length + 1 := by
    simp [UploadStage.sent]
  rw [grown, Nat.succ_mul]
  split
  · next short =>
      simp only [decide_eq_true_eq] at short
      omega
  · next whole =>
      simp only [decide_eq_true_eq] at whole
      simp only [UploadStage.sent, position, size]
      omega

theorem UploadRun.Filling.concat (filling : run.Filling data target partSize store)
    (covered : data.length ≤ run.parts.length * partSize) :
    ∀ dir ∈ store.uploads.lookup run.uploadID, dir.concat run.parts = some data := by
  intro dir found
  rw [(filling.stored dir found).2.concat run.parts filling.numbers, List.take_of_length_le covered]

end Filling

namespace UploadStage

variable {sizes : Set Nat} {data : Bytes} {target : String} (cfg : Config) (crypto : Crypto) (seg : SegmentSource)
  (caller : Nat)

def Kept (sizes : Set Nat) (data : Bytes) (target : String) (partSize : Nat)
    (next : Tier × UploadStage) : Prop :=
  next.1.All (CheckpointCut sizes data target next.1.store) ∧
    next.2.Sound sizes data target partSize next.1.store

variable {tier : Tier} (answer : Answer)
  (all : tier.All (CheckpointCut sizes data target tier.store))

include all

theorem kept_assembling {run : UploadRun}
    (sound : (assembling run).Sound sizes data target cfg.partSize tier.store) :
    Kept sizes data target cfg.partSize (step cfg crypto seg caller tier answer (.assembling run)) := by
  obtain ⟨filling, covered⟩ := sound
  simp only [step]
  split
  · next store _ assembled =>
      obtain ⟨dir, -, path, bytes, found, -, there, whole, rfl⟩ := FS.assemble_eq assembled
      have concat := whole.symm.trans (filling.concat covered dir found)
      refine ⟨all.mono ?_ rfl rfl rfl, filling.key, ?_⟩
      · rintro (_ | uploads) good
        · trivial
        · exact good
      · rw [FS.get, ← filling.key, there]
        exact (AList.lookup_insert _).trans concat
  · exact ⟨all, trivial⟩

theorem kept_call {call call' : CallStage} {tier' : Tier}
    (callAll : call.All (CheckpointCut sizes data target tier.store))
    (ran : call.step caller tier answer.ok = (tier', call')) :
    tier'.All (CheckpointCut sizes data target tier'.store) ∧
      call'.All (CheckpointCut sizes data target tier'.store) ∧ tier'.store = tier.store := by
  have same := CallStage.step_store caller tier answer.ok call
  have kept := CallStage.step_all caller tier answer.ok call all callAll
  rw [ran] at same kept
  rw [same]
  exact ⟨kept.1, kept.2, rfl⟩

theorem kept_removal (uploadID : String) :
    Tier.All (CheckpointCut sizes data target (tier.store.removeUpload uploadID answer.removal))
      { tier with store := tier.store.removeUpload uploadID answer.removal } := by
  refine all.mono ?_ rfl rfl rfl
  rintro (_ | uploads) good
  · trivial
  · exact fun prev member => (good prev member).removeUpload answer.removal

variable (isSize : cfg.partSize ∈ sizes) (positive : 0 < cfg.partSize)

include isSize positive

theorem kept_listing {key tenantID : String} {file : SegmentFile} {sha : String}
    {prev : PendingUpload}
    (sound : (listing key tenantID file sha prev).Sound sizes data target cfg.partSize tier.store)
    (fits : answer.ok = true → ∀ existing ∈ tier.store.listParts prev.uploadID,
      FitsPartSize data cfg.partSize existing) :
    Kept sizes data target cfg.partSize
      (step cfg crypto seg caller tier answer (.listing key tenantID file sha prev)) := by
  obtain ⟨rfl, rfl, cut⟩ := sound
  simp only [step]
  split
  · next existing ok listed =>
      split
      · exact ⟨all, rfl, rfl⟩
      · next isSome =>
          have filling : (resumed cfg prev key tenantID file sha
              (trusted cfg.partSize existing 0 existing)).Filling file.data key cfg.partSize
                tier.store :=
            ⟨rfl, rfl, rfl, trusted_numbers _ _,
              trusted_filled cut listed (fits ok existing listed) (by simpa using isSome)⟩
          exact ⟨all, filling, rfl, all_setPending filling isSize positive⟩
  · exact ⟨all, rfl, rfl⟩

theorem kept_creating {key tenantID : String} {file : SegmentFile} {sha : String}
    (sound : (creating key tenantID file sha).Sound sizes data target cfg.partSize tier.store) :
    Kept sizes data target cfg.partSize
      (step cfg crypto seg caller tier answer (.creating key tenantID file sha)) := by
  obtain ⟨rfl, rfl⟩ := sound
  simp only [step]
  split
  · split
    · next store created =>
        have filling : (fresh seg key tenantID file sha answer.uploadID answer.now).Filling file.data
            key cfg.partSize store := by
          refine ⟨rfl, rfl, rfl, rfl, fun dir member => ?_⟩
          rw [fresh, FS.createMultipart_lookup created, Option.mem_some_iff] at member
          subst member
          exact ⟨fun number bytes found => by simp at found, fun k inside => absurd inside (Nat.not_lt_zero k)⟩
        refine ⟨all.mono ?_ rfl rfl rfl, filling, (Nat.zero_mul _).symm,
          all_setPending filling isSize positive⟩
        rintro (_ | uploads) good
        · trivial
        · exact fun prev member => (good prev member).createMultipart isSize positive created
    · exact ⟨all, by rintro ⟨⟩⟩
  · exact ⟨all, by rintro ⟨⟩⟩

theorem kept_streaming {run : UploadRun}
    (sound : (streaming run).Sound sizes data target cfg.partSize tier.store) :
    Kept sizes data target cfg.partSize (step cfg crypto seg caller tier answer (.streaming run)) := by
  obtain ⟨filling, position⟩ := sound
  simp only [step, filling.piece position]
  split
  · next ended =>
      refine ⟨all, filling, ?_⟩
      rwa [List.isEmpty_iff, chunk_eq_nil_iff _ _ _ positive] at ended
  · next more =>
      rw [List.isEmpty_iff] at more
      split
      · next part store _ stored =>
          have filling' := filling.sent more stored
          obtain ⟨dir, found, -, size, rfl⟩ := FS.uploadPart_eq stored
          refine ⟨all.mono ?_ rfl rfl rfl, filling', sent_reached position size,
            all_setPending filling' isSize positive⟩
          rintro (_ | uploads) good
          · trivial
          · intro prev member dir there
            by_cases same : prev.uploadID = run.uploadID
            · rw [same] at there
              exact ⟨cfg.partSize, isSize, positive, (filling'.stored dir there).1⟩
            · rw [AList.lookup_insert_ne same] at there
              exact good prev member dir there
      · exact ⟨all, trivial⟩

/-- One step of an upload of `data`. Where it lists the parts of an earlier upload, a single part
must fit the part size. -/
theorem step_kept (stage : UploadStage) (isTarget : key cfg seg = target)
    (unchanged : ∀ file ∈ answer.file, file.data = data)
    (sound : stage.Sound sizes data target cfg.partSize tier.store)
    (fits : answer.ok = true → ∀ prev ∈ stage.checkpoint,
      ∀ existing ∈ tier.store.listParts prev.uploadID, FitsPartSize data cfg.partSize existing) :
    Kept sizes data target cfg.partSize (step cfg crypto seg caller tier answer stage) := by
  cases stage with
  | opening =>
    simp only [step]
    split
    · next file _ found => exact ⟨all, isTarget, unchanged file found⟩
    · exact ⟨all, by rintro ⟨⟩⟩
  | resuming key tenantID file sha =>
    obtain ⟨rfl, rfl⟩ := sound
    simp only [step]
    split
    · next prev found =>
        split
        · exact ⟨all, rfl, rfl, all.memory .pending prev found⟩
        · exact ⟨all, rfl, rfl⟩
    · exact ⟨all, rfl, rfl⟩
  | listing key tenantID file sha prev =>
    exact kept_listing cfg crypto seg caller answer all isSize positive sound fun ok =>
      fits ok prev rfl
  | creating key tenantID file sha =>
    exact kept_creating cfg crypto seg caller answer all isSize positive sound
  | checkpointing run call =>
    obtain ⟨filling, position, callAll⟩ := sound
    simp only [step]
    split
    · next tier' ran =>
        obtain ⟨kept, -, same⟩ := kept_call caller answer all callAll ran
        exact ⟨kept, same ▸ filling, position⟩
    · next tier' ran =>
        obtain ⟨kept, -, -⟩ := kept_call caller answer all callAll ran
        exact ⟨kept, by rintro ⟨⟩⟩
    · next tier' call' _ _ ran =>
        obtain ⟨kept, callKept, same⟩ := kept_call caller answer all callAll ran
        exact ⟨kept, same ▸ filling, position, callKept⟩
  | streaming run => exact kept_streaming cfg crypto seg caller answer all isSize positive sound
  | noting run last call =>
    obtain ⟨filling, reached, callAll⟩ := sound
    simp only [step]
    split
    · next tier' _ ran =>
        obtain ⟨kept, -, same⟩ := kept_call caller answer all callAll ran
        cases last with
        | true => exact ⟨kept, same ▸ filling, reached⟩
        | false => exact ⟨kept, same ▸ filling, reached⟩
    · next tier' call' _ ran =>
        obtain ⟨kept, callKept, same⟩ := kept_call caller answer all callAll ran
        exact ⟨kept, same ▸ filling, reached, callKept⟩
  | assembling run => exact kept_assembling cfg crypto seg caller answer all sound
  | describing run =>
    obtain ⟨isKey, got⟩ := sound
    simp only [step]
    split
    · refine ⟨all.mono ?_ rfl rfl rfl, isKey, ?_⟩
      · rintro (_ | uploads) good
        · trivial
        · simpa [CheckpointCut, FS.Cut] using good
      · simpa [FS.get] using got
    · exact ⟨all, isKey, got⟩
  | discarding run =>
    obtain ⟨isKey, got⟩ := sound
    simp only [step]
    refine ⟨kept_removal answer all run.uploadID, ?_⟩
    split
    · exact ⟨isKey, by simpa [FS.get] using got⟩
    · trivial
  | verifying run =>
    obtain ⟨isKey, got⟩ := sound
    simp only [step]
    split
    · split
      · exact ⟨all, got, all_addCompleted _⟩
      · exact ⟨all, all_abortPending _⟩
    · exact ⟨all, all_abortPending _⟩
  | recording call =>
    obtain ⟨got, callAll⟩ := sound
    simp only [step]
    split
    · next tier' ok ran =>
        obtain ⟨kept, -, same⟩ := kept_call caller answer all callAll ran
        exact ⟨kept, fun _ => same ▸ got⟩
    · next tier' call' _ ran =>
        obtain ⟨kept, callKept, same⟩ := kept_call caller answer all callAll ran
        exact ⟨kept, same ▸ got, callKept⟩
  | aborting key uploadID =>
    exact ⟨kept_removal answer all uploadID, all_abortPending _⟩
  | releasing call =>
    simp only [step]
    split
    · next tier' _ ran =>
        obtain ⟨kept, -, -⟩ := kept_call caller answer all sound ran
        exact ⟨kept, by rintro ⟨⟩⟩
    · next tier' call' _ ran =>
        obtain ⟨kept, callKept, -⟩ := kept_call caller answer all sound ran
        exact ⟨kept, callKept⟩
  | returned ok => exact ⟨all, sound⟩

end UploadStage

end KafkaWire.Tiering
