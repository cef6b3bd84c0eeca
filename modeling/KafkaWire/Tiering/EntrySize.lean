import KafkaWire.Tiering.Interrupted
import KafkaWire.Tiering.Records
import KafkaWire.Tiering.UploadMoves

/-! The size that the manifest records for an uploaded file. -/

namespace KafkaWire.Tiering

open Chunks Machine

def SizeKnown (data : Bytes) (target : String) (store : FS) : Raw → Prop
  | .completed segments => ∀ e ∈ segments, e.s3Key = target →
      e.sizeBytes = data.length ∧ store.get target = some data
  | .pending _ => True

def UploadStage.Measured (data : Bytes) (target : String) (store : FS) : UploadStage → Prop
  | .checkpointing run call =>
    run.totalSize = run.position ∧ run.position ≤ data.length ∧ call.All (SizeKnown data target store)
  | .streaming run => run.totalSize = run.position ∧ run.position ≤ data.length
  | .noting run last call =>
    run.totalSize = run.position ∧ run.position ≤ data.length ∧
      (last = true → run.position = data.length) ∧ call.All (SizeKnown data target store)
  | .assembling run | .describing run | .discarding run | .verifying run =>
    run.totalSize = data.length
  | .recording call | .releasing call => call.All (SizeKnown data target store)
  | _ => True

section Sizes

variable {data : Bytes} {target : String} {store store' : FS}

theorem all_mutate {op : ManifestOp} (added : ∀ e, op = .addCompleted e → e.s3Key = target →
    e.sizeBytes = data.length ∧ store.get target = some data) :
    (CallStage.mutate op).All (SizeKnown data target store) := by
  intro m all file
  cases file with
  | completed =>
    intro e member
    rcases ManifestOp.mem_apply_completed member with old | new
    · exact all .completed e old
    · exact added e new
  | pending => trivial

theorem all_pending {op : ManifestOp} (files : op.files = [.pending]) :
    (CallStage.mutate op).All (SizeKnown data target store) := by
  refine all_mutate fun e isAdded => ?_
  rw [isAdded] at files
  cases files

theorem SizeKnown.mono {raw : Raw} (known : SizeKnown data target store raw)
    (stays : store.get target = some data → store'.get target = some data) :
    SizeKnown data target store' raw := by
  cases raw with
  | completed segments =>
    exact fun e member here => ⟨(known e member here).1, stays (known e member here).2⟩
  | pending _ => trivial

section Trusted

variable {partSize : Nat} {existing : List Part} {uploadID : String}
  (cut : store.Cut {partSize} data uploadID) (listed : store.listParts uploadID = some existing)

include cut listed

theorem trusted_piece {k : Nat} {part : Part}
    (isPart : (trusted partSize existing 0 existing)[k]? = some part) :
    0 < partSize ∧ part.size = min partSize (data.length - k * partSize) := by
  obtain ⟨dir, -, found, -, -, -, stored⟩ := FS.listParts_spec listed
  obtain ⟨size, rfl, positive, cutBy⟩ := cut dir found
  obtain ⟨there, number, -⟩ := trusted_get _ _ _ _ k _ isPart
  obtain ⟨bytes, isStored, long⟩ := stored _ (List.mem_of_getElem? there)
  obtain ⟨j, isNumber, rfl, -⟩ := cutBy _ _ isStored
  obtain rfl : j = k := by omega
  exact ⟨positive, long.trans (chunk_length _ _ _)⟩

theorem trusted_within (full : ∀ part ∈ trusted partSize existing 0 existing, part.size = partSize) :
    (trusted partSize existing 0 existing).length * partSize ≤ data.length := by
  cases count : (trusted partSize existing 0 existing).length with
  | zero => simp
  | succ k =>
    -- the last of the trusted parts is a full piece of the file
    have isLast := List.getElem?_eq_getElem (show k < (trusted partSize existing 0 existing).length by omega)
    obtain ⟨positive, long⟩ := trusted_piece cut listed isLast
    rw [full _ (List.mem_of_getElem? isLast)] at long
    rw [Nat.succ_mul]
    omega

theorem trusted_beyond {part : Part} (member : part ∈ trusted partSize existing 0 existing)
    (short : part.size ≠ partSize) :
    data.length < (trusted partSize existing 0 existing).length * partSize := by
  obtain ⟨k, inside, rfl⟩ := List.mem_iff_getElem.mp member
  obtain ⟨-, long⟩ := trusted_piece cut listed (List.getElem?_eq_getElem inside)
  have more := Nat.mul_le_mul_right partSize inside
  rw [Nat.succ_mul] at more
  omega

end Trusted

end Sizes

/-- The run has counted more than `length`, or records more. -/
def UploadStage.Beyond (length : Nat) : UploadStage → Prop
  | .checkpointing run _ | .streaming run | .noting run _ _ | .assembling run | .describing run
  | .discarding run | .verifying run => length < run.totalSize
  | .recording (.mutate (.addCompleted e)) => length < e.sizeBytes
  | .recording _ | .aborting _ _ | .releasing _ | .returned _ => True
  | _ => False

namespace UploadStage

variable {cfg : Config} {crypto : Crypto} {seg : SegmentSource} {caller : Nat} {data : Bytes}
  {target : String} {tier tier' : Tier} {answer : Answer} {stage stage' : UploadStage}

theorem Measured.call {store : FS} {call : CallStage} (measured : stage.Measured data target store)
    (calling : stage.call = some call) : call.All (SizeKnown data target store) := by
  cases stage with
  | checkpointing run old => exact Option.some.inj calling ▸ measured.2.2
  | noting run last old => exact Option.some.inj calling ▸ measured.2.2.2
  | recording old | releasing old => exact Option.some.inj calling ▸ measured
  | _ => cases calling

theorem Measured.after {store : FS} {call call' : CallStage} (measured : stage.Measured data target store)
    (calling : stage.call = some call) (all : call'.All (SizeKnown data target store)) :
    (stage.after call').Measured data target store := by
  cases stage with
  | checkpointing run old =>
    simp only [UploadStage.after]
    split
    · exact ⟨measured.1, measured.2.1⟩
    · trivial
    · exact ⟨measured.1, measured.2.1, all⟩
  | noting run last old =>
    simp only [UploadStage.after]
    split
    · cases last with
      | true => exact measured.1.trans (measured.2.2.1 rfl)
      | false => exact ⟨measured.1, measured.2.1⟩
    · exact ⟨measured.1, measured.2.1, measured.2.2.1, all⟩
  | recording old | releasing old =>
    simp only [UploadStage.after]
    split
    · trivial
    · exact all
  | _ => cases calling

theorem moves_beyond {length : Nat} (moves : Moves cfg crypto seg caller tier answer stage tier' stage')
    (beyond : stage.Beyond length) : stage'.Beyond length := by
  cases moves with
  | @called _ call call' _ calling ran =>
    cases stage with
    | checkpointing run old =>
      simp only [UploadStage.after]
      split <;> trivial
    | noting run last old =>
      simp only [UploadStage.after]
      split
      · cases last <;> exact beyond
      · exact beyond
    | recording old =>
      have apart (op : ManifestOp) : call' ≠ .mutate op := by
        have second := congrArg Prod.snd ran
        rintro rfl
        revert second
        fun_cases CallStage.step caller tier answer.ok call <;> simp
      simp only [UploadStage.after]
      split
      · trivial
      · cases call' with
        | mutate op => exact absurd rfl (apart op)
        | _ => trivial
    | releasing old =>
      simp only [UploadStage.after]
      split <;> trivial
    | _ => cases calling
  | stored isNext some sent =>
    show length < _ + _
    exact Nat.lt_add_right _ beyond
  | verified found same => exact Int.ofNat_lt.mpr beyond
  | drained | assembled | described | undescribed | discarded => exact beyond
  | _ => trivial

theorem known_of_objects {store : FS} (all : tier.All (SizeKnown data target tier.store))
    (objects : store.objects = tier.store.objects) :
    Tier.All (SizeKnown data target store) { tier with store := store } := by
  refine all.mono (fun raw known => known.mono fun got => ?_) rfl rfl rfl
  rw [FS.get, objects]
  exact got

theorem measured_drained {run : UploadRun} (positive : 0 < cfg.partSize)
    (measured : (streaming run).Measured data target tier.store) (isFile : run.file.data = data)
    (empty : (run.file.data.drop run.position).take cfg.partSize = []) :
    (assembling run).Measured data target tier.store := by
  obtain ⟨counted, inside⟩ := measured
  have none : ((run.file.data.drop run.position).take cfg.partSize).length = 0 := by rw [empty]; rfl
  rw [List.length_take, List.length_drop, isFile] at none
  show run.totalSize = data.length
  omega

theorem measured_sent {run : UploadRun} {bytes : Bytes} {part : Part} {store store' : FS}
    (measured : (streaming run).Measured data target store) (isFile : run.file.data = data)
    (isNext : (run.file.data.drop run.position).take cfg.partSize = bytes)
    (size : part.size = bytes.length) :
    (noting (sent run part) (bytes.length < cfg.partSize)
      (.mutate (.setPending (sent run part).pending))).Measured data target store' := by
  obtain ⟨counted, inside⟩ := measured
  have long : bytes.length = min cfg.partSize (data.length - run.position) := by
    rw [← isNext, List.length_take, List.length_drop, isFile]
  refine ⟨?_, ?_, fun isLast => ?_, all_pending rfl⟩
  · show run.totalSize + part.size = run.position + part.size
    rw [counted]
  · show run.position + part.size ≤ data.length
    omega
  · show run.position + part.size = data.length
    have short := of_decide_eq_true isLast
    omega

theorem moves_measured (moves : Moves cfg crypto seg caller tier answer stage tier' stage')
    (positive : 0 < cfg.partSize) (all : tier.All (SizeKnown data target tier.store))
    (measured : stage.Measured data target tier.store)
    (sound : stage.Sound {cfg.partSize} data target cfg.partSize tier.store)
    (sound' : stage'.Sound {cfg.partSize} data target cfg.partSize tier'.store)
    (full : answer.ok = true → ∀ prev ∈ stage.checkpoint,
      ∀ existing ∈ tier.store.listParts prev.uploadID,
        ∀ part ∈ trusted cfg.partSize existing 0 existing, part.size = cfg.partSize) :
    tier'.All (SizeKnown data target tier'.store) ∧ stage'.Measured data target tier'.store := by
  cases moves with
  | resumed ok listed some isRun =>
    subst isRun
    obtain ⟨-, -, cut⟩ := sound
    exact ⟨all, rfl, trusted_within cut listed (full ok _ rfl _ listed), all_pending rfl⟩
  | created new made isRun =>
    subst isRun
    obtain rfl := FS.createMultipart_eq made
    exact ⟨known_of_objects all rfl, rfl, Nat.zero_le _, all_pending rfl⟩
  | @called _ call _ _ calling ran =>
    have same := CallStage.step_store caller tier answer.ok call
    have kept := CallStage.step_all caller tier answer.ok call all (measured.call calling)
    rw [ran] at same kept
    rw [same]
    exact ⟨kept.1, measured.after calling kept.2⟩
  | drained empty => exact ⟨all, measured_drained positive measured sound.1.file empty⟩
  | stored isNext some sent =>
    obtain ⟨dir, -, -, size, rfl⟩ := FS.uploadPart_eq sent
    exact ⟨known_of_objects all rfl, measured_sent measured sound.1.file isNext size⟩
  | abandoned sending => exact ⟨all, trivial⟩
  | assembled put =>
    refine ⟨all.mono (fun raw known => known.mono fun _ => sound'.2) rfl rfl rfl, measured⟩
  | described ok => exact ⟨known_of_objects all (FS.describe_objects _ _ _), measured⟩
  | undescribed failed => exact ⟨all, measured⟩
  | discarded whole => exact ⟨known_of_objects all (FS.removeUpload_objects _ _ _), measured⟩
  | kept => exact ⟨known_of_objects all (FS.removeUpload_objects _ _ _), trivial⟩
  | verified found same =>
    refine ⟨all, all_mutate fun e isEntry _ => ?_⟩
    obtain rfl := ManifestOp.addCompleted.inj isEntry
    exact ⟨congrArg Nat.cast measured, sound.2⟩
  | replaced => exact ⟨all, all_pending rfl⟩
  | aborted => exact ⟨known_of_objects all (FS.removeUpload_objects _ _ _), all_pending rfl⟩
  | _ => exact ⟨all, trivial⟩

end UploadStage

namespace Uploading

variable (cfg : Config) (crypto : Crypto) (seg : SegmentSource) (file : SegmentFile)

def Full (s : Uploading) : UploadEvent → Prop
  | .step answer => answer.ok = true → ∀ run ∈ s.run, ∀ prev ∈ run.2.checkpoint,
      ∀ existing ∈ s.tier.store.listParts prev.uploadID,
        ∀ part ∈ trusted run.1 existing 0 existing, part.size = run.1
  | _ => True

instance (s : Uploading) (event : UploadEvent) : Decidable (Full s event) :=
  match event with
  | .start _ => isTrue trivial
  | .kill => isTrue trivial
  | .step _ => inferInstanceAs (Decidable (_ → ∀ run ∈ s.run, ∀ prev ∈ run.2.checkpoint,
      ∀ existing ∈ s.tier.store.listParts prev.uploadID,
        ∀ part ∈ trusted run.1 existing 0 existing, part.size = run.1))

structure Measured (data : Bytes) (target : String) (s : Uploading) : Prop where
  entries : s.tier.All (SizeKnown data target s.tier.store)
  run : ∀ partSize stage, s.run = some (partSize, stage) → stage.Measured data target s.tier.store

variable {cfg crypto seg file} {size : Nat} {s : Uploading}

theorem measured_step (event : UploadEvent)
    (sound : Sound {size} file.data (UploadStage.key cfg seg) s)
    (measured : Measured file.data (UploadStage.key cfg seg) s)
    (sound' : Sound {size} file.data (UploadStage.key cfg seg) (step cfg crypto seg file s event))
    (full : Full s event) :
    Measured file.data (UploadStage.key cfg seg) (step cfg crypto seg file s event) := by
  cases event with
  | start partSize =>
    have started : Measured file.data (UploadStage.key cfg seg)
        { s with run := some (effectivePartSize partSize, .opening) } := by
      refine ⟨measured.entries, ?_⟩
      rintro _ _ ⟨⟩
      trivial
    simp only [step]
    split
    · exact started
    · exact started
    · exact measured
  | step answer =>
    simp only [step] at sound' ⊢
    split
    · exact measured
    · next partSize stage running =>
        rw [running] at sound'
        obtain ⟨isSize, positive, stageSound⟩ := sound.run partSize stage running
        obtain rfl := Set.mem_singleton_iff.mp isSize
        obtain ⟨-, -, stageSound'⟩ := sound'.run partSize _ rfl
        have kept := UploadStage.moves_measured (UploadStage.step_moves stage) positive
          measured.entries (measured.run _ _ running) stageSound stageSound' fun ok =>
            full ok _ running
        refine ⟨kept.1, ?_⟩
        rintro _ _ ⟨⟩
        exact kept.2
  | kill =>
    refine ⟨⟨measured.entries.disk, measured.entries.disk, measured.entries.temp⟩, ?_⟩
    rintro _ _ ⟨⟩

theorem measured_boot (disk : Manifest) (store : FS) (data : Bytes) (target : String)
    (new : ∀ e ∈ disk.completed, e.s3Key ≠ target) :
    Measured data target ⟨Tier.boot disk store, none⟩ := by
  have all : disk.All (SizeKnown data target store) := by
    rintro (_ | _)
    · exact fun e member here => absurd here (new e member)
    · trivial
  refine ⟨⟨all, all, fun file raw member => ?_⟩, ?_⟩
  · exact absurd member (by simp [Tier.boot])
  · rintro _ _ ⟨⟩

theorem same_size_measured (disk : Manifest) (store : FS)
    (cut : ∀ prev ∈ disk.getPending (UploadStage.key cfg seg), store.Cut {size} file.data prev.uploadID)
    (new : ∀ e ∈ disk.completed, e.s3Key ≠ UploadStage.key cfg seg) (events : List UploadEvent)
    (same : ∀ partSize, UploadEvent.start partSize ∈ events → effectivePartSize partSize = size)
    (full : Guarded (step cfg crypto seg file) Full ⟨Tier.boot disk store, none⟩ events) :
    Measured file.data (UploadStage.key cfg seg)
      (exec (step cfg crypto seg file) ⟨Tier.boot disk store, none⟩ events) := by
  induction events using List.reverseRecOn with
  | nil => exact measured_boot disk store _ _ new
  | append_singleton front event ih =>
    have sameBefore : ∀ partSize, UploadEvent.start partSize ∈ front →
        effectivePartSize partSize = size := fun partSize member => same partSize (by simp [member])
    rw [guarded_append] at full
    obtain ⟨-, sound⟩ := same_size_fitting crypto disk store size cut front sameBefore
    obtain ⟨-, sound'⟩ := same_size_fitting crypto disk store size cut _ same
    rw [exec_concat] at sound' ⊢
    exact measured_step event sound (ih sameBefore full.1) sound' full.2.1

/-- As long as the part size stays the same and an upload trusts full parts only, what is recorded
for the file has its size, and so has the object. At the start there may be any pieces of the file,
left by uploads that were cut off. -/
theorem recorded_size_exact (disk : Manifest) (store : FS) (size : Nat)
    (cut : ∀ prev ∈ disk.getPending (UploadStage.key cfg seg), store.Cut {size} file.data prev.uploadID)
    (new : ∀ e ∈ disk.completed, e.s3Key ≠ UploadStage.key cfg seg) (events : List UploadEvent)
    (same : ∀ partSize, UploadEvent.start partSize ∈ events → effectivePartSize partSize = size)
    (full : Guarded (step cfg crypto seg file) Full ⟨Tier.boot disk store, none⟩ events) :
    let s := exec (step cfg crypto seg file) ⟨Tier.boot disk store, none⟩ events
    ∀ e ∈ s.tier.manifest.completed, e.s3Key = UploadStage.key cfg seg →
      e.sizeBytes = file.data.length ∧
        ∃ object, s.tier.store.get e.s3Key = some object ∧ e.sizeBytes = object.length := by
  have kept := same_size_measured disk store cut new events same full
  intro s e member here
  obtain ⟨long, stored⟩ := kept.entries.memory .completed e member here
  exact ⟨long, file.data, here ▸ stored, long⟩

theorem beyond_exec {length : Nat} (answers : List Answer)
    (beyond : ∀ run ∈ s.run, run.2.Beyond length) :
    ∀ run ∈ (exec (step cfg crypto seg file) s (answers.map .step)).run, run.2.Beyond length := by
  induction answers generalizing s with
  | nil => exact beyond
  | cons answer answers ih =>
    refine ih fun run isRun => ?_
    simp only [step] at isRun
    split at isRun
    · exact beyond run isRun
    · next partSize stage running =>
        cases isRun
        exact UploadStage.moves_beyond (UploadStage.step_moves stage) (beyond _ running)

/-- An upload that trusts a short part comes to record more than the file has, if anything. -/
theorem short_part_overcounted {key tenantID sha : String} {found : SegmentFile}
    {prev : PendingUpload} {existing : List Part} {part : Part} {answer : Answer}
    (listing : s.run = some (size, .listing key tenantID found sha prev)) (ok : answer.ok = true)
    (listed : s.tier.store.listParts prev.uploadID = some existing)
    (cut : s.tier.store.Cut {size} file.data prev.uploadID)
    (member : part ∈ trusted size existing 0 existing) (short : part.size ≠ size)
    (answers : List Answer) :
    ∀ run ∈ (exec (step cfg crypto seg file) s ((answer :: answers).map .step)).run,
      run.2.Beyond file.data.length := by
  refine beyond_exec answers fun run isRun => ?_
  have some : (trusted size existing 0 existing).isEmpty = false := by
    rw [List.isEmpty_eq_false_iff]
    exact List.ne_nil_of_mem member
  simp only [step, listing, UploadStage.step, ok, listed, some] at isRun
  cases isRun
  exact trusted_beyond cut listed member short

end Uploading

def killedAfter (done : Nat) : List UploadEvent :=
  .start 2 :: answers done ++ .kill :: .start 2 :: answers 40

theorem resumed_size_exact :
    let s := exec (Uploading.step plainConfig plainCrypto smallSource smallFile) emptyBoot
      (killedAfter 16)
    s.tier.manifest.completed.map (·.sizeBytes) = [3] ∧
      ∀ e ∈ s.tier.manifest.completed, e.s3Key = UploadStage.key plainConfig smallSource →
        e.sizeBytes = smallFile.data.length ∧
          ∃ object, s.tier.store.get e.s3Key = some object ∧ e.sizeBytes = object.length :=
  ⟨by decide +kernel,
    Uploading.recorded_size_exact {} ⟨∅, ∅, ∅⟩ 2 (by simp [Manifest.getPending]) (by decide +kernel)
      (killedAfter 16) (by simp [killedAfter, answers, effectivePartSize]) (by decide +kernel)⟩

/-- Both parts were stored, the second one short; the resumed upload counts it as a full one. -/
theorem short_part_counted_full :
    let s := exec (Uploading.step plainConfig plainCrypto smallSource smallFile) emptyBoot
      (killedAfter 22)
    s.succeeded = true ∧ s.tier.manifest.completed.map (·.sizeBytes) = [4] ∧
      s.tier.store.get (UploadStage.key plainConfig smallSource) = some [1, 2, 3] := by
  decide +kernel

end KafkaWire.Tiering
