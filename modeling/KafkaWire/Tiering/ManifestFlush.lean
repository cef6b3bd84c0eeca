import KafkaWire.Lib.Flush
import KafkaWire.Tiering.Records

/-! The manifest as many goroutines change it: each change is made under `mu` and flushed under
`flushMu`, the completed segments to `archive.json` and the pending uploads to
`archive_pending.json`. -/

namespace KafkaWire.Tiering

open Broker (Table)

abbrev ManifestFile.Value : ManifestFile → Type
  | .completed => List SegmentEntry
  | .pending => Table PendingUpload

def Manifest.value (m : Manifest) : (file : ManifestFile) → file.Value
  | .completed => m.completed
  | .pending => m.pending

namespace ManifestOp

def change : (file : ManifestFile) → file.Value → ManifestOp → file.Value
  | .completed, segments, op => (op.apply { completed := segments }).completed
  | .pending, uploads, op => (op.apply { pending := uploads }).pending

end ManifestOp

def manifestDesign : Flush.Design ManifestFile ManifestOp ManifestFile.Value where
  apply := ManifestOp.change
  files := ManifestOp.files
  empty := Manifest.value {}

namespace ManifestOp

def Contains : (file : ManifestFile) → ManifestOp → file.Value → Prop
  | .completed, .addCompleted entry, segments => entry ∈ segments
  | .completed, .forgetTopic topic, segments => ∀ entry ∈ segments, entry.topic ≠ topic
  | .completed, _, _ => True
  | .pending, .addCompleted entry, uploads => uploads.lookup entry.s3Key = none
  | .pending, .setPending upload, uploads => uploads.lookup upload.s3Key = some upload
  | .pending, .abortPending s3Key, uploads => uploads.lookup s3Key = none
  | .pending, .forgetTopic topic, uploads =>
    ∀ s3Key, ∀ upload ∈ uploads.lookup s3Key, upload.topic ≠ topic

def pendingKey : ManifestOp → Option String
  | .addCompleted entry => some entry.s3Key
  | .setPending upload => some upload.s3Key
  | .abortPending s3Key => some s3Key
  | .forgetTopic _ => none

def Replaces : ManifestFile → ManifestOp → ManifestOp → Prop
  | .completed, .addCompleted new, .addCompleted entry => Manifest.replacedBy new entry
  | .completed, .forgetTopic topic, .addCompleted entry => entry.topic = topic
  | .completed, .addCompleted new, .forgetTopic topic => new.topic = topic
  | .completed, _, _ => False
  | .pending, .setPending new, .forgetTopic topic => new.topic = topic
  | .pending, .setPending new, op => op.pendingKey = some new.s3Key
  | .pending, .forgetTopic topic, .setPending upload => upload.topic = topic
  | .pending, later, .setPending upload => later.pendingKey = some upload.s3Key
  | .pending, _, _ => False

theorem contains_change (file : ManifestFile) (op : ManifestOp) (value : file.Value) :
    Contains file op (change file value op) := by
  cases file with
  | completed =>
    cases op with
    | addCompleted entry => exact List.mem_append_right _ (List.mem_singleton_self entry)
    | forgetTopic topic =>
      intro entry member
      simpa using (List.mem_filter.mp member).2
    | _ => trivial
  | pending =>
    cases op with
    | addCompleted entry => exact AList.lookup_erase _ _
    | setPending upload => exact AList.lookup_insert _
    | abortPending s3Key => exact AList.lookup_erase _ _
    | forgetTopic topic =>
      intro s3Key upload found
      rw [change, apply, lookup_forgetTopic] at found
      simpa using (Option.mem_filter_iff.mp found).2

theorem absent_change {later : ManifestOp} {uploads : Table PendingUpload} {s3Key : String}
    (absent : uploads.lookup s3Key = none)
    (other : ∀ upload, later = .setPending upload → s3Key ≠ upload.s3Key) :
    (change .pending uploads later).lookup s3Key = none := by
  apply Option.eq_none_iff_forall_not_mem.mpr
  intro upload found
  rcases mem_apply_pending found with before | ⟨set, same⟩
  · rw [absent] at before
    cases before
  · exact other upload set same

theorem contains_kept (file : ManifestFile) (op later : ManifestOp) (value : file.Value)
    (contained : Contains file op value) (unreplaced : ¬Replaces file later op) :
    Contains file op (change file value later) := by
  cases file with
  | completed =>
    cases op with
    | addCompleted entry =>
      cases later with
      | addCompleted new =>
        exact List.mem_append_left _
          (List.mem_filter.mpr ⟨contained, by simpa [Replaces] using unreplaced⟩)
      | forgetTopic topic =>
        exact List.mem_filter.mpr ⟨contained, by simpa [Replaces] using unreplaced⟩
      | _ => exact contained
    | forgetTopic topic =>
      cases later with
      | addCompleted new =>
        intro entry member
        rcases List.mem_append.mp member with old | added
        · exact contained entry (List.mem_filter.mp old).1
        · rw [List.mem_singleton.mp added]
          exact unreplaced
      | forgetTopic other => exact fun entry member => contained entry (List.mem_filter.mp member).1
      | _ => exact contained
    | _ => trivial
  | pending =>
    cases op with
    | addCompleted entry =>
      apply absent_change contained
      rintro upload rfl same
      exact unreplaced (congrArg some same)
    | abortPending s3Key =>
      apply absent_change contained
      rintro upload rfl same
      exact unreplaced (congrArg some same)
    | forgetTopic topic =>
      intro s3Key upload found
      rcases mem_apply_pending found with before | ⟨rfl, -⟩
      · exact contained s3Key upload before
      · exact unreplaced
    | setPending upload =>
      cases later with
      | addCompleted entry =>
        exact (AList.lookup_erase_ne fun same => unreplaced (congrArg some same.symm)).trans contained
      | setPending new =>
        exact (AList.lookup_insert_ne fun same => unreplaced (congrArg some same)).trans contained
      | abortPending s3Key =>
        exact (AList.lookup_erase_ne fun same => unreplaced (congrArg some same.symm)).trans contained
      | forgetTopic topic =>
        have kept := lookup_forgetTopic { pending := value } topic upload.s3Key
        rw [show AList.lookup upload.s3Key value = some upload from contained,
          Option.filter_some, if_pos (by simpa [Replaces] using unreplaced)] at kept
        exact kept

end ManifestOp

def manifestEffect : Flush.Effect manifestDesign where
  Contains := ManifestOp.Contains
  Replaces := ManifestOp.Replaces
  made := ManifestOp.contains_change
  kept := ManifestOp.contains_kept

def manifestRun (disk temp : (file : ManifestFile) → Option (Publish.Contents file.Value))
    (events : List (Flush.Event ManifestOp)) : Flush.State ManifestFile ManifestOp ManifestFile.Value :=
  Machine.exec (Flush.State.step manifestDesign) (Flush.State.start manifestDesign disk temp) events

/-- Once a call has returned without an error, each file that it flushed has its effect until a
change made later replaces it, and a process that starts after a crash reads it back. -/
theorem acknowledged_update_on_disk
    (disk temp : (file : ManifestFile) → Option (Publish.Contents file.Value))
    (events : List (Flush.Event ManifestOp)) (idx : Nat) (op : ManifestOp)
    (returned : (manifestRun disk temp events).calls[idx]? = some (op, .returned true)) :
    ∀ file ∈ op.files, ∃ earlier later value,
      (manifestRun disk temp events).history = earlier ++ (idx, op) :: later ∧
      (manifestRun disk temp events).disk file = some (.whole value) ∧
      (manifestRun disk temp (events ++ [.crash])).memory file = value ∧
      ((∀ change ∈ later, ¬change.2.Replaces file op) → op.Contains file value) := by
  intro file flushed
  obtain ⟨earlier, later, value, history, whole, contained⟩ :=
    Flush.returned_contained manifestEffect disk temp events returned file flushed
  refine ⟨earlier, later, value, history, whole, ?_, contained⟩
  rw [manifestRun, Machine.exec_concat]
  show Flush.load manifestDesign file ((manifestRun disk temp events).disk file) = value
  rw [show (manifestRun disk temp events).disk file = some (.whole value) from whole]
  rfl

def ordersEntry : SegmentEntry where
  topic := "orders"
  partition := 0
  baseOffset := 0
  nextOffset := 10
  sizeBytes := 100
  sha256 := "aa"
  s3Key := "orders/0/0"
  uploadedAt := 0

def ordersUpload : PendingUpload where
  topic := "orders"
  partition := 0
  baseOffset := 10
  nextOffset := 20
  tenantID := ""
  sha256 := "bb"
  s3Key := "orders/0/10"
  uploadID := "u1"
  parts := []
  startedAt := 0

def twoFlushes : List (Flush.Event ManifestOp) :=
  [.call (.addCompleted ordersEntry), .call (.setPending ordersUpload)] ++
    List.replicate 2 (.step 0 .done) ++ List.replicate 2 (.step 1 .done) ++
    List.replicate 11 (.step 0 .done) ++ List.replicate 6 (.step 1 .done) ++ [.crash]

theorem entry_survives_crash :
    (manifestRun (fun _ => none) (fun _ => none) twoFlushes).calls[0]? =
      some (.addCompleted ordersEntry, .returned true) ∧
    ∃ value, (manifestRun (fun _ => none) (fun _ => none) twoFlushes).disk .completed =
      some (.whole value) ∧ ordersEntry ∈ value := by
  have returned : (manifestRun (fun _ => none) (fun _ => none) twoFlushes).calls[0]? =
      some (.addCompleted ordersEntry, .returned true) := rfl
  have made : (manifestRun (fun _ => none) (fun _ => none) twoFlushes).history =
      [(0, .addCompleted ordersEntry), (1, .setPending ordersUpload)] := rfl
  obtain ⟨earlier, later, value, history, whole, -, contained⟩ :=
    acknowledged_update_on_disk _ _ twoFlushes 0 _ returned .completed (by decide)
  refine ⟨returned, value, whole, contained ?_⟩
  rw [made] at history
  rcases earlier with _ | ⟨first, _ | ⟨second, rest⟩⟩
  · cases history
    intro change member
    rw [List.mem_singleton.mp member]
    exact id
  · cases history
  · simp at history

end KafkaWire.Tiering
