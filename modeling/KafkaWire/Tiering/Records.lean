import KafkaWire.Lib.Tables
import KafkaWire.Tiering.Tier

/-! Where the entries of a manifest come from: an operation on it adds at most the one that it is
about. -/

namespace KafkaWire.Tiering

theorem lookup_forgetTopic (m : Manifest) (topic s3Key : String) :
    (m.forgetTopic topic).pending.lookup s3Key =
      (m.pending.lookup s3Key).filter fun upload => upload.topic ≠ topic := by
  have erased : (m.forgetTopic topic).pending = Tables.eraseAll m.pending
      ((m.pending.entries.filter fun entry => entry.2.topic = topic).map (·.1)) := by
    rw [Tables.eraseAll, List.foldl_map]
    rfl
  have listed : s3Key ∈ (m.pending.entries.filter fun entry => entry.2.topic = topic).map (·.1) ↔
      ∃ upload ∈ m.pending.lookup s3Key, upload.topic = topic := by
    simp only [List.mem_map, List.mem_filter, decide_eq_true_eq]
    constructor
    · rintro ⟨⟨key, upload⟩, ⟨member, same⟩, rfl⟩
      exact ⟨upload, AList.mem_lookup_iff.mpr member, same⟩
    · rintro ⟨upload, found, same⟩
      exact ⟨⟨s3Key, upload⟩, ⟨AList.mem_lookup_iff.mp found, same⟩, rfl⟩
  rw [erased, Tables.lookup_eraseAll]
  simp only [listed]
  cases m.pending.lookup s3Key with
  | none => simp
  | some upload => by_cases same : upload.topic = topic <;> simp [Option.filter_some, same]

namespace ManifestOp

variable {op : ManifestOp} {m : Manifest}

theorem mem_apply_completed {entry : SegmentEntry} (member : entry ∈ (op.apply m).completed) :
    entry ∈ m.completed ∨ op = .addCompleted entry := by
  cases op with
  | addCompleted new =>
    rcases List.mem_append.mp member with old | added
    · exact .inl (List.mem_filter.mp old).1
    · rw [List.mem_singleton.mp added]
      exact .inr rfl
  | forgetTopic topic => exact .inl (List.mem_filter.mp member).1
  | _ => exact .inl member

theorem mem_apply_pending {s3Key : String} {upload : PendingUpload}
    (found : upload ∈ (op.apply m).pending.lookup s3Key) :
    upload ∈ m.pending.lookup s3Key ∨ op = .setPending upload ∧ s3Key = upload.s3Key := by
  cases op with
  | addCompleted entry =>
    rw [apply, Manifest.addCompleted, Tables.lookup_erase_eq] at found
    split at found
    · cases found
    · exact .inl found
  | setPending new =>
    rw [apply, Manifest.setPending, Tables.lookup_insert_eq] at found
    split at found
    · next same =>
        cases found
        exact .inr ⟨rfl, same⟩
    · exact .inl found
  | abortPending s3Key =>
    rw [apply, Manifest.abortPending, Tables.lookup_erase_eq] at found
    split at found
    · cases found
    · exact .inl found
  | forgetTopic topic =>
    rw [apply, lookup_forgetTopic] at found
    exact .inl (Option.mem_filter_iff.mp found).1

end ManifestOp

end KafkaWire.Tiering
