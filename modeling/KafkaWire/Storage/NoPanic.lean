import KafkaWire.Storage.Log

/-! Reads that cannot panic, whatever the files hold: the sizes that are asked for bound the buffers
that are allocated. -/

namespace KafkaWire.Storage

open Bytes

variable {α : Type} {maxBytes : Int}

def NoPanic {α : Type} (result : Except Fault α) : Prop :=
  ∀ fault, result = .error fault → fault ≠ .panic

theorem noPanic_ok (value : α) : NoPanic (.ok value) := nofun

theorem noPanic_error {fault : Fault} (safe : fault ≠ .panic) :
    NoPanic (.error fault : Except Fault α) := by
  rintro _ ⟨⟩
  exact safe

theorem noPanic_err (cause : Err) : NoPanic (.error (.err cause) : Except Fault α) :=
  noPanic_error nofun

section Reading

variable (world : World) {s : Segment}

theorem readAt_noPanic (small : s.logSize < 2 ^ 62) (position : Nat)
    (low : 0 ≤ maxBytes) (high : maxBytes < 2 ^ 32) : NoPanic (s.readAt world position maxBytes) := by
  rw [Segment.readAt]
  split
  · exact noPanic_ok _
  · next inside =>
      dsimp only
      rw [int64_of_range _ (by omega) (by omega), if_neg]
      · exact noPanic_ok _
      · simp only [maxAlloc]
        split <;> omega

theorem findBatchLoop_noPanic (target : Int) (fuel : Nat) (buffer : Bytes) (position : Nat) :
    NoPanic (s.findBatchLoop world target fuel buffer position) := by
  induction fuel generalizing buffer position with
  | zero => exact noPanic_ok _
  | succ fuel ih =>
    rw [Segment.findBatchLoop]
    split
    · dsimp only
      split
      · exact noPanic_err _
      · split
        · exact noPanic_ok _
        · split
          · exact noPanic_ok _
          · exact ih _ _
    · exact noPanic_ok _

theorem wrapFault_noPanic {context : String} {fault : Fault} (safe : fault ≠ .panic) :
    NoPanic (.error (wrapFault context fault) : Except Fault α) := by
  cases fault with
  | panic => exact absurd rfl safe
  | err cause => exact noPanic_err _

theorem fetchFirstBatch_noPanic (small : s.logSize < 2 ^ 62) (position : Nat) (offset : Int)
    (buf : Bytes) : NoPanic (fetchFirstBatch world s position offset buf) := by
  rw [fetchFirstBatch]
  rcases parsed : parseBatchHeader buf with ⟨hdr, _ | err⟩
  · obtain ⟨ok, rfl⟩ := (parse_ok_iff buf hdr).mp parsed
    have low := ok.totalSize_ge
    have high : (decodeHeader buf).totalSize < 2 ^ 32 := by
      have := ok.lengthHigh
      unfold BatchHeader.totalSize
      omega
    dsimp only
    split
    · next fault failed =>
        exact noPanic_error (readAt_noPanic world small position (by omega) high fault failed)
    · split <;> exact noPanic_ok _
  · exact noPanic_err _

theorem fetchSegment_noPanic (small : s.logSize < 2 ^ 62) (offset : Int)
    (low : 0 ≤ maxBytes) (high : maxBytes < 2 ^ 31) :
    NoPanic (fetchSegment world s offset maxBytes) := by
  rw [fetchSegment]
  split
  · next fault failed => exact wrapFault_noPanic (findBatchLoop_noPanic world _ _ _ _ fault failed)
  · next position _ =>
      split
      · next fault failed =>
          exact wrapFault_noPanic
            (readAt_noPanic world small position low (by omega) fault failed)
      · dsimp only
        split
        · exact noPanic_ok _
        · split
          · exact fetchFirstBatch_noPanic world small position offset _
          · exact noPanic_ok _

theorem findSegmentLocked_mem {l : Log} {offset : Int} (found : l.findSegmentLocked offset = some s) :
    s ∈ l.segments := by
  rw [Log.findSegmentLocked] at found
  split at found
  · cases found
  · next first isFirst =>
      split at found
      · cases found
      · split at found
        · cases found
        · dsimp only at found
          split at found
          · cases found
            exact List.mem_of_mem_head? isFirst
          · exact List.mem_of_getElem? found

theorem fetchAt_noPanic {l : Log} (small : ∀ seg ∈ l.segments, seg.logSize < 2 ^ 62) (offset : Int)
    (low : 0 ≤ maxBytes) (high : maxBytes < 2 ^ 31) :
    NoPanic (fetchAt l world offset maxBytes) := by
  rw [fetchAt]
  split
  · exact noPanic_ok _
  · split
    · split
      · exact noPanic_ok _
      · exact noPanic_err _
    · next seg found =>
        exact fetchSegment_noPanic world (small seg (findSegmentLocked_mem found)) offset low high

end Reading

section Lengths

variable {world : World} {s : Segment} {offset first : Int} {bytes : Bytes}

theorem want_le (size position : Nat) (low : -(2 ^ 63) ≤ maxBytes) :
    (if int64 (position + maxBytes) > size then (size : Int) - position else maxBytes) ≤
      maxBytes := by
  split
  · next cut =>
      have wrapped : int64 (position + maxBytes) ≤ position + maxBytes := by
        by_cases negative : (position : Int) + maxBytes < 0
        · rw [int64_of_range _ (by omega) (by omega)]
        · rw [int64, Int.bmod]
          split <;> omega
      omega
  · exact le_refl _

theorem readAt_length {position : Nat} {buf : Bytes} (low : -(2 ^ 63) ≤ maxBytes)
    (read : s.readAt world position maxBytes = .ok buf) : buf.length ≤ maxBytes.toNat := by
  have most := want_le s.logSize position low
  rw [Segment.readAt] at read
  split at read
  · obtain rfl := Except.ok.inj read
    exact Nat.zero_le _
  · dsimp only at read
    generalize (if int64 (position + maxBytes) > s.logSize then (s.logSize : Int) - position
      else maxBytes) = want at read most
    split at read
    · cases read
    · obtain rfl := Except.ok.inj read
      rw [List.length_take]
      omega

/-- A fetch returns nothing, the whole batches of what it read, or the first batch alone. -/
theorem fetchAt_cases {l : Log} (fetched : fetchAt l world offset maxBytes = .ok (bytes, first)) :
    bytes = [] ∨ ∃ s position buf, Segment.readAt world s position maxBytes = .ok buf ∧
      (bytes = trimToBatchBoundary buf ∨ ∃ hdr, parseBatchHeader buf = (hdr, none) ∧
        Segment.readAt world s position hdr.totalSize = .ok bytes) := by
  rw [fetchAt] at fetched
  split at fetched
  · exact .inl (Prod.mk.inj (Except.ok.inj fetched)).1.symm
  · split at fetched
    · split at fetched
      · exact .inl (Prod.mk.inj (Except.ok.inj fetched)).1.symm
      · cases fetched
    · next s _ =>
        rw [fetchSegment] at fetched
        split at fetched
        · cases fetched
        · next position _ =>
            split at fetched
            · cases fetched
            · next buf read =>
                split at fetched
                · exact .inl (Prod.mk.inj (Except.ok.inj fetched)).1.symm
                · dsimp only at fetched
                  split at fetched
                  · rw [fetchFirstBatch] at fetched
                    split at fetched
                    · cases fetched
                    · next hdr parsed =>
                        split at fetched
                        · cases fetched
                        · next full whole =>
                            split at fetched
                            · exact .inl (Prod.mk.inj (Except.ok.inj fetched)).1.symm
                            · obtain rfl := (Prod.mk.inj (Except.ok.inj fetched)).1
                              exact .inr ⟨s, position, buf, read, .inr ⟨hdr, parsed, whole⟩⟩
                  · exact .inr ⟨s, position, buf, read, .inl (Prod.mk.inj (Except.ok.inj fetched)).1.symm⟩

end Lengths

end KafkaWire.Storage
