import KafkaWire.Tiering.Parts

/-! What one step of an upload can do. -/

namespace KafkaWire.Tiering

namespace UploadStage

def call : UploadStage → Option CallStage
  | .checkpointing _ call | .noting _ _ call | .recording call | .releasing call => some call
  | _ => none

def after (call : CallStage) : UploadStage → UploadStage
  | .checkpointing run _ =>
    match call with
    | .done true => .streaming run
    | .done false => .returned false
    | call => .checkpointing run call
  | .noting run last _ =>
    match call with
    | .done _ => if last then .assembling run else .streaming run
    | call => .noting run last call
  | .recording _ =>
    match call with
    | .done ok => .returned ok
    | call => .recording call
  | .releasing _ =>
    match call with
    | .done _ => .returned false
    | call => .releasing call
  | stage => stage

variable (cfg : Config) (crypto : Crypto) (seg : SegmentSource) (caller : Nat)

inductive Moves (tier : Tier) (answer : Answer) : UploadStage → Tier → UploadStage → Prop
  | unopened : Moves tier answer .opening tier (.returned false)
  | opened {file : SegmentFile} (found : answer.file = some file) :
      Moves tier answer .opening tier
        (.resuming (key cfg seg) (tenantID cfg seg) file (crypto.sha256 file.data))
  | resuming {key tenantID : String} {file : SegmentFile} {sha : String} {prev : PendingUpload}
      (found : tier.manifest.getPending key = some prev) (same : prev.sha256 = sha) :
      Moves tier answer (.resuming key tenantID file sha) tier (.listing key tenantID file sha prev)
  | unknown {key tenantID : String} {file : SegmentFile} {sha : String} :
      Moves tier answer (.resuming key tenantID file sha) tier (.creating key tenantID file sha)
  | forgotten {key tenantID : String} {file : SegmentFile} {sha : String} {prev : PendingUpload} :
      Moves tier answer (.listing key tenantID file sha prev) tier (.creating key tenantID file sha)
  | resumed {key tenantID : String} {file : SegmentFile} {sha : String} {prev : PendingUpload}
      {existing : List Part} {run : UploadRun}
      (ok : answer.ok = true) (listed : tier.store.listParts prev.uploadID = some existing)
      (some : trusted cfg.partSize existing 0 existing ≠ [])
      (isRun : run = UploadStage.resumed cfg prev key tenantID file sha
        (trusted cfg.partSize existing 0 existing)) :
      Moves tier answer (.listing key tenantID file sha prev) tier
        (.checkpointing run (.mutate (.setPending run.pending)))
  | refused {key tenantID : String} {file : SegmentFile} {sha : String} :
      Moves tier answer (.creating key tenantID file sha) tier (.returned false)
  | created {key tenantID : String} {file : SegmentFile} {sha : String} {store : FS} {run : UploadRun}
      (new : answer.uploadID ∉ tier.store.uploads)
      (made : tier.store.createMultipart key answer.uploadID (metadata seg sha) = some store)
      (isRun : run = fresh seg key tenantID file sha answer.uploadID answer.now) :
      Moves tier answer (.creating key tenantID file sha) { tier with store := store }
        (.checkpointing run (.mutate (.setPending run.pending)))
  | called {stage : UploadStage} {call call' : CallStage} {tier' : Tier}
      (calling : stage.call = some call) (ran : call.step caller tier answer.ok = (tier', call')) :
      Moves tier answer stage tier' (stage.after call')
  | drained {run : UploadRun}
      (empty : (run.file.data.drop run.position).take cfg.partSize = []) :
      Moves tier answer (.streaming run) tier (.assembling run)
  | stored {run : UploadRun} {bytes : Bytes} {part : Part} {store : FS}
      (isNext : (run.file.data.drop run.position).take cfg.partSize = bytes) (some : bytes ≠ [])
      (sent : tier.store.uploadPart run.uploadID (run.parts.length + 1) bytes = Option.some (part, store)) :
      Moves tier answer (.streaming run) { tier with store := store }
        (.noting (UploadStage.sent run part) (bytes.length < cfg.partSize)
          (.mutate (.setPending (UploadStage.sent run part).pending)))
  | abandoned {stage : UploadStage} {run : UploadRun}
      (sending : stage = .streaming run ∨ stage = .assembling run) :
      Moves tier answer stage tier (.aborting run.key run.uploadID)
  | assembled {run : UploadRun} {store : FS}
      (put : tier.store.assemble run.key run.uploadID run.parts = some store) :
      Moves tier answer (.assembling run) { tier with store := store } (.describing run)
  | described {run : UploadRun} (ok : answer.ok = true) :
      Moves tier answer (.describing run)
        { tier with store := tier.store.describe run.key run.uploadID } (.discarding run)
  | undescribed {run : UploadRun} (failed : answer.ok = false) :
      Moves tier answer (.describing run) tier (.discarding run)
  | discarded {run : UploadRun} (whole : answer.removal = .whole) :
      Moves tier answer (.discarding run)
        { tier with store := tier.store.removeUpload run.uploadID answer.removal } (.verifying run)
  | kept {run : UploadRun} :
      Moves tier answer (.discarding run)
        { tier with store := tier.store.removeUpload run.uploadID answer.removal }
        (.aborting run.key run.uploadID)
  | verified {run : UploadRun} {now : SegmentFile} (found : answer.file = some now)
      (same : now.inode = run.file.inode) :
      Moves tier answer (.verifying run) tier
        (.recording (.mutate (.addCompleted (entry cfg crypto seg run answer.now))))
  | replaced {run : UploadRun} :
      Moves tier answer (.verifying run) tier (.releasing (.mutate (.abortPending run.key)))
  | aborted {key uploadID : String} :
      Moves tier answer (.aborting key uploadID)
        { tier with store := tier.store.removeUpload uploadID answer.removal }
        (.releasing (.mutate (.abortPending key)))
  | ended {ok : Bool} : Moves tier answer (.returned ok) tier (.returned ok)

variable {cfg crypto seg caller} {tier : Tier} {answer : Answer}

theorem step_call {stage : UploadStage} {call : CallStage} (calling : stage.call = some call) :
    step cfg crypto seg caller tier answer stage =
      ((call.step caller tier answer.ok).1, stage.after (call.step caller tier answer.ok).2) := by
  cases stage with
  | checkpointing run call' | noting run last call' | recording call' | releasing call' =>
    obtain rfl : call' = call := Option.some.inj calling
    simp only [step]
    split <;> simp_all [after]
  | _ => cases calling

theorem moves_call {stage : UploadStage} {call : CallStage} (calling : stage.call = some call) :
    Moves cfg crypto seg caller tier answer stage (step cfg crypto seg caller tier answer stage).1
      (step cfg crypto seg caller tier answer stage).2 := by
  rw [step_call calling]
  exact .called calling rfl

theorem step_moves (stage : UploadStage) :
    Moves cfg crypto seg caller tier answer stage (step cfg crypto seg caller tier answer stage).1
      (step cfg crypto seg caller tier answer stage).2 := by
  cases stage with
  | opening =>
    simp only [step]
    split
    · next found => exact .opened found
    · exact .unopened
  | resuming key tenantID file sha =>
    simp only [step]
    split
    · next found =>
        split
        · next usable => exact .resuming found usable.2
        · exact .unknown
    · exact .unknown
  | listing key tenantID file sha prev =>
    simp only [step]
    split
    · next ok listed =>
        split
        · exact .forgotten
        · next some => exact .resumed ok listed (by simpa using some) rfl
    · exact .forgotten
  | creating key tenantID file sha =>
    simp only [step]
    split
    · next new =>
        split
        · next made => exact .created new.2 made rfl
        · exact .refused
    · exact .refused
  | checkpointing run call => exact moves_call rfl
  | streaming run =>
    simp only [step]
    split
    · next empty => exact .drained (by simpa using empty)
    · next more =>
        split
        · next sent => exact .stored rfl (by simpa using more) sent
        · exact .abandoned (.inl rfl)
  | noting run last call => exact moves_call rfl
  | assembling run =>
    simp only [step]
    split
    · next put => exact .assembled put
    · exact .abandoned (.inr rfl)
  | describing run =>
    simp only [step]
    split
    · next ok => exact .described ok
    · next failed => exact .undescribed (by simpa using failed)
  | discarding run =>
    simp only [step]
    split
    · next whole => exact .discarded whole
    · exact .kept
  | verifying run =>
    simp only [step]
    split
    · next found =>
        split
        · next same => exact .verified found same
        · exact .replaced
    · exact .replaced
  | recording call => exact moves_call rfl
  | aborting key uploadID => exact .aborted
  | releasing call => exact moves_call rfl
  | returned ok => exact .ended

end UploadStage

end KafkaWire.Tiering
