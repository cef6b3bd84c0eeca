import KafkaWire.Broker.Commits

/-! What a `CommitOffset` that returns an error leaves in memory. -/

namespace KafkaWire.Broker

open Publish (Shared WriteOutcome)

/-- What the system answers to the three steps of `Persist`. -/
structure PersistAnswers where
  marshal : Bool
  write : WriteOutcome
  rename : Bool
  deriving DecidableEq, Repr

inductive CommitError
  | name (error : NameError)
  | marshalGroupState
  | writeTmp
  | rename
  deriving DecidableEq, Repr

def persist (answers : PersistAnswers) : Except CommitError Unit :=
  if answers.marshal = false then .error .marshalGroupState
  else if answers.write ≠ .done then .error .writeTmp
  else if answers.rename = false then .error .rename
  else .ok ()

namespace OffsetStore

def commitOffset (store : OffsetStore) (made : Commit) (answers : PersistAnswers) :
    Except CommitError Unit × OffsetStore :=
  match validateName "group" made.groupID with
  | .error error => (.error (.name error), store)
  | .ok () =>
    match validateName "topic" made.topic with
    | .error error => (.error (.name error), store)
    | .ok () =>
      let gs := (store.get made.groupID).setOffset made.topic made.partition made.value
      (persist answers, ⟨store.groups.insert made.groupID gs⟩)

/-- The copy of the maps that `AllOffsets` returns, by what is found in it. -/
def allOffsets (store : OffsetStore) (groupID : String) :
    Option (String → Option (Int → Option CommittedOffset)) :=
  (store.groups.lookup groupID).map fun gs topic =>
    (gs.offsets.lookup topic).map fun parts partition => parts.lookup partition

def SameOffsets (before after : OffsetStore) : Prop :=
  ∀ groupID, (∀ topic partition,
    after.fetchOffset groupID topic partition = before.fetchOffset groupID topic partition) ∧
    after.allOffsets groupID = before.allOffsets groupID

def Holds (store : OffsetStore) (made : Commit) : Prop :=
  ∃ gs parts, store.groups.lookup made.groupID = some gs ∧
    gs.offsets.lookup made.topic = some parts ∧ parts.lookup made.partition = some made.value

variable {store : OffsetStore} {made : Commit}

theorem commitOffset_invalid (store : OffsetStore) (answers : PersistAnswers) (invalid : made.valid = false) :
    (store.commitOffset made answers).2 = store := by
  rw [commitOffset]
  rcases group : validateName "group" made.groupID with _ | ⟨⟨⟩⟩
  · rfl
  · rcases topic : validateName "topic" made.topic with _ | ⟨⟨⟩⟩
    · rfl
    · rw [Commit.valid, group, topic] at invalid
      cases invalid

theorem commitOffset_valid (answers : PersistAnswers) (valid : made.valid = true) :
    store.commitOffset made answers = (persist answers, ⟨store.groups.insert made.groupID
      ((store.get made.groupID).setOffset made.topic made.partition made.value)⟩) := by
  rw [Commit.valid, Bool.and_eq_true] at valid
  rw [commitOffset]
  rcases group : validateName "group" made.groupID with _ | ⟨⟨⟩⟩
  · rw [group] at valid
    cases valid.1
  · rcases topic : validateName "topic" made.topic with _ | ⟨⟨⟩⟩
    · rw [topic] at valid
      cases valid.2
    · rfl

theorem SameOffsets.of_fetch {after : OffsetStore}
    (same : ∀ groupID, after.allOffsets groupID = store.allOffsets groupID) :
    SameOffsets store after := by
  have reads (s : OffsetStore) (groupID topic : String) (partition : Int) :
      s.fetchOffset groupID topic partition =
        (((s.allOffsets groupID).bind fun topics => topics topic).bind fun parts =>
          parts partition).getD { offset := -1 } := by
    rw [fetchOffset, allOffsets]
    cases s.groups.lookup groupID with
    | none => rfl
    | some gs =>
      simp only [Option.map_some, Option.bind_some, GroupState.offset?]
      cases gs.offsets.lookup topic <;> rfl
  intro groupID
  refine ⟨fun topic partition => ?_, same groupID⟩
  rw [reads, reads, same]

theorem allOffsets_insert (store : OffsetStore) (made : Commit) (groupID : String) :
    (OffsetStore.mk (store.groups.insert made.groupID
      ((store.get made.groupID).setOffset made.topic made.partition made.value))).allOffsets groupID =
      if groupID = made.groupID then
        some fun topic => if topic = made.topic then
            some fun partition => if partition = made.partition then some made.value
              else (store.get made.groupID).offset? made.topic partition
          else ((store.get made.groupID).offsets.lookup topic).map fun parts partition =>
            parts.lookup partition
      else store.allOffsets groupID := by
  rw [allOffsets]
  split
  · next mine =>
      rw [mine, AList.lookup_insert, Option.map_some]
      refine congrArg some (funext fun topic => ?_)
      split
      · next here =>
          rw [here, GroupState.setOffset, AList.lookup_insert, Option.map_some]
          refine congrArg some (funext fun partition => ?_)
          split
          · next equal => rw [equal, AList.lookup_insert]
          · next other =>
              rw [AList.lookup_insert_ne other, GroupState.offset?]
              cases (store.get made.groupID).offsets.lookup made.topic <;> rfl
      · next other => rw [GroupState.setOffset, AList.lookup_insert_ne other]
  · next other => rw [AList.lookup_insert_ne other, allOffsets]

/-- The locked section shows unless it writes what is there already. -/
theorem sameOffsets_insert_iff :
    SameOffsets store ⟨store.groups.insert made.groupID
      ((store.get made.groupID).setOffset made.topic made.partition made.value)⟩ ↔
      store.Holds made := by
  constructor
  · intro same
    have all := (same made.groupID).2
    rw [allOffsets_insert, if_pos rfl, allOffsets] at all
    obtain ⟨gs, found, topics⟩ := Option.map_eq_some_iff.mp all.symm
    have topic := congrFun topics made.topic
    rw [if_pos rfl] at topic
    obtain ⟨parts, known, partitions⟩ := Option.map_eq_some_iff.mp topic
    have value := congrFun partitions made.partition
    rw [if_pos rfl] at value
    exact ⟨gs, parts, found, known, value⟩
  · rintro ⟨gs, parts, found, known, value⟩
    refine .of_fetch fun groupID => ?_
    rw [allOffsets_insert]
    split
    · next mine =>
        have stored : store.get made.groupID = gs := by rw [get, found, Option.getD_some]
        rw [mine, allOffsets, found, Option.map_some, stored]
        refine congrArg some (funext fun topic => ?_)
        split
        · next here =>
            rw [here, known, Option.map_some]
            refine congrArg some (funext fun partition => ?_)
            split
            · next equal => rw [equal, value]
            · rw [GroupState.offset?, known, Option.bind_some]
        · rfl
    · rfl

end OffsetStore

theorem failed_commit_unseen_iff (store after : OffsetStore) (made : Commit) (answers : PersistAnswers)
    (error : CommitError) (failed : store.commitOffset made answers = (.error error, after)) :
    OffsetStore.SameOffsets store after ↔ made.valid = false ∨ store.Holds made := by
  cases valid : made.valid with
  | false =>
    have same := OffsetStore.commitOffset_invalid store answers valid
    rw [failed] at same
    subst same
    exact ⟨fun _ => .inl rfl, fun _ _ => ⟨fun _ _ => rfl, rfl⟩⟩
  | true =>
    rw [OffsetStore.commitOffset_valid answers valid, Prod.mk.injEq] at failed
    rw [← failed.2, OffsetStore.sameOffsets_insert_iff]
    exact ⟨.inr, fun either => either.resolve_left nofun⟩

theorem misnamed_commit_unseen :
    (OffsetStore.commitOffset ⟨∅⟩ { commitOf 5 with topic := "a/b" } ⟨true, .done, true⟩).1 =
        .error (.name (.character "topic" "a/b")) ∧
      (OffsetStore.SameOffsets ⟨∅⟩
          (OffsetStore.commitOffset ⟨∅⟩ { commitOf 5 with topic := "a/b" } ⟨true, .done, true⟩).2 ↔
        Commit.valid { commitOf 5 with topic := "a/b" } = false ∨
          OffsetStore.Holds ⟨∅⟩ { commitOf 5 with topic := "a/b" }) ∧
      Commit.valid { commitOf 5 with topic := "a/b" } = false := by
  have failed : OffsetStore.commitOffset ⟨∅⟩ { commitOf 5 with topic := "a/b" } ⟨true, .done, true⟩ =
      (.error (.name (.character "topic" "a/b")), ⟨∅⟩) := by
    rw [OffsetStore.commitOffset, show validateName "group" _ = .ok () by decide +kernel]
    dsimp only
    rw [show validateName "topic" "a/b" = .error (.character "topic" "a/b") by decide +kernel]
  rw [failed]
  exact ⟨rfl, failed_commit_unseen_iff ⟨∅⟩ ⟨∅⟩ _ _ _ failed, by decide +kernel⟩

/-- The temporary file cannot be written, and the offset is served all the same. -/
theorem unwritten_commit_served :
    ∃ error after, OffsetStore.commitOffset ⟨∅⟩ (commitOf 5) ⟨true, .refused, true⟩ = (.error error, after) ∧
      OffsetStore.fetchOffset ⟨∅⟩ "g" "t" 0 = { offset := -1 } ∧
      after.fetchOffset "g" "t" 0 = { offset := 5 } ∧ ¬ OffsetStore.SameOffsets ⟨∅⟩ after := by
  have valid : (commitOf 5).valid = true := by decide +kernel
  have served : (OffsetStore.commitOffset ⟨∅⟩ (commitOf 5) ⟨true, .refused, true⟩).2.fetchOffset
      "g" "t" 0 = { offset := 5 } := by
    decide +kernel
  refine ⟨.writeTmp, _, OffsetStore.commitOffset_valid _ valid, rfl, ?_, fun same => ?_⟩
  · rw [OffsetStore.commitOffset_valid _ valid] at served
    exact served
  · have seen := (same "g").1 "t" 0
    rw [OffsetStore.commitOffset_valid _ valid] at served
    rw [served] at seen
    exact absurd seen (by decide)

namespace OffsetFiles

def commitSteps (call : Nat) (made : Commit) (answers : PersistAnswers) : List OffsetEvent :=
  [.commit call made, .marshal made.groupID call answers.marshal,
    .write made.groupID call answers.write, .rename made.groupID call answers.rename]

def memory (s : OffsetFiles) (groupID : String) : GroupState := (s.entry groupID).memory

theorem step_memory_quiet (s : OffsetFiles) (event : OffsetEvent) (groupID : String)
    (change : ∀ f, event.action ≠ .change f) (submit : ∀ call f, event.action ≠ .submit call f) :
    (s.step event).memory groupID = s.memory groupID := by
  rw [memory, step_entry, view]
  split
  · rcases (s.entry groupID).step_memory event.action with same | ⟨f, is, -⟩ | ⟨call, f, is, -⟩
    · exact same
    · exact absurd is (change f)
    · exact absurd is (submit call f)
  · rfl

/-- A call that runs alone does to the memory of the process what `commitOffset` does to the map. -/
theorem exec_commitSteps (s : OffsetFiles) (store : OffsetStore) (call : Nat) (made : Commit)
    (answers : PersistAnswers) (fresh : call ∉ (s.entry made.groupID).calls)
    (same : ∀ groupID, s.memory groupID = store.get groupID) (groupID : String) :
    (Machine.exec step s (commitSteps call made answers)).memory groupID =
      (store.commitOffset made answers).2.get groupID := by
  simp only [commitSteps, Machine.exec_cons, Machine.exec_nil]
  rw [step_memory_quiet _ (.rename _ _ _) _ nofun nofun,
    step_memory_quiet _ (.write _ _ _) _ nofun nofun,
    step_memory_quiet _ (.marshal _ _ _) _ nofun nofun]
  cases valid : made.valid with
  | false =>
    have idle : OffsetEvent.action (.commit call made) = .idle :=
      if_neg (by rw [valid]; exact Bool.false_ne_true)
    rw [OffsetStore.commitOffset_invalid store answers valid, ← same]
    exact step_memory_quiet s _ groupID (by rw [idle]; nofun) (by rw [idle]; nofun)
  | true =>
    have action : OffsetEvent.action (.commit call made) = .submit call fun gs =>
        gs.setOffset made.topic made.partition made.value := if_pos valid
    rw [memory, step_entry, view, OffsetStore.commitOffset_valid answers valid, OffsetStore.get,
      action]
    by_cases mine : made.groupID = groupID
    · subst mine
      rw [AList.lookup_insert, Option.getD_some, ← same, if_pos (by rfl),
        Shared.step_submit _ _ fresh]
      rfl
    · rw [AList.lookup_insert_ne (Ne.symm mine), if_neg (by exact mine)]
      exact same groupID

theorem unwritten_commit_in_memory :
    (Machine.exec step ⟨∅⟩ (commitSteps 0 (commitOf 5) ⟨true, .refused, true⟩)).memory "g" =
      (OffsetStore.commitOffset ⟨∅⟩ (commitOf 5) ⟨true, .refused, true⟩).2.get "g" :=
  exec_commitSteps ⟨∅⟩ ⟨∅⟩ 0 (commitOf 5) _ (by decide) (fun _ => rfl) "g"

end OffsetFiles

end KafkaWire.Broker
