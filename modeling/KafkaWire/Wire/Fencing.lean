import KafkaWire.Wire.GroupAccess

/-! Offset commits of consumers that a rebalance has left behind. -/

namespace KafkaWire.Wire

open Broker Programs

/-- One partition's turn in an OffsetCommit request, with the generation and the member id that the
request carries. -/
structure CommitTurn where
  conn : Conn
  group : String
  generation : Int
  memberID : String
  topic : String
  partition : OffsetCommitPartition
  now : Int

namespace CommitTurn

def made (turn : CommitTurn) : Commit :=
  ⟨turn.group, turn.topic, turn.partition.partition, turn.partition.offset,
    turn.partition.leaderEpoch, turn.partition.metadata.getD "", turn.now⟩

def granted (acl : Option ACLStore) (turn : CommitTurn) : Bool :=
  mayUseGroup acl turn.conn.saslPrincipal turn.group "read" &&
    mayUseTopic acl turn.conn.saslPrincipal turn.topic "read"

def Stale (g : GroupCoordinator) (turn : CommitTurn) : Prop :=
  (g.entry turn.group).live.persisted.generation ≠ turn.generation ∨
    turn.memberID ∉ (g.entry turn.group).live.members ∧
      (g.entry turn.group).live.members.keys ≠ []

instance (g : GroupCoordinator) (turn : CommitTurn) : Decidable (turn.Stale g) :=
  inferInstanceAs (Decidable (_ ∨ _))

end CommitTurn

inductive FencingEvent
  | coordinate (event : Event)
  | commit (turn : CommitTurn)

def fencingStep (acl : Option ACLStore) (g : GroupCoordinator) : FencingEvent → GroupCoordinator
  | .coordinate event => g.step event
  | .commit turn => if turn.granted acl then g.commitOffset turn.made else g

def StaleRefused (acl : Option ACLStore) (g : GroupCoordinator) : FencingEvent → Prop
  | .coordinate _ => True
  | .commit turn => turn.Stale g → turn.granted acl = false ∨ turn.made.valid = false

instance (acl : Option ACLStore) (g : GroupCoordinator) :
    (event : FencingEvent) → Decidable (StaleRefused acl g event)
  | .coordinate _ => isTrue trivial
  | .commit turn => inferInstanceAs (Decidable (turn.Stale g → _))

section Turns

variable (conn : Conn) (req : OffsetCommitRequest)

variable {conn req} {acl : Option ACLStore} {start : GroupCoordinator}

end Turns

theorem commit_granted_or_same (acl : Option ACLStore) (g : GroupCoordinator) (event : FencingEvent)
    (group : String) (refused : StaleRefused acl g event) :
    (fencingStep acl g event).allOffsets group = g.allOffsets group ∨
      ∃ turn, event = .commit turn ∧ turn.group = group ∧ ¬ turn.Stale g := by
  cases event with
  | coordinate event => exact .inl (g.step_allOffsets event group)
  | commit turn =>
    by_cases stale : turn.Stale g
    · left
      rcases refused stale with no | no
      · rw [fencingStep, no, if_neg Bool.false_ne_true]
      · rw [fencingStep, g.commitOffset_invalid _ no, ite_self]
    · by_cases same : turn.group = group
      · exact .inr ⟨turn, rfl, same, stale⟩
      · left
        rw [fencingStep]
        split
        · exact g.commitOffset_other turn.made group fun equal => same equal.symm
        · rfl

/-- In every run in which the commits of consumers that were left behind are refused for another
reason, only commits of the current generation, and of members if there are any, change the
committed offsets of a group. -/
theorem offsets_changed_by_current_commits (acl : Option ACLStore) (store : OffsetStore)
    (front back : List FencingEvent) (event : FencingEvent)
    (guarded : Machine.Guarded (fencingStep acl) (StaleRefused acl) (newGroupCoordinator store)
      (front ++ event :: back)) (group : String) :
    (Machine.exec (fencingStep acl) (newGroupCoordinator store) (front ++ [event])).allOffsets group =
        (Machine.exec (fencingStep acl) (newGroupCoordinator store) front).allOffsets group ∨
      ∃ turn, event = .commit turn ∧ turn.group = group ∧
        ¬ turn.Stale (Machine.exec (fencingStep acl) (newGroupCoordinator store) front) := by
  obtain ⟨-, refused, -⟩ := (Machine.guarded_append _ _ _).mp guarded
  rw [Machine.exec_concat]
  exact commit_granted_or_same acl _ event group refused

private def replaced : List FencingEvent :=
  [.coordinate (.join { groupID := "g", memberID := "m" } 0 [] []), .coordinate (.expire "g" 0 []),
    .coordinate (.join { groupID := "g", memberID := "n" } (4 * second) [] []),
    .coordinate (.expire "g" 1 [])]

private def staleTurn (principal : String) : CommitTurn :=
  ⟨⟨principal, ""⟩, "g", 1, "m", "t", ⟨0, 7, 0, none⟩, 0⟩

private def currentTurn : CommitTurn := ⟨⟨"amy", ""⟩, "g", 2, "n", "t", ⟨0, 9, 0, none⟩, 0⟩

private def coordinated (acl : Option ACLStore) (events : List FencingEvent) : GroupCoordinator :=
  Machine.exec (fencingStep acl) (newGroupCoordinator ⟨∅⟩) events

private def onlyAmy : ACLStore :=
  (∅ : ACLStore).insert "amy" ⟨none, [⟨"t", ["read"]⟩], [⟨"g", ["read"]⟩]⟩

/-- The old member has no grant; the offset of the new one stays. -/
theorem refused_commit_changes_nothing :
    ((coordinated (some onlyAmy) (replaced ++ [.commit currentTurn])).fetchOffset "g" "t" 0).offset =
        9 ∧
      (coordinated (some onlyAmy) (replaced ++ [.commit currentTurn] ++
          [.commit (staleTurn "eve")])).allOffsets "g" =
        (coordinated (some onlyAmy) (replaced ++ [.commit currentTurn])).allOffsets "g" := by
  refine ⟨by decide +kernel, ?_⟩
  obtain same | ⟨turn, same, -, current⟩ := offsets_changed_by_current_commits (some onlyAmy) ⟨∅⟩
    (replaced ++ [.commit currentTurn]) [] (.commit (staleTurn "eve")) (by decide +kernel) "g"
  · exact same
  · cases same
    exact absurd (by decide +kernel) current

/-- The old member overwrites the offset that the new one has committed. -/
theorem left_behind_member_rewinds :
    (staleTurn "amy").Stale (coordinated (some onlyAmy) (replaced ++ [.commit currentTurn])) ∧
      ((coordinated (some onlyAmy) (replaced ++ [.commit currentTurn])).fetchOffset "g" "t"
        0).offset = 9 ∧
      ((coordinated (some onlyAmy) (replaced ++ [.commit currentTurn,
        .commit (staleTurn "amy")])).fetchOffset "g" "t" 0).offset = 7 := by
  decide +kernel

end KafkaWire.Wire
