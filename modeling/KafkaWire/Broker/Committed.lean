import KafkaWire.Broker.Changes
import KafkaWire.Broker.OffsetFiles
import KafkaWire.Lib.Tables

/-! Committed offsets beside the coordinator. The coordinator and the offset store share one record
for each group. -/

namespace KafkaWire.Broker

variable (g : GroupCoordinator)

namespace GroupCoordinator

def record (g : GroupCoordinator) (groupID : String) : Option GroupState :=
  match g.live.lookup groupID with
  | some group => some group.live.persisted
  | none => g.store.groups.lookup groupID

def setRecord (g : GroupCoordinator) (groupID : String) (gs : GroupState) : GroupCoordinator :=
  match g.live.lookup groupID with
  | some group =>
    { g with
      live := g.live.insert groupID { group with live := { group.live with persisted := gs } } }
  | none => { g with store := ⟨g.store.groups.insert groupID gs⟩ }

/-- `CommitOffset` up to the call of `Persist`. Neither the generation nor the members are looked
at. -/
def commitOffset (g : GroupCoordinator) (made : Commit) : GroupCoordinator :=
  if made.valid then
    g.setRecord made.groupID
      (((g.record made.groupID).getD { groupID := made.groupID }).setOffset made.topic
        made.partition made.value)
  else g

def fetchOffset (g : GroupCoordinator) (groupID topic : String) (partition : Int) :
    CommittedOffset :=
  match g.record groupID with
  | none => { offset := -1 }
  | some gs => (gs.offset? topic partition).getD { offset := -1 }

/-- `AllOffsets` -/
def allOffsets (g : GroupCoordinator) (groupID : String) : Offsets :=
  ((g.record groupID).map GroupState.offsets).getD ∅

end GroupCoordinator

namespace LiveGroup

theorem Shrunk.offsets {lg lg' : LiveGroup} (shrunk : Shrunk lg lg') :
    lg'.persisted.offsets = lg.persisted.offsets := by
  obtain ⟨⟨members, heartbeats, leader, rfl⟩, -⟩ := shrunk
  rfl

theorem entered_offsets (lg : LiveGroup) (args : JoinGroupArgs) (now : Int) (random : Bytes) :
    (lg.entered args now random).persisted.offsets = lg.persisted.offsets := by
  rw [← (sweep_shrunk lg args now).offsets]
  change ((lg.sweep args now).openRound args now).persisted.offsets = _
  rw [openRound]
  split <;> rfl

theorem closeRound_offsets (order : List String) (lg : LiveGroup) (round : RebalanceRound) :
    (lg.closeRound order round).persisted.offsets = lg.persisted.offsets := by
  rw [closeRound]
  split
  · rfl
  · have dropped := (dropWhere_shrunk (fun id _ => id ∉ round.joined) lg).offsets
    refine Eq.trans ?_ dropped
    change (seatLeader (lg.dropWhere fun id _ => id ∉ round.joined)).persisted.offsets = _
    rw [seatLeader]
    split <;> rfl

theorem Change.offsets {lg lg' : LiveGroup} {event : Event} (change : Change lg event lg') :
    lg'.persisted.offsets = lg.persisted.offsets := by
  cases change with
  | beat => rfl
  | swept args now => exact (sweep_shrunk lg args now).offsets
  | entered args now random => exact entered_offsets lg args now random
  | completed args now random order round =>
    exact (closeRound_offsets order _ round).trans (entered_offsets lg args now random)
  | distributed => rfl
  | left groupID memberID present =>
    rw [leaveGroup, if_neg (not_not.mpr present)]
    rfl
  | expired groupID order round => exact closeRound_offsets order lg round

end LiveGroup

namespace GroupCoordinator

theorem allOffsets_entry (groupID : String) :
    g.allOffsets groupID = (g.entry groupID).live.persisted.offsets := by
  rw [allOffsets, record, entry]
  cases g.live.lookup groupID with
  | some group => rfl
  | none =>
    change _ = (g.store.get groupID).offsets
    rw [OffsetStore.get]
    cases g.store.groups.lookup groupID <;> rfl

theorem step_allOffsets (event : Event) (groupID : String) :
    (g.step event).allOffsets groupID = g.allOffsets groupID := by
  rw [allOffsets_entry, allOffsets_entry]
  obtain same | ⟨-, stepped⟩ := g.entry_step event groupID
  · rw [same]
  · rw [stepped]
    exact ((g.entry groupID).step_change event).offsets

theorem record_setRecord (groupID other : String) (gs : GroupState) :
    (g.setRecord groupID gs).record other = if other = groupID then some gs else g.record other := by
  rw [setRecord, record, record]
  by_cases same : other = groupID
  · subst same
    rw [if_pos rfl]
    cases found : g.live.lookup other with
    | some group => simp only [AList.lookup_insert]
    | none => simp only [found, AList.lookup_insert]
  · rw [if_neg same]
    cases g.live.lookup groupID with
    | some group => simp only [AList.lookup_insert_ne same]
    | none => simp only [AList.lookup_insert_ne same]

theorem commitOffset_other (made : Commit) (groupID : String) (other : groupID ≠ made.groupID) :
    (g.commitOffset made).allOffsets groupID = g.allOffsets groupID := by
  rw [commitOffset]
  split
  · rw [allOffsets, record_setRecord, if_neg other, allOffsets]
  · rfl

theorem commitOffset_invalid (made : Commit) (invalid : made.valid = false) :
    g.commitOffset made = g := by
  rw [commitOffset, invalid, if_neg Bool.false_ne_true]

end GroupCoordinator

end KafkaWire.Broker
