import Mathlib.Data.List.AList
import KafkaWire.Lib.Bytes

/-! The state of a consumer group that is kept on disk. A Go map is an `AList`; where the code
ranges over one, the order in which the entries come up is an argument of the model. -/

namespace KafkaWire.Broker

/-- `map[string]T` -/
abbrev Table (T : Type) := AList (fun _ : String => T)

structure CommittedOffset where
  offset : Int
  leaderEpoch : Int := 0
  metadata : String := ""
  commitTimestamp : Int := 0
  deriving DecidableEq, Repr

structure MemberState where
  memberID : String
  clientID : String
  clientHost : String
  sessionTimeoutMS : Int
  rebalanceTimeoutMS : Int
  subscription : Bytes
  assignment : Bytes := []
  protocols : List String
  deriving DecidableEq, Repr

/-- `map[string]map[int32]CommittedOffset` -/
abbrev Offsets := Table (AList (fun _ : Int => CommittedOffset))

structure GroupState where
  groupID : String
  generation : Int := 0
  protocolType : String := ""
  protocol : String := ""
  members : Table MemberState := ∅
  offsets : Offsets := ∅
  leader : String := ""
  deriving DecidableEq

/-- The in-memory half of `OffsetStore`. -/
structure OffsetStore where
  groups : Table GroupState

/-- `OffsetStore.Get`. The record that the source adds to the map for an absent group is the
same on every call, so the map itself need not change here. -/
def OffsetStore.get (store : OffsetStore) (groupID : String) : GroupState :=
  (store.groups.lookup groupID).getD { groupID := groupID }

end KafkaWire.Broker
