import KafkaWire.Broker.Hidden

/-! The operations on other topics neither see a topic nor touch it. -/

namespace KafkaWire.Broker

open Paths (Path)
open Programs Storage Tiering

section Operations

variable {w : Walls} {other : String}

/-- How many partitions are w.made when so many are asked for. -/
def partitionCount (asked : Int) : Nat := (if asked ≤ 0 then 1 else asked).toNat

section Named

variable (different : other ≠ w.name)

include different

end Named

end Operations

end KafkaWire.Broker
