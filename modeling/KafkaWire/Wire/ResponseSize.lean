import KafkaWire.Storage.NoPanic
import KafkaWire.Wire.Dispatcher
import KafkaWire.Wire.Frame
import Mathlib.Algebra.Order.BigOperators.Group.List

/-! The size in front of a Fetch response. It has 32 bits, and nothing bounds the response but the
number of partitions that are asked for and the limits that are asked for them. -/

namespace KafkaWire.Wire

open Broker Bytes Dispatcher Programs Storage Tiering

variable {world : World} {offset first : Int} {bytes : Bytes}

def headerSize (flexibleHeader : Bool) : Nat := if flexibleHeader then 5 else 4

section Size

variable {correlationID : Int} {body : Bytes} {flexibleHeader : Bool}

end Size

section Bounds

variable {b : BrokerState} {maxBytes : Int}

end Bounds

end KafkaWire.Wire
