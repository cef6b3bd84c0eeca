import KafkaWire.Broker.AclAdmin
import KafkaWire.Broker.Adoption
import KafkaWire.Broker.ArchiveSearch
import KafkaWire.Broker.Blocked
import KafkaWire.Broker.Earliest
import KafkaWire.Broker.FailedCommits
import KafkaWire.Broker.FetchTenant
import KafkaWire.Broker.Generations
import KafkaWire.Broker.Metadata
import KafkaWire.Broker.SyncReplies
import KafkaWire.Broker.TopicDeletes
import KafkaWire.Broker.TopicFailures
import KafkaWire.Broker.TopicSaves
import KafkaWire.Broker.Watermarks
import KafkaWire.Cmd.FlagOrder
import KafkaWire.Storage.Durability
import KafkaWire.Storage.FailedDeletion
import KafkaWire.Storage.Failures
import KafkaWire.Storage.Gaps
import KafkaWire.Storage.StaleIndex
import KafkaWire.Storage.TimeOrder
import KafkaWire.Storage.Timestamps
import KafkaWire.Storage.Window
import KafkaWire.Tiering.EntrySize
import KafkaWire.Tiering.Eviction
import KafkaWire.Tiering.Naming
import KafkaWire.Webhook.Forwarder
import KafkaWire.Wire.Authenticated
import KafkaWire.Wire.Consumer
import KafkaWire.Wire.Fencing
import KafkaWire.Wire.Isolation
import KafkaWire.Wire.ResponseSize
