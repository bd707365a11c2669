import WolfMqtt.Lib.Chain
import WolfMqtt.Lib.TailQueue
import WolfMqtt.Lib.Moves
import WolfMqtt.Packet.Types
import WolfMqtt.Packet.Encode
import WolfMqtt.Broker.State
import WolfMqtt.Broker.Write
import WolfMqtt.Broker.OutQueue
import WolfMqtt.Broker.Qos2
import WolfMqtt.Broker.Orphan
import WolfMqtt.Broker.Subs
import WolfMqtt.Broker.Retained
import WolfMqtt.Broker.Will
import WolfMqtt.Broker.Publish
import WolfMqtt.Broker.Subscribe
import WolfMqtt.Broker.Connect
import WolfMqtt.Broker.Process
import WolfMqtt.Broker.Queues
import WolfMqtt.Broker.QueueInv
import WolfMqtt.Broker.Serve
import WolfMqtt.Broker.Fan
import WolfMqtt.Broker.Phase
import WolfMqtt.Broker.Leave
import WolfMqtt.Broker.Checks
import WolfMqtt.Broker.Handle
import WolfMqtt.Broker.Admit
import WolfMqtt.Broker.Answer
import WolfMqtt.Broker.Turn
import WolfMqtt.Broker.Reach
import WolfMqtt.Broker.Entries
import WolfMqtt.Broker.Session
import WolfMqtt.Broker.Delivery
import WolfMqtt.Broker.Takeover
import WolfMqtt.Broker.Owner
import WolfMqtt.Broker.Present
import WolfMqtt.Lib.Ledger
import WolfMqtt.Broker.Retention
import WolfMqtt.Static.Retained
import WolfMqtt.Lib.Row
import WolfMqtt.Packet.Decode
import WolfMqtt.Static.Carrier
import WolfMqtt.Static.Serve
import WolfMqtt.Static.CarrierInv
import WolfMqtt.Static.Good
import WolfMqtt.Static.Deliver
import WolfMqtt.Static.Enter
import WolfMqtt.Static.Reach
import WolfMqtt.Broker.FanOut
import WolfMqtt.Static.FanOut
import WolfMqtt.Lib.Buffer
import WolfMqtt.Packet.Read
import WolfMqtt.Packet.Framing
import WolfMqtt.Lib.BigEndian
import WolfMqtt.Persist.Record
import WolfMqtt.Persist.Restore
import WolfMqtt.Persist.RoundTrip
import WolfMqtt.Persist.Phases
import WolfMqtt.Persist.Restart
import WolfMqtt.Persist.Acked
import WolfMqtt.Lib.Elapsed
import WolfMqtt.Persist.Scans
import WolfMqtt.Persist.StaticRestart
import WolfMqtt.Static.Clock
import WolfMqtt.Lib.Crash
import WolfMqtt.Persist.Posix
import WolfMqtt.Persist.CrashSafe
import WolfMqtt.Broker.TableView
import WolfMqtt.Client.Pieces
import WolfMqtt.Client.PublishAll
import WolfMqtt.Client.PublishBlock
import WolfMqtt.Client.PublishSent
import WolfMqtt.Client.ThreadAcks
import WolfMqtt.Client.ThreadIds
import WolfMqtt.Packet.Vbi
import WolfMqtt.Sn.Decode
import WolfMqtt.Sn.Header
import WolfMqtt.Sn.Message
import WolfMqtt.Lib.Agree
import WolfMqtt.Lib.Layout
import WolfMqtt.Packet.Connect
import WolfMqtt.Packet.ConnectGrammar
import WolfMqtt.Packet.ConnectRoundTrip
import WolfMqtt.Sn.RoundTrip
import WolfMqtt.Sn.Receive
import WolfMqtt.Sn.Wait
import WolfMqtt.Sn.Turns
import WolfMqtt.Sn.Deliver
import WolfMqtt.Broker.TopicMatch
import WolfMqtt.Lib.Attempt
import WolfMqtt.Lib.Pool
import WolfMqtt.Packet.Decoders
import WolfMqtt.Packet.Extent
import WolfMqtt.Packet.PoolSafe
import WolfMqtt.Packet.PublishRoundTrip
import WolfMqtt.Packet.Subscribe
import WolfMqtt.Broker.MessageExpiry
import WolfMqtt.Static.Account
import WolfMqtt.Static.MessageExpiry
import WolfMqtt.Static.RetainedDelivery
import WolfMqtt.Broker.Compare
import WolfMqtt.Broker.Credentials
import WolfMqtt.Persist.Load
import WolfMqtt.Persist.Rejected
import WolfMqtt.Packet.TopicsLength
import WolfMqtt.Client.PublishLength
import WolfMqtt.Lib.Ordered
import WolfMqtt.Lib.Packed
import WolfMqtt.Lib.Separator
import WolfMqtt.Persist.Purge
import WolfMqtt.Persist.QueueKeys
import WolfMqtt.Sn.Bounds
import WolfMqtt.Sn.Alike
import WolfMqtt.Client.Payload
import WolfMqtt.Client.PendingList
import WolfMqtt.Packet.PublishFront
import WolfMqtt.Packet.TopicGrammar
import WolfMqtt.Packet.UnsubAckCodes
import WolfMqtt.Packet.Utf8
import WolfMqtt.Client.Chunks
import WolfMqtt.Broker.Forward
import WolfMqtt.Static.Forward
import WolfMqtt.Broker.Order
import WolfMqtt.Broker.Stranger
import WolfMqtt.Broker.Grants
import WolfMqtt.Broker.Lapse
