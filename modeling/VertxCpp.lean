import VertxCpp.Addressing
import VertxCpp.Atomicity
import VertxCpp.Completion
import VertxCpp.Consumers
import VertxCpp.Correlation
import VertxCpp.Deployment
import VertxCpp.Failure
import VertxCpp.Faults
import VertxCpp.Footprint
import VertxCpp.Framing
import VertxCpp.Healing
import VertxCpp.Inbound
import VertxCpp.Joining
import VertxCpp.Locking
import VertxCpp.Lookups
import VertxCpp.Loops
import VertxCpp.Node
import VertxCpp.NodeInfo
import VertxCpp.Outbound
import VertxCpp.Peer
import VertxCpp.Queues
import VertxCpp.Quiescence
import VertxCpp.Registry
import VertxCpp.Remote
import VertxCpp.Routing
import VertxCpp.SameNode
import VertxCpp.Senders
import VertxCpp.Stabilization
import VertxCpp.Standalone
import VertxCpp.StandaloneInbound
import VertxCpp.Surplus
import VertxCpp.Turns
import VertxCpp.Uuid
import VertxCpp.Vertx
import VertxCpp.Waiting
