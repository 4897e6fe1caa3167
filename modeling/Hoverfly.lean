import Hoverfly.Challenge.Capability
import Hoverfly.Payer.Exposure
import Hoverfly.Settle.Fleet
import Hoverfly.Drive.Stall
import Hoverfly.Erasure.Layout
import Hoverfly.Erasure.Hostile
import Hoverfly.Erasure.Recovery
import Hoverfly.Feed.Head
import Hoverfly.Sched.Waking
import Hoverfly.Session.Reserve
import Hoverfly.Relay.Refusal
import Hoverfly.Sched.Groups
import Hoverfly.Payer.Sizing
import Hoverfly.Limit.Inbound
import Hoverfly.Limit.Dial
import Hoverfly.Hive.Underlay
import Hoverfly.Meter.Totals
import Hoverfly.Cheque.RoundTrip
import Hoverfly.Manifest.Fetches
import Hoverfly.Sched.Rendezvous
import Hoverfly.Upload.Streaming
import Hoverfly.Dispatch.Prewarm
import Hoverfly.Cid.Origin
import Hoverfly.Relay.Caches
import Hoverfly.Peers.Spread
import Hoverfly.Drive.Exchange
import Hoverfly.Fetch.Wire
