import Zmtp.Bytes
import Zmtp.Buffer
import Zmtp.Part
import Zmtp.Identity
import Zmtp.BodyStore
import Zmtp.Link
import Zmtp.Assoc
import Zmtp.FairQueue
import Zmtp.PeerTable
import Zmtp.Role
import Zmtp.Settings
import Zmtp.Interest
import Zmtp.Fault
import Zmtp.Event
import Zmtp.Frame.Head
import Zmtp.Frame.HeadReader
import Zmtp.Frame.Scanner
import Zmtp.Frame.FrameReader
import Zmtp.Frame.FrameWriter
import Zmtp.Greeting
import Zmtp.Session
import Zmtp.Stream.ByteStream
import Zmtp.Stream.Script
import Zmtp.Stream.Duplex
import Zmtp.Text.CodeRange
import Zmtp.Text.Combining
import Zmtp.Text.Ignorable
import Zmtp.Text.Unprintable
import Zmtp.Text.Quoted
import Zmtp.Engine.Outbox
import Zmtp.Engine.Supply
import Zmtp.Engine.State
import Zmtp.Engine.Basic
import Zmtp.Engine.Inbound
import Zmtp.Engine.Outbound
import Zmtp.Engine
import Zmtp.Router
import Zmtp.Hub
import Zmtp.Network
import Zmtp.Proofs.Frame.Scan
import Zmtp.Proofs.Frame.Pieces
import Zmtp.Proofs.Frame.Reader
import Zmtp.Proofs.Engine.Greeting
import Zmtp.Proofs.Engine.Steps
import Zmtp.Proofs.Engine.Tap
import Zmtp.Proofs.Engine.Supply
import Zmtp.Proofs.Engine.Sending
import Zmtp.Proofs.Engine.Receiving
import Zmtp.Proofs.Engine.Opening
import Zmtp.Proofs.FairQueue
import Zmtp.Proofs.Router.Intake
import Zmtp.Proofs.Router.Moves
import Zmtp.Proofs.Router.Identify
import Zmtp.Proofs.Router.Receive
import Zmtp.Proofs.Router.Consistency
import Zmtp.Proofs.Router.Journal
import Zmtp.Proofs.Router.Turn
import Zmtp.Proofs.Router.Standing
import Zmtp.Proofs.Router.Envelopes
import Zmtp.Proofs.Router.Aside
import Zmtp.Proofs.Router.Dispatch
import Zmtp.Proofs.Router.Letters
import Zmtp.Proofs.Router.Addressed
import Zmtp.Proofs.Router.Post
import Zmtp.Proofs.Router.Smooth
import Zmtp.Proofs.Router.Upkeep
import Zmtp.Proofs.Frame.Encoding
import Zmtp.Proofs.Frame.RoundTrip
import Zmtp.Proofs.Frame.Grammar
import Zmtp.Proofs.Frame.Handover
import Zmtp.Proofs.Engine.World
import Zmtp.Proofs.Engine.Waking
import Zmtp.Proofs.Engine.Lifecycle
import Zmtp.Proofs.Engine.Batching
import Zmtp.Proofs.Engine.Vigilance
import Zmtp.Proofs.Exchange.Wire
import Zmtp.Proofs.Exchange.Books
import Zmtp.Proofs.Exchange.Speech
import Zmtp.Proofs.Exchange.Basic
import Zmtp.Proofs.Exchange.Sound
import Zmtp.Proofs.Exchange.Delivery
import Zmtp.Proofs.Exchange.Meeting
import Zmtp.Proofs.Exchange.Handshake
import Zmtp.Proofs.Switchboard.Line
import Zmtp.Proofs.Switchboard.Basic
import Zmtp.Proofs.Switchboard.Standing
import Zmtp.Proofs.Switchboard.Smooth
import Zmtp.Proofs.Greeting.Hearing
import Zmtp.Proofs.Greeting.Legacy
import Zmtp.Proofs.FairQueue.Asking
import Zmtp.Proofs.FairQueue.Desk
import Zmtp.Proofs.FairQueue.Turn
import Zmtp.Proofs.FairQueue.Bypass
import Zmtp.Proofs.Frame.Requests
import Zmtp.Proofs.Frame.Chunking
import Zmtp.Proofs.PeerTable
import Zmtp.Proofs.Router.Lookahead
import Zmtp.Proofs.Engine.Clearing
import Zmtp.Proofs.Switchboard.Reception
import Zmtp.Proofs.IdentitySource
import Zmtp.Proofs.Link
import Zmtp.Proofs.Frame.Canonical
import Zmtp.Proofs.Frame.Cursor
import Zmtp.Proofs.Frame.Machine
import Zmtp.Proofs.Frame.Memory
import Zmtp.Proofs.Frame.Bounds
import Zmtp.Proofs.Frame.Rounds
import Zmtp.Proofs.Engine.Effort
import Zmtp.Proofs.Engine.Accounting
import Zmtp.Proofs.Engine.Imitation
import Zmtp.Proofs.Network.Pairing
import Zmtp.Proofs.Network.Routing
