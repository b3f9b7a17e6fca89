import TorrentCore.Address
import TorrentCore.Assembly
import TorrentCore.Assembly.Workbench
import TorrentCore.Availability
import TorrentCore.Bitfield
import TorrentCore.Buffer.Lending
import TorrentCore.Buffer.Pool
import TorrentCore.Bytes
import TorrentCore.Channel
import TorrentCore.Connection.Endpoint
import TorrentCore.Connection.State
import TorrentCore.Counters
import TorrentCore.Decimal.Dyadic
import TorrentCore.Decimal.Nanoseconds
import TorrentCore.Decimal.Numeral
import TorrentCore.Decimal.Shortest
import TorrentCore.Digest.Sha1
import TorrentCore.Error
import TorrentCore.Exchange
import TorrentCore.Geometry
import TorrentCore.Identifier
import TorrentCore.Identifier.Fingerprint
import TorrentCore.PieceHashes
import TorrentCore.Proofs.Assembly
import TorrentCore.Proofs.Assembly.Custody
import TorrentCore.Proofs.Assembly.FirstBlocks
import TorrentCore.Proofs.Assembly.Ranges
import TorrentCore.Proofs.Assembly.Validity
import TorrentCore.Proofs.Availability
import TorrentCore.Proofs.Bitfield
import TorrentCore.Proofs.Blocks
import TorrentCore.Proofs.Buffer
import TorrentCore.Proofs.Buffer.Conservation
import TorrentCore.Proofs.Bytes
import TorrentCore.Proofs.Connection.Attitude
import TorrentCore.Proofs.Connection.Candor
import TorrentCore.Proofs.Connection.Ending
import TorrentCore.Proofs.Connection.Flags
import TorrentCore.Proofs.Connection.Hearing
import TorrentCore.Proofs.Connection.Mail
import TorrentCore.Proofs.Connection.Outbox
import TorrentCore.Proofs.Connection.Progress
import TorrentCore.Proofs.Connection.Record
import TorrentCore.Proofs.Connection.Streams
import TorrentCore.Proofs.Connection.Tally
import TorrentCore.Proofs.Connection.Telling
import TorrentCore.Proofs.Dialogue
import TorrentCore.Proofs.Exchange
import TorrentCore.Proofs.Expiry
import TorrentCore.Proofs.Geometry
import TorrentCore.Proofs.Geometry.Exact
import TorrentCore.Proofs.Geometry.Tiling
import TorrentCore.Proofs.PieceSet
import TorrentCore.Proofs.Reservation
import TorrentCore.Proofs.Selection
import TorrentCore.Proofs.Selection.Rarest
import TorrentCore.Proofs.Selection.Ties
import TorrentCore.Proofs.Session.Accounts
import TorrentCore.Proofs.Session.AddressBook
import TorrentCore.Proofs.Session.Addressing
import TorrentCore.Proofs.Session.Admission
import TorrentCore.Proofs.Session.Announcing
import TorrentCore.Proofs.Session.Answering
import TorrentCore.Proofs.Session.Assembling
import TorrentCore.Proofs.Session.Backlog
import TorrentCore.Proofs.Session.Board
import TorrentCore.Proofs.Session.Claims
import TorrentCore.Proofs.Session.Desk
import TorrentCore.Proofs.Session.Docket
import TorrentCore.Proofs.Session.Errand
import TorrentCore.Proofs.Session.Greeting
import TorrentCore.Proofs.Session.Handling
import TorrentCore.Proofs.Session.Holders
import TorrentCore.Proofs.Session.Learning
import TorrentCore.Proofs.Session.Listing
import TorrentCore.Proofs.Session.Merging
import TorrentCore.Proofs.Session.Outline
import TorrentCore.Proofs.Session.Owned
import TorrentCore.Proofs.Session.Parting
import TorrentCore.Proofs.Session.Pausing
import TorrentCore.Proofs.Session.Queueing
import TorrentCore.Proofs.Session.Register
import TorrentCore.Proofs.Session.Rest
import TorrentCore.Proofs.Session.Roster
import TorrentCore.Proofs.Session.Run
import TorrentCore.Proofs.Session.Shift
import TorrentCore.Proofs.Session.Soliciting
import TorrentCore.Proofs.Session.Station
import TorrentCore.Proofs.Session.Takings
import TorrentCore.Proofs.Session.Tally
import TorrentCore.Proofs.Session.Tenure
import TorrentCore.Proofs.Session.Turn
import TorrentCore.Proofs.Session.Uploading
import TorrentCore.Proofs.Session.Verified
import TorrentCore.Proofs.Session.Wanting
import TorrentCore.Proofs.Storage
import TorrentCore.Proofs.Storage.History
import TorrentCore.Proofs.Stream.Classification
import TorrentCore.Proofs.Stream.Cutting
import TorrentCore.Proofs.Stream.Delivery
import TorrentCore.Proofs.Stream.Feed
import TorrentCore.Proofs.Stream.Handshake
import TorrentCore.Proofs.Stream.ReadBuffer
import TorrentCore.Proofs.Swarm.Accord
import TorrentCore.Proofs.Swarm.Adding
import TorrentCore.Proofs.Swarm.Agreement
import TorrentCore.Proofs.Swarm.Books
import TorrentCore.Proofs.Swarm.Catalog
import TorrentCore.Proofs.Swarm.Correspondence
import TorrentCore.Proofs.Swarm.CrossedDials
import TorrentCore.Proofs.Swarm.Dialing
import TorrentCore.Proofs.Swarm.Dials
import TorrentCore.Proofs.Swarm.Filing
import TorrentCore.Proofs.Swarm.Incumbents
import TorrentCore.Proofs.Swarm.Encounter
import TorrentCore.Proofs.Swarm.Meeting
import TorrentCore.Proofs.Swarm.Pass
import TorrentCore.Proofs.Swarm.Reconciling
import TorrentCore.Proofs.Swarm.Restart
import TorrentCore.Proofs.Swarm.Slots
import TorrentCore.Proofs.Swarm.Stage
import TorrentCore.Proofs.Swarm.Talk
import TorrentCore.Proofs.Swarm.Verdicts
import TorrentCore.Proofs.Table
import TorrentCore.Proofs.Wire.Codec
import TorrentCore.Proofs.Wire.Fault
import TorrentCore.Proofs.Wire.Frame
import TorrentCore.Proofs.Wire.Handshake
import TorrentCore.Proofs.Wire.Partial
import TorrentCore.Proofs.Wire.Transcript
import TorrentCore.Report
import TorrentCore.Reservation
import TorrentCore.Reservation.Policy
import TorrentCore.Selection
import TorrentCore.Session.Action
import TorrentCore.Session.Consumer
import TorrentCore.Session.Membership
import TorrentCore.Session.Requester
import TorrentCore.Session.State
import TorrentCore.Session.Uploader
import TorrentCore.Settings.Document
import TorrentCore.Settings.Json
import TorrentCore.Settings.Options
import TorrentCore.Settings.Value
import TorrentCore.Simulation.Conversation
import TorrentCore.Simulation.Exchange
import TorrentCore.Simulation.Expiry
import TorrentCore.Simulation.Scene
import TorrentCore.Simulation.Schedule
import TorrentCore.Simulation.Turns
import TorrentCore.Storage
import TorrentCore.Stream.Feed
import TorrentCore.Stream.FeedReader
import TorrentCore.Stream.Pipe
import TorrentCore.Stream.ReadBuffer
import TorrentCore.Swarm.Action
import TorrentCore.Swarm.Attempts
import TorrentCore.Swarm.State
import TorrentCore.Swarm.Torrents
import TorrentCore.Table
import TorrentCore.Text.Printable
import TorrentCore.Text.Quoted
import TorrentCore.Wire.Handshake
import TorrentCore.Wire.Message
import TorrentCore.Wire.Transcript
