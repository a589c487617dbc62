import Arbiter.Daemon.Hub
import Arbiter.Client.Basic
import Arbiter.Broker.Operation
import Arbiter.Table
import Arbiter.Capture
import Arbiter.Frame
import Arbiter.Text.Decimal
import Arbiter.Message.Decode
import Arbiter.Message.Encode
import Arbiter.Errno
import Arbiter.Toml.Document
import Arbiter.Settings.Load
import Arbiter.Command
import Arbiter.Broker.Rooms
import Arbiter.Main
import Arbiter.Message.Bounds
import Arbiter.Proofs.Broker.Arena
import Arbiter.Proofs.Broker.Results
import Arbiter.Proofs.Message.Records
import Arbiter.Proofs.Message.RoundTrip
import Arbiter.Proofs.Broker.Confinement
import Arbiter.Proofs.Broker.Carriage
import Arbiter.Proofs.Broker.Fanout
import Arbiter.Proofs.Daemon.Clients
import Arbiter.Proofs.Daemon.Ledger
import Arbiter.Proofs.Daemon.Admission
import Arbiter.Proofs.Daemon.Upkeep
import Arbiter.Proofs.Daemon.Runs
import Arbiter.Proofs.Daemon.Verdicts
import Arbiter.Proofs.Daemon.Vigil
import Arbiter.Proofs.Message.Verification
import Arbiter.Proofs.Message.Decodability
import Arbiter.Proofs.Message.Grammar
import Arbiter.Proofs.Message.Recognition
import Arbiter.Proofs.Broker.Refusals
import Arbiter.Proofs.Broker.Dossier
import Arbiter.Proofs.Broker.Noninterference
import Arbiter.Proofs.Broker.Recollection
import Arbiter.Proofs.Client.Rejections
import Arbiter.Proofs.Client.Bookkeeping
import Arbiter.Proofs.Daemon.Outbound
import Arbiter.Proofs.Daemon.Defaults
import Arbiter.Proofs.Daemon.Delegations
import Arbiter.Proofs.Daemon.Shutdown
import Arbiter.Proofs.Daemon.Discipline
import Arbiter.Proofs.Dialogue.Agreement
import Arbiter.Proofs.Transaction.Lifecycle
import Arbiter.Proofs.Transaction.Custody
import Arbiter.Proofs.Message.Canonical
import Arbiter.Proofs.Capture.Walk
import Arbiter.Proofs.Frame.Division
import Arbiter.Proofs.Message.Trailer
import Arbiter.Proofs.Broker.Departure
import Arbiter.Proofs.Broker.Decision
import Arbiter.Proofs.Broker.Subscriptions
import Arbiter.Proofs.Broker.Recipients
import Arbiter.Proofs.Message.Truncation
import Arbiter.Proofs.Capture.Stream
import Arbiter.Proofs.Watch.Conduct
import Arbiter.Proofs.Daemon.Rounds
import Arbiter.Proofs.Message.Bounds
import Arbiter.Proofs.Message.Capacity
import Arbiter.Proofs.Message.Tokens
import Arbiter.Proofs.Settings.Precedence
import Arbiter.Proofs.Message.Edits
import Arbiter.Proofs.Message.Chains
