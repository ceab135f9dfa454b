import Covenant.Interaction
import Covenant.Labelled
import Covenant.Outcome
import Covenant.Lists
import Covenant.Batching
import Covenant.Reactor
import Covenant.Registry
import Covenant.Hex
import Covenant.Bitcoin
import Covenant.Types
import Covenant.Emulator
import Covenant.Signing
import Covenant.Loop
import Covenant.Reference
import Covenant.Gate
import Covenant.Runs
import Covenant.Ticks
import Covenant.UnbondingTime
import Covenant.Batches
import Covenant.Lifecycle
import Covenant.Controller
import Covenant.Member
import Covenant.Records
import Covenant.Chain
import Covenant.Committee
import Covenant.Agreement
import Covenant.Paging
import Covenant.Calls
import Covenant.Conversion
import Covenant.Messages
import Covenant.Crash
import Covenant.Configuration
import Covenant.Provenance
import Covenant.Stalls
import Covenant.Shutdown
import Covenant.Service
import Covenant.Quorum
import Covenant.Attestation
import Covenant.Refinement
import Covenant.Survival
import Covenant.Cursor
import Covenant.FinalityProviders
import Covenant.Stateful
import Covenant.Keys
import Covenant.Commands
import Covenant.Session
import Covenant.Unedited
