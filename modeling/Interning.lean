import Interning.Config.Environment
import Interning.Config.File
import Interning.Config.Overrides
import Interning.Config.Schema
import Interning.Config.Toml
import Interning.Interner.Process
import Interning.Json.Forms
import Interning.KeyMap.Snapshot
import Interning.Proofs.Machine.Comparison
import Interning.Proofs.Machine.Identity
import Interning.Proofs.Machine.Sequential
import Interning.Script
import Interning.Text.Quoted
import Interning.World.Content
import Interning.Proofs.Machine.Retention
import Interning.Proofs.Machine.Ledger
import Interning.Proofs.World.Operations
import Interning.Proofs.Machine.Isolation
import Interning.Proofs.World.Exchange
import Interning.Proofs.Machine.Vacancy
import Interning.Proofs.Session
import Interning.Proofs.Session.Ownership
import Interning.Proofs.Config.Forms
import Interning.Proofs.Interner.Process
import Interning.Proofs.Session.Modes
import Interning.Proofs.Session.Passthrough
import Interning.Proofs.Machine.Lending
import Interning.Proofs.Machine.Consuming
import Interning.Proofs.Machine.Foretelling
import Interning.Proofs.Interner.Batch
import Interning.Proofs.Session.Locks
import Interning.Proofs.Config.Overriding
import Interning.Proofs.Text.Letters
import Interning.Proofs.Saturation
import Interning.Proofs.Config.Names
import Interning.Proofs.World.Content
