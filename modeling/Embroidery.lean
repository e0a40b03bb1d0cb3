import Embroidery.Files.Workspace
import Embroidery.Main
import Embroidery.Proofs.Instruction.Reread
import Embroidery.Proofs.Preview.Decoding
import Embroidery.Proofs.Preview.Name
import Embroidery.Proofs.Program.Anchor
import Embroidery.Proofs.Program.Extent
import Embroidery.Proofs.Program.Latches
import Embroidery.Proofs.Program.Progress
import Embroidery.Proofs.Program.Targets
import Embroidery.Proofs.Program.Thread
import Embroidery.Proofs.Text.Utf8
import Embroidery.Proofs.Files.Script
import Embroidery.Proofs.Preview.Stored
import Embroidery.Proofs.Files.Workspace
import Embroidery.Proofs.Session.Production
import Embroidery.Proofs.Session.History
import Embroidery.Proofs.Document.Json
import Embroidery.Proofs.Document.Toml.Text
import Embroidery.Proofs.Document.Toml.Values
import Embroidery.Proofs.Document.Toml.RoundTrip
import Embroidery.Proofs.Settings.Record
import Embroidery.Proofs.Settings.Storage
import Embroidery.Proofs.Number.Quotient
import Embroidery.Proofs.Parameters
import Embroidery.Proofs.Program.Profile
import Embroidery.Proofs.Settings.Acceptance
import Embroidery.Proofs.Number.Integer
import Embroidery.Proofs.Instruction.Reading
import Embroidery.Proofs.Instruction.Rewriting
import Embroidery.Proofs.Instruction.PauseCode
import Embroidery.Proofs.Number.Distance
import Embroidery.Proofs.Program.Clearance
import Embroidery.Proofs.Program.AllSewn
import Embroidery.Proofs.Preview.StitchCounts
import Embroidery.Proofs.Program.Delivery
import Embroidery.Proofs.Preview.Colors
import Embroidery.Proofs.Session.Sinks
import Embroidery.Proofs.Session.Ownership
import Embroidery.Proofs.Document.Toml.NullFree
import Embroidery.Proofs.Files.Folders
import Embroidery.Proofs.Settings.Reloading
import Embroidery.Proofs.Command.Generate
import Embroidery.Proofs.Settings.Recent
import Embroidery.Proofs.Number.LetterCase
import Embroidery.Proofs.Instruction.Presentation
