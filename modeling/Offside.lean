import Offside.Check
import Offside.Json.Forms
import Offside.Json.Text
import Offside.Proofs.Chronicle
import Offside.Proofs.Colors
import Offside.Proofs.Contiguous
import Offside.Proofs.Coverage
import Offside.Proofs.Exactness
import Offside.Proofs.Failure
import Offside.Proofs.FileTable
import Offside.Proofs.Forms
import Offside.Proofs.Invisible
import Offside.Proofs.Labels
import Offside.Proofs.LineTable
import Offside.Proofs.Linear
import Offside.Proofs.Measure
import Offside.Proofs.Munch
import Offside.Proofs.Nesting
import Offside.Proofs.Reason
import Offside.Proofs.Relocation
import Offside.Proofs.Restyling
import Offside.Proofs.RoundTrip
import Offside.Proofs.Separation
import Offside.Proofs.SingleStep
import Offside.Proofs.Terminator
import Offside.Proofs.Underline
