import Stencil.Main
import Stencil.Proofs.Arrangement.GroupFlag
import Stencil.Proofs.Arrangement.Replay
import Stencil.Proofs.Placeholder.Nesting
import Stencil.Proofs.Program.Form
import Stencil.Proofs.Schema.Order
import Stencil.Proofs.Session.Failure
import Stencil.Proofs.Word.FilledDocument
import Stencil.Proofs.Schema.Wire
import Stencil.Proofs.Session.Repetition
import Stencil.Proofs.Catalog.Table
import Stencil.Proofs.Word.Links
import Stencil.Proofs.Word.Order
import Stencil.Proofs.Stamping.Part
import Stencil.Proofs.Placeholder.MergedRecord
import Stencil.Proofs.Routing.Partition
import Stencil.Proofs.Placeholder.Group
import Stencil.Proofs.Schema.Preview
import Stencil.Proofs.Schema.Grouping
import Stencil.Proofs.Arrangement.Reorder
import Stencil.Proofs.Arrangement.Refusal
import Stencil.Proofs.Schema.Keys
import Stencil.Proofs.Package.ExtractedTokens
import Stencil.Proofs.Calendar
import Stencil.Proofs.Arrangement.Options
import Stencil.Proofs.Placeholder.DisplayName
import Stencil.Proofs.Word.ParagraphListing
