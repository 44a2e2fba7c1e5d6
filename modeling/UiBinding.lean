import UiBinding.Document.Read
import UiBinding.Document.Write
import UiBinding.World
import UiBinding.Proofs.Coupling
import UiBinding.Proofs.Storage
import UiBinding.Proofs.Layout
import UiBinding.Proofs.Resolution
import UiBinding.Proofs.Alignment
import UiBinding.Proofs.Walk
import UiBinding.Proofs.Session
import UiBinding.Proofs.SlotTyping
import UiBinding.Proofs.ErrorClosure
import UiBinding.Proofs.Interference
import UiBinding.Proofs.Typing
import UiBinding.Proofs.Soundness
import UiBinding.Proofs.Members
import UiBinding.Proofs.Access
import UiBinding.Proofs.Separation
import UiBinding.Proofs.Traversal
import UiBinding.Proofs.Uniformity
import UiBinding.Proofs.Denotation
import UiBinding.Proofs.Transparency
import UiBinding.Proofs.Ownership
import UiBinding.Proofs.Assignment
import UiBinding.Proofs.Termination
import UiBinding.Proofs.Installation
import UiBinding.Proofs.CheckedStorage
import UiBinding.Proofs.DepthLimit
import UiBinding.Proofs.UnknownElement
import UiBinding.Proofs.Rows
import UiBinding.Proofs.RowEntry
import UiBinding.Proofs.RoundTrip
import UiBinding.Proofs.Spelling
import UiBinding.Proofs.Rendering
import UiBinding.Proofs.Grouping
import UiBinding.Proofs.Reporting
import UiBinding.Proofs.Enclosure
import UiBinding.Proofs.OutwardSearch
import UiBinding.Proofs.Nesting
import UiBinding.Proofs.SelfAssignment
import UiBinding.Proofs.ExactValue
import UiBinding.Proofs.Narrowing
import UiBinding.Proofs.SingleRounding
import UiBinding.Proofs.HalfAway
import UiBinding.Proofs.Emission
import UiBinding.Proofs.Inference
import UiBinding.Proofs.ColorPacking
import UiBinding.Proofs.AccessLaws
import UiBinding.Proofs.LostGrouping
import UiBinding.Proofs.Indifference
import UiBinding.Proofs.SegmentFilling
import UiBinding.Proofs.Equality
import UiBinding.Proofs.PositionalText
import UiBinding.Proofs.Delivery
