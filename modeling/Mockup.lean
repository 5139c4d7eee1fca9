import Mockup.Disk.Folder
import Mockup.Main
import Mockup.Proofs.Text.Span
import Mockup.Proofs.Jsx.Cursor
import Mockup.Proofs.Jsx.Move
import Mockup.Proofs.Jsx.Walk
import Mockup.Proofs.Jsx.DocumentOrder
import Mockup.Proofs.Json.Number
import Mockup.Proofs.Json.Quoted
import Mockup.Proofs.Jsx.AttributeEdit
import Mockup.Proofs.Jsx.Component
import Mockup.Proofs.Jsx.Name
import Mockup.Proofs.Jsx.PlanRoundTrip
import Mockup.Proofs.Jsx.TreeRoundTrip
import Mockup.Proofs.Jsx.LoneText
import Mockup.Proofs.Jsx.Recorded
import Mockup.Proofs.Patch.Classes
import Mockup.Proofs.Patch.Outcomes
import Mockup.Proofs.Patch.SetAttribute
import Mockup.Proofs.Patch.Twice
import Mockup.Proofs.Plan.Binding
import Mockup.Proofs.Markup.Pruned
import Mockup.Proofs.Session.Fallback
import Mockup.Proofs.Session.Generated
import Mockup.Proofs.CommandLine.Patch
import Mockup.Proofs.Interchange
import Mockup.Proofs.Patch.Reading
import Mockup.Proofs.Jsx.Texts
import Mockup.Proofs.Session.ControlNames
import Mockup.Proofs.Jsx.Innermost
import Mockup.Proofs.Jsx.Alone
import Mockup.Proofs.Palette.Overlay
import Mockup.Proofs.CommandLine.Containment
import Mockup.Proofs.Patch.Confined
import Mockup.Proofs.Patch.FurtherAttribute
import Mockup.Proofs.Patch.InsertAfter
import Mockup.Proofs.Jsx.ByteScan
import Mockup.Proofs.Ui.Accepted
import Mockup.Proofs.Markup.Scheme
import Mockup.Proofs.Ui.Flat
import Mockup.Proofs.Markup.Attributes
import Mockup.Proofs.Tailwind.Edits
import Mockup.Proofs.Ui.Reported
import Mockup.Proofs.Session.Names
import Mockup.Proofs.Ui.InputForm
import Mockup.Proofs.Tailwind.Distances
import Mockup.Proofs.Jsx.FirstAttribute
import Mockup.Proofs.Patch.StaticClasses
