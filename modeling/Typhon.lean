import Typhon.Layout.AspectFraction
import Typhon.Layout.Conservation
import Typhon.Layout.ExactAgreement
import Typhon.Layout.InteractiveSize
import Typhon.Layout.Minimized
import Typhon.Layout.ResizeHandle
import Typhon.Layout.Rollback
import Typhon.Layout.SearchEnds
import Typhon.Workspace.Placement
import Typhon.Scanout.Planner
import Typhon.Commit.Pageflips
import Typhon.Effects.Disjoint
import Typhon.Input.BindingTable
import Typhon.Input.KeyboardLedger
import Typhon.Input.PointerButtons
import Typhon.Output.LayerShell
import Typhon.Output.SceneCoverage
import Typhon.Pointer.CanonicalRegion
import Typhon.Surfaces.CommitRuns
import Typhon.Surfaces.DamageRuns
import Typhon.Surfaces.OpaqueRegion
import Typhon.Surfaces.Popup
import Typhon.Surfaces.ReleaseRuns
import Typhon.Timing.TimingRuns
import Typhon.Toplevels.Collected
import Typhon.Xwayland.Association
import Typhon.Xwayland.ConfigureTimeline
import Typhon.Xwayland.IncomingRuns
import Typhon.Xwayland.OutgoingRuns
import Typhon.Xwayland.RequestorBooks
