import Miral.FocusStays
import Miral.FocusTrace
import Miral.FocusAgreement
import Miral.RoundTrip
import Miral.Atomicity
import Miral.TilingDisplays
import Miral.DecorationProvider
import Miral.FullscreenPlacement
import Miral.WorkspaceRelation
import Miral.WorkspaceNotifications
import Miral.WorkspaceShape
import Miral.HiddenRequests
import Miral.WorkspaceVisibility
import Miral.Resizing
import Miral.ChildPlacement
import Miral.Cycling
import Miral.FocusReturn
import Miral.RaiseTree
import Miral.Dragging
import Miral.Rotation
import Miral.InitialPlacement
import Miral.Tiling
import Miral.TilingPolicy
import Miral.Retiling
import Miral.TiledMovement
import Miral.TiledRequests
import Miral.FullscreenGeometry
import Miral.NextApplication
import Miral.TiledPlacement
import Miral.InteractiveResize
import Miral.MRUWindowList
import Miral.Enumeration
import Miral.Library.Recency
import Miral.XCursorRoundTrip
import Miral.XCursorSafety
import Miral.TilingRuns
import Miral.DeskRuns
import Miral.XCursorInheritance
import Miral.Keymap
import Miral.ResizeGesture
