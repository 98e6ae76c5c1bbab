import Retouch.Clock.Script
import Retouch.Fragment
import Retouch.Geometry.Drag
import Retouch.Geometry.Insertion
import Retouch.Geometry.Resize
import Retouch.Geometry.Snap
import Retouch.History.Recorder
import Retouch.Proofs.Clock.Order
import Retouch.Proofs.Editor.Conserved
import Retouch.Proofs.Editor.CropMark
import Retouch.Proofs.Editor.OneNode
import Retouch.Proofs.Editor.Outlook
import Retouch.Proofs.Editor.Refusal
import Retouch.Proofs.Editor.Search
import Retouch.Proofs.Editor.Selection
import Retouch.Proofs.Fragment.RoundTrip
import Retouch.Proofs.Fragment.Share
import Retouch.Proofs.Geometry.Anchor
import Retouch.Proofs.Geometry.Drag
import Retouch.Proofs.Geometry.Extent
import Retouch.Proofs.Geometry.Fit
import Retouch.Proofs.Geometry.Resize
import Retouch.Proofs.Geometry.Snap
import Retouch.Proofs.History.Burst
import Retouch.Proofs.Path.Canvas
import Retouch.Proofs.Path.Drawn
import Retouch.Proofs.Path.Image
import Retouch.Proofs.Path.Thumbnail
import Retouch.Proofs.Preview.Loading
import Retouch.Proofs.Session.Entering
import Retouch.Proofs.Session.Silence
import Retouch.Proofs.State.Override
import Retouch.Proofs.Template.Crop
import Retouch.Proofs.Template.Library
import Retouch.Proofs.Template.Malformed
import Retouch.Proofs.Template.Recovery
import Retouch.Proofs.Template.RoundTrip
import Retouch.Proofs.Template.Usable
import Retouch.Proofs.Value.Progress
import Retouch.Session.Editing
import Retouch.Session.Sample
