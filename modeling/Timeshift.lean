import Timeshift.Main
import Timeshift.Recorder
import Timeshift.Proofs.Entry
import Timeshift.Proofs.Index.Order
import Timeshift.Proofs.Index.Handle
import Timeshift.Proofs.Index.Sharing
import Timeshift.Proofs.Index.Searching
import Timeshift.Proofs.Index.Scanning
import Timeshift.Proofs.Index.Bounds
import Timeshift.Proofs.Json.RoundTrip
import Timeshift.Proofs.Manifest.RoundTrip
import Timeshift.Proofs.Result
import Timeshift.Proofs.Path.Join
import Timeshift.Proofs.Path.Names
import Timeshift.Proofs.Disk.Places
import Timeshift.Proofs.Disk.Sound
import Timeshift.Proofs.Disk.Replace
import Timeshift.Proofs.Disk.Stopped
import Timeshift.Proofs.Disk.Directories
import Timeshift.Proofs.Disk.Contents
import Timeshift.Proofs.Disk.Beside
import Timeshift.Proofs.Segment
import Timeshift.Proofs.Recording.Asking
import Timeshift.Proofs.Recording.Steps
import Timeshift.Proofs.Recording.Storing
import Timeshift.Proofs.Manifest.Atomic
import Timeshift.Proofs.Manifest.Documented
import Timeshift.Proofs.Recording.Representation
import Timeshift.Proofs.Recording.Attached
import Timeshift.Proofs.Recording.Flat
import Timeshift.Proofs.Recording.Handles
import Timeshift.Proofs.Recording.Confined
import Timeshift.Proofs.Player.Clamping
import Timeshift.Proofs.Player.Outside
import Timeshift.Proofs.Recorder.Naming
import Timeshift.Proofs.Recorder.Takes
import Timeshift.Proofs.Recorder.Follows
import Timeshift.Proofs.Recorder.Rotation
import Timeshift.Proofs.Recorder.Apart
import Timeshift.Proofs.Recorder.Live
import Timeshift.Proofs.Recorder.EndToEnd
import Timeshift.Proofs.Recorder.Failing
import Timeshift.Proofs.Recorder.Seeking
import Timeshift.Proofs.Recorder.Views
import Timeshift.Proofs.Recorder.Resuming
import Timeshift.Proofs.Recorder.Signals
import Timeshift.Proofs.Recorder.Numbering
import Timeshift.Proofs.Recorder.Handing
import Timeshift.Proofs.Recorder.Histories
import Timeshift.Proofs.Recording.Samples
import Timeshift.Proofs.Recording.Stable
import Timeshift.Proofs.Recording.Making
import Timeshift.Proofs.Recording.Refusing
import Timeshift.Proofs.Recording.Sealed
import Timeshift.Proofs.Recording.Ascending
import Timeshift.Proofs.Recording.Stops
import Timeshift.Proofs.Recording.Readers
import Timeshift.Proofs.Index.Recovery
import Timeshift.Proofs.Index.Failing
import Timeshift.Proofs.Index.Format
import Timeshift.Proofs.Index.Lifetime
import Timeshift.Proofs.Command.Agreement
import Timeshift.Proofs.Command.Sessions
import Timeshift.Proofs.Manifest.Verdict
