import Taproot.Batches
import Taproot.Clearing
import Taproot.Compacting
import Taproot.Composing
import Taproot.Compressing
import Taproot.Concurrent
import Taproot.Config
import Taproot.Constructing
import Taproot.Conversing
import Taproot.Exclusive
import Taproot.FixedPoints
import Taproot.Flusher
import Taproot.Framing
import Taproot.Isolation
import Taproot.Lines
import Taproot.Listening
import Taproot.Liveness
import Taproot.Naming
import Taproot.Observing
import Taproot.Ports
import Taproot.Quoting
import Taproot.Recovery
import Taproot.Repeating
import Taproot.Replies
import Taproot.Restoring
import Taproot.Serving
import Taproot.Sessions
import Taproot.Showing
import Taproot.Shrinking
import Taproot.Skipping
import Taproot.Snapshot
import Taproot.Startup
import Taproot.Surviving
import Taproot.Switching
import Taproot.Terminal
