import DbusBroker.CString
import DbusBroker.CRBTree
import DbusBroker.Decision
import DbusBroker.KeyedStore
import DbusBroker.Ownership
import DbusBroker.OwnershipRuns
import DbusBroker.Connection
import DbusBroker.ConnectionRuns
import DbusBroker.Transmission
import DbusBroker.TransmissionRuns
import DbusBroker.TransmissionFailures
import DbusBroker.Parser
