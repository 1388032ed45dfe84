import Runscope.Abandonment
import Runscope.Accounting
import Runscope.ArtifactRows
import Runscope.ArtifactStores
import Runscope.Authorship
import Runscope.Backlog
import Runscope.BrokerLoop
import Runscope.CatalogRows
import Runscope.Comparison
import Runscope.Completion
import Runscope.Conflicts
import Runscope.Consumer
import Runscope.Coupling
import Runscope.Demonstration
import Runscope.Dispatcher
import Runscope.Fencing
import Runscope.Fleet
import Runscope.Gateway
import Runscope.Leases
import Runscope.Ledger
import Runscope.Lineage
import Runscope.LiveStream
import Runscope.Logging
import Runscope.Outage
import Runscope.Publication
import Runscope.Reconciliation
import Runscope.SchedulingOrder
import Runscope.StoredParameters
import Runscope.TagFilter
import Runscope.Telemetry
import Runscope.Timeline
