import Solovey.Broker.Admission
import Solovey.Broker.Chain
import Solovey.Operations.Holding
import Solovey.Operations.Exclusion
import Solovey.Operations.Fencing
import Solovey.Tracker.Conservation
import Solovey.IPMonitor.Limit
import Solovey.IPMonitor.Retention
import Solovey.Devices.Allocation
import Solovey.Devices.Rotation
import Solovey.Network.Admitted
import Solovey.Network.Acceptance
import Solovey.Network.Drift
import Solovey.Network.Duration
import Solovey.Restart.Ownership
import Solovey.Graylist.Schedule
import Solovey.Sessions.Revocation
import Solovey.Accounts.RecoveryCodes
import Solovey.Backup.Integrity
import Solovey.Ssh.Ending
import Solovey.RateLimit.Sliding
import Solovey.RateLimit.Sweeps
import Solovey.Paid.Work
import Solovey.Paid.Quota
import Solovey.Order.Reorder
import Solovey.RemoteOutbound.Tagging
import Solovey.RemoteOutbound.References
import Solovey.RemoteOutbound.Members
import Solovey.Accounts.Renewal
import Solovey.Migration.Plan
import Solovey.Subscriptions.Ports
import Solovey.Migration.Order
