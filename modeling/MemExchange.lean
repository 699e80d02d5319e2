import MemExchange.Mtc.Freshness
import MemExchange.Mtc.Ownership
import MemExchange.Mtc.Roles
import MemExchange.Tenant.HandOff
import MemExchange.Tenant.Attach
import MemExchange.Cache.Coherence
import MemExchange.Cache.Resurrection
import MemExchange.Cache.Conditional
import MemExchange.Cache.Assoc
import MemExchange.Cache.Membership
import MemExchange.Shadow.ReuseDistance
import MemExchange.Slabs.Failure
import MemExchange.Slabs.Released
import MemExchange.Slabs.Accounting
import MemExchange.Slabs.Chunks
import MemExchange.Slabs.Victim
import MemExchange.Rdma.Responses
import MemExchange.Rdma.Limits
import MemExchange.Rdma.Estimator
import MemExchange.Rdma.Connections
import MemExchange.Rdma.Completions
import MemExchange.Slabs.Demand
import MemExchange.Slabs.Hits
import MemExchange.Tenant.Replies
import MemExchange.Shadow.Mirror
import MemExchange.Shadow.Balance
import MemExchange.Slabs.Pool
import MemExchange.Cache.Numbers
import MemExchange.Slabs.Classes
import MemExchange.Mtc.Ids
import MemExchange.Cache.Tokens
import MemExchange.Cache.Vectors
import MemExchange.Shadow.Overlaps
