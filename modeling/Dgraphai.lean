import Dgraphai.Accounts
import Dgraphai.ActionLog
import Dgraphai.AgentDelivery
import Dgraphai.AgentKeys
import Dgraphai.AlertCooldown
import Dgraphai.ArrowStream
import Dgraphai.AttackPath
import Dgraphai.BillingTiers
import Dgraphai.BreakerEpochs
import Dgraphai.BreakerSafety
import Dgraphai.CanonicalPaths
import Dgraphai.ClientLimits
import Dgraphai.ConnectorStore
import Dgraphai.Connectors
import Dgraphai.CredentialRaces
import Dgraphai.CsvStream
import Dgraphai.CveSync
import Dgraphai.DedupRuns
import Dgraphai.Deprovisioning
import Dgraphai.DiskQueue
import Dgraphai.DrainOrder
import Dgraphai.EdgeChunks
import Dgraphai.EmailOwners
import Dgraphai.ErasureRaces
import Dgraphai.FileActions
import Dgraphai.FileMetadata
import Dgraphai.FileWalks
import Dgraphai.FleetMesh
import Dgraphai.FleetProbes
import Dgraphai.Fleets
import Dgraphai.Gateway
import Dgraphai.GatewayAuth
import Dgraphai.GraphApi
import Dgraphai.GraphApiIsolation
import Dgraphai.GraphNeighbors
import Dgraphai.GraphRows
import Dgraphai.IngestDelivery
import Dgraphai.IngestIsolation
import Dgraphai.InventoryClauses
import Dgraphai.InventoryCounts
import Dgraphai.InventoryFilters
import Dgraphai.InventoryIsolation
import Dgraphai.InventorySearch
import Dgraphai.InventorySelection
import Dgraphai.InventoryTotals
import Dgraphai.JsonlStream
import Dgraphai.Lib.Csv
import Dgraphai.Lib.CypherCount
import Dgraphai.Lib.CypherPredicate
import Dgraphai.Lib.GraphPath
import Dgraphai.Lib.LexicalPath
import Dgraphai.Lib.PurePath
import Dgraphai.Lib.PyDict
import Dgraphai.Lib.PyFloat
import Dgraphai.Lib.PySub
import Dgraphai.Lib.Regex
import Dgraphai.Lib.Separated
import Dgraphai.Lib.SortedSets
import Dgraphai.Lib.Tar
import Dgraphai.LicenseRuns
import Dgraphai.LocalEnricher
import Dgraphai.LocalQueries
import Dgraphai.LocalWalk
import Dgraphai.Lockout
import Dgraphai.Metering
import Dgraphai.MfaEnrollment
import Dgraphai.Neighborhood
import Dgraphai.NodeIdentity
import Dgraphai.OidcTenants
import Dgraphai.ParentEdges
import Dgraphai.Provisioning
import Dgraphai.ProxyCalls
import Dgraphai.ProxyReplica
import Dgraphai.ProxyTenants
import Dgraphai.ProxyWire
import Dgraphai.QueryBuilder
import Dgraphai.QueryEdits
import Dgraphai.QueryPrivacy
import Dgraphai.QueryText
import Dgraphai.QueueOrder
import Dgraphai.QueueOutage
import Dgraphai.QueueRaces
import Dgraphai.RateLimiter
import Dgraphai.Reenrichment
import Dgraphai.ReplayOrder
import Dgraphai.Revocation
import Dgraphai.RoleAssignments
import Dgraphai.RoleIsolation
import Dgraphai.RoleStore
import Dgraphai.SavedQueries
import Dgraphai.ScanChunks
import Dgraphai.ScanDelivery
import Dgraphai.ScannerSync
import Dgraphai.ScimListing
import Dgraphai.ScopeFilter
import Dgraphai.SendFallback
import Dgraphai.Severity
import Dgraphai.SharedBackend
import Dgraphai.SilentAgents
import Dgraphai.StalePaths
import Dgraphai.StoredFiles
import Dgraphai.StreamIsolation
import Dgraphai.StreamRanking
import Dgraphai.StreamRouter
import Dgraphai.StreamScores
import Dgraphai.SyncBackoff
import Dgraphai.SyncConfig
import Dgraphai.SyncConfinement
import Dgraphai.SyncOverlap
import Dgraphai.TenantScope
import Dgraphai.Usage
import Dgraphai.WebDataset
import Dgraphai.WebhookDelivery
import Dgraphai.WorkflowApprovers
import Dgraphai.WorkflowCanvas
import Dgraphai.WorkflowGates
import Dgraphai.WorkflowPending
import Dgraphai.WorkflowRaces
import Dgraphai.WorkflowTermination
import Dgraphai.WorkflowVariables
import Dgraphai.WriteGates
import Dgraphai.CalmRequests
import Dgraphai.MailedTokens
