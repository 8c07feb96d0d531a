import MeshSpan.Audit
import MeshSpan.Enumeration
import MeshSpan.Store.Agreement
import MeshSpan.Cluster.Logs
import MeshSpan.Stage.File
import MeshSpan.Reconciliation.Order
import MeshSpan.Placement.Minimal
import MeshSpan.Branch.Listing
import MeshSpan.Handles.Histories
import MeshSpan.Access.Tree
import MeshSpan.Access.Lifetime
import MeshSpan.Cleanup.Authority
import MeshSpan.Maintenance.Stranded
import MeshSpan.Quorum.Exact
