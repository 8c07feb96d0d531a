import MeshSpan.Branch.Namespace
import MeshSpan.Repository

/- Replicated cleanup of unreachable versions: the tables and the commands.

   Bytes may be destroyed only with a removal permit. A cleanup is proposed for one
   version, every gateway attests that it holds no reference, the cleanup is
   authorised or cancelled, the shards to remove are listed and the list is sealed,
   and then each item gets short-lived permits until its provider reports a
   tombstone and, later, the reclaimed bytes.

   Correspondence (Rust ↔ Lean)
     version_cleanup.rs      version_cleanup_intents            `Intent`
     cleanup_attestation.rs  version_cleanup_participants       `Participant`
                             cleanup_attestation_keys           `AttestationKey`
     cleanup_inventory.rs    version_cleanup_inventories, _items  `Inventory`, `Item`
     cleanup_permit.rs       version_cleanup_permit_attempts    `Attempt`
     cleanup_completion.rs   _item_completions, _completions    `Completion`, `Summary`
     cleanup_reclamation.rs  _item_reclamations, _reclamations  `Reclamation`, `Summary`
     reachability.rs         retained_root_summary              `retainedRoots`
     command.rs              the ten commands                   `Command`

   Everything that other commands write (nodes, roles, voters, heads, snapshots,
   backups, policies) is one `Environment`, which a step may replace by any other. -/

namespace MeshSpan.Cleanup

open Rows Repository

abbrev MeshId := Nat
abbrev VerifyingKey := Nat
abbrev Signature := Nat

/-- Ed25519 as the code uses it: which keys parse, and which signatures a key accepts. -/
structure SignatureScheme where
  validKey : VerifyingKey → Bool
  verify : VerifyingKey → Digest → Signature → Bool

/-! ## What other commands write -/

structure Node where
  nodeId : NodeId
  currentIncarnation : Nat
  /-- `state IN (1, 2)` -/
  member : Bool

structure NodeRole where
  nodeId : NodeId
  roleCode : Nat

structure PartitionVoter where
  nodeId : NodeId
  /-- `state IN (1, 2)` -/
  member : Bool

structure VolumeHead where
  volumeId : VolumeId
  headSequence : Nat
  namespaceCommitId : NamespaceCommitId
  rootObjectRevisionId : ObjectRevisionId

structure VolumeSnapshot where
  snapshotId : SnapshotId
  volumeId : VolumeId
  namespaceCommitId : NamespaceCommitId
  rootObjectRevisionId : ObjectRevisionId
  /-- `state IN (1, 2)`: active or expiring -/
  retained : Bool

structure BackupRoot where
  volumeId : VolumeId
  namespaceCommitId : NamespaceCommitId

structure RetentionPolicy where
  volumeId : VolumeId
  policySequence : Nat

/-- The tables that no cleanup command writes. A node has one row. -/
structure Environment where
  nodes : List Node
  roles : List NodeRole
  voters : List PartitionVoter
  heads : List VolumeHead
  snapshots : List VolumeSnapshot
  backups : List BackupRoot
  policies : List RetentionPolicy
  meshes : List MeshId
  nodesKeyed : Keyed Node.nodeId nodes

variable (env : Environment)

/-- A node that serves the filesystem: it has the gateway role, or no role and a vote. -/
def isGateway (node : Node) : Bool :=
  node.member &&
  (env.roles.any (fun role => role.nodeId == node.nodeId && role.roleCode == 2) ||
    (!(env.roles.any (·.nodeId == node.nodeId)) &&
      env.voters.any fun voter => voter.nodeId == node.nodeId && voter.member))

def gateways : List Node := env.nodes.filter (isGateway env)

def currentParticipantCount : Nat := (gateways env).length

inductive RootSource where
  | convergedHead (volumeId : VolumeId)
  | snapshot (snapshotId : SnapshotId)
  | backup (namespaceCommitId : NamespaceCommitId)
deriving DecidableEq

structure RetainedRoot where
  source : RootSource
  namespaceCommitId : NamespaceCommitId
  rootObjectRevisionId : ObjectRevisionId
deriving DecidableEq

/-- The latest head of a volume, its kept snapshots and its backed-up roots, each once. -/
def retainedRoots (volume : VolumeId) : List RetainedRoot :=
  ((env.heads.filter fun head => head.volumeId == volume &&
      env.heads.all fun other => other.volumeId != volume ||
        (other.headSequence ≤ head.headSequence)).map fun head =>
    ⟨.convergedHead volume, head.namespaceCommitId, head.rootObjectRevisionId⟩) ++
  ((env.snapshots.filter fun row => row.volumeId == volume && row.retained).map fun row =>
    ⟨.snapshot row.snapshotId, row.namespaceCommitId, row.rootObjectRevisionId⟩) ++
  ((env.backups.filter (·.volumeId == volume)).flatMap fun row =>
    (env.heads.filter fun head => head.volumeId == volume &&
        head.namespaceCommitId == row.namespaceCommitId).map fun head =>
      (⟨.backup row.namespaceCommitId, row.namespaceCommitId, head.rootObjectRevisionId⟩ :
        RetainedRoot)).dedup

/-! ## Digests -/

def chained (parts : List Digest) : Digest := parts.foldl .join (.framed "" [])

def RootSource.fields : RootSource → List Int
  | .convergedHead volume => [1, volume]
  | .snapshot id => [2, id]
  | .backup commit => [3, commit]

def retainedRootRecordDigest (root : RetainedRoot) : Digest :=
  .framed "meshspan.retained-namespace-root.v1"
    (root.source.fields ++ [(root.namespaceCommitId : Int), root.rootObjectRevisionId])

structure RetainedRootSummary where
  count : Nat
  (revisionDigest setDigest : Digest)

/-- The digests of the retained roots, bound to a revision and not. -/
def rootSummary (volume : VolumeId) (revision : Revision) : RetainedRootSummary where
  count := (retainedRoots env volume).length
  revisionDigest := .over "meshspan.retained-namespace-roots.v1"
    (chained ((retainedRoots env volume).map retainedRootRecordDigest)) [(volume : Int), revision]
  setDigest := .over "meshspan.retained-namespace-root-set.v1"
    (chained ((retainedRoots env volume).map retainedRootRecordDigest)) [(volume : Int)]

def reachabilityResultDigest (scan : OperationId) (request localRoots : Digest) : Digest :=
  .over "meshspan.version-reachability-result.v1" (.join request localRoots) [(scan : Int), 4]

/-! ## Cleanup tables -/

/-- Where a proposal stands; the terminal operation, revision and instant go with the state. -/
inductive IntentState where
  | pending
  | authorised (operationId : OperationId) (revision : Revision) (at' : UnixMicros)
  | cancelled (operationId : OperationId) (revision : Revision) (at' : UnixMicros)
deriving DecidableEq

structure Intent where
  cleanupOperationId : OperationId
  volumeId : VolumeId
  versionId : FileVersionId
  manifestId : ContentManifestId
  manifestRootDigest : Digest
  sourceScanOperationId : OperationId
  (scanRequestDigest reachabilitySubjectDigest : Digest)
  retentionPolicySequence : Nat
  reachabilityRevision : Revision
  retainedRootCount : Nat
  (retainedRootDigest retainedRootSetDigest localRootsDigest proofResultDigest : Digest)
  requiredAttestationCount : Nat
  proposedAt : UnixMicros
  revision : Revision
  state : IntentState

structure SignedScan where
  attestationOperationId : OperationId
  keyGeneration : Nat
  scanOperationId : OperationId
  (scanRequestDigest reachabilitySubjectDigest localRootsDigest scanResultDigest : Digest)
  signature : Signature
  attestedAt : UnixMicros

structure Participant where
  cleanupOperationId : OperationId
  nodeId : NodeId
  nodeIncarnation : Nat
  attested : Option SignedScan
  revision : Revision

structure AttestationKey where
  nodeId : NodeId
  generation : Nat
  verifyingKey : VerifyingKey
  active : Bool

structure Seal where
  operationId : OperationId
  at' : UnixMicros
  revision : Revision

structure Inventory where
  cleanupOperationId : OperationId
  (cleanupRevision authorisationRevision : Revision)
  (expectedItemCount itemCount : Nat)
  rollingDigest : Digest
  lastAppendRevision : Revision
  sealed : Option Seal

structure ShardIdentity where
  manifestDigest : Digest
  (stripeIndex shardIndex generation : Nat)
deriving DecidableEq

structure Item where
  cleanupOperationId : OperationId
  itemIndex : Nat
  removalOperationId : OperationId
  shard : ShardIdentity
  targetId : TargetId
  targetGeneration : Nat
  storageNodeId : NodeId
  revision : Revision
deriving DecidableEq

structure RemovalPermit where
  operationId : OperationId
  meshId : MeshId
  targetId : TargetId
  shard : ShardIdentity
  (targetGeneration authorityEpoch : Nat)
  catalogueRevision : Revision
  expiresAt : UnixMicros
  permitDigest : Digest

/-- A row of `version_cleanup_permit_attempts`: the permit without what its item says. -/
structure Attempt where
  cleanupOperationId : OperationId
  (itemIndex attemptSequence : Nat)
  permitOperationId : OperationId
  meshId : MeshId
  authorityEpoch : Nat
  (issuedAt expiresAt : UnixMicros)
  permitDigest : Digest
  issueOperationId : OperationId
  revision : Revision
deriving DecidableEq

/-- The permit that a row and its item stand for (`decode_attempt`). -/
def Attempt.permit (attempt : Attempt) (item : Item) : RemovalPermit where
  operationId := attempt.permitOperationId
  meshId := attempt.meshId
  targetId := item.targetId
  shard := item.shard
  targetGeneration := item.targetGeneration
  authorityEpoch := attempt.authorityEpoch
  catalogueRevision := attempt.revision
  expiresAt := attempt.expiresAt
  permitDigest := attempt.permitDigest

structure TombstoneReceipt where
  operationId : OperationId
  shard : ShardIdentity
  targetId : TargetId
  targetGeneration : Nat
  (permitDigest tombstoneDigest : Digest)
deriving DecidableEq

structure ReclamationReceipt where
  tombstone : TombstoneReceipt
  bytesUnlinkedAt : UnixMicros
  reclaimedBytes : Nat
  reclamationDigest : Digest

structure Completion where
  cleanupOperationId : OperationId
  (itemIndex permitAttemptSequence : Nat)
  receipt : TombstoneReceipt
  reporterNodeId : NodeId
  reporterIncarnation : Nat
  completionOperationId : OperationId
  completedAt : UnixMicros
  revision : Revision

structure Reclamation where
  cleanupOperationId : OperationId
  itemIndex : Nat
  receipt : ReclamationReceipt
  reporterNodeId : NodeId
  reporterIncarnation : Nat
  reclamationOperationId : OperationId
  reclaimedAt : UnixMicros
  revision : Revision

/-- The summary of all completions, or of all reclamations, of one cleanup. -/
structure Summary where
  cleanupOperationId : OperationId
  (itemCount reclaimedBytes : Nat)
  digest : Digest
  operationId : OperationId
  at' : UnixMicros
  revision : Revision

structure Store where
  revision : Revision
  operations : List OperationId
  env : Environment
  keys : List AttestationKey
  intents : List Intent
  participants : List Participant
  inventories : List Inventory
  items : List Item
  attempts : List Attempt
  completions : List Completion
  completionSummaries : List Summary
  reclamations : List Reclamation
  reclamationSummaries : List Summary

def emptyEnvironment : Environment where
  nodes := []
  roles := []
  voters := []
  heads := []
  snapshots := []
  backups := []
  policies := []
  meshes := []
  nodesKeyed := by decide

def emptyStore : Store where
  revision := 0
  operations := []
  env := emptyEnvironment
  keys := []
  intents := []
  participants := []
  inventories := []
  items := []
  attempts := []
  completions := []
  completionSummaries := []
  reclamations := []
  reclamationSummaries := []

/-! ## Commands -/

structure CommandContext where
  operationId : OperationId
  occurredAt : UnixMicros
  expectedRevision : Option Revision

structure ProposeVersionCleanup where
  volumeId : VolumeId
  versionId : FileVersionId
  manifestId : ContentManifestId
  manifestRootDigest : Digest
  sourceScanOperationId : OperationId
  (scanRequestDigest reachabilitySubjectDigest : Digest)
  retentionPolicySequence : Nat
  reachabilityRevision : Revision
  retainedRootCount : Nat
  (retainedRootDigest retainedRootSetDigest localRootsDigest proofResultDigest : Digest)

structure RegisterCleanupAttestationKey where
  nodeId : NodeId
  generation : Nat
  verifyingKey : VerifyingKey

structure VersionCleanupAttestation where
  cleanupOperationId : OperationId
  cleanupRevision : Revision
  nodeId : NodeId
  (nodeIncarnation keyGeneration : Nat)
  scanOperationId : OperationId
  (scanRequestDigest reachabilitySubjectDigest localRootsDigest scanResultDigest : Digest)
  signature : Signature

def VersionCleanupAttestation.signingDigest (a : VersionCleanupAttestation) : Digest :=
  .over "meshspan.version-cleanup-attestation.v1"
    (chained [a.scanRequestDigest, a.reachabilitySubjectDigest, a.localRootsDigest, a.scanResultDigest])
    [(a.cleanupOperationId : Int), a.cleanupRevision, a.nodeId, a.nodeIncarnation, a.keyGeneration,
      a.scanOperationId]

/-- `AuthoriseVersionCleanup` and `CancelVersionCleanup`. -/
structure TerminalCommand where
  cleanupOperationId : OperationId
  cleanupRevision : Revision
  reachabilitySubjectDigest : Digest

structure ItemPlacement where
  removalOperationId : OperationId
  shard : ShardIdentity
  targetId : TargetId
  targetGeneration : Nat
  storageNodeId : NodeId

structure AppendVersionCleanupItems where
  cleanupOperationId : OperationId
  (cleanupRevision authorisationRevision : Revision)
  (expectedItemCount startIndex : Nat)
  items : List ItemPlacement

structure SealVersionCleanupInventory where
  cleanupOperationId : OperationId
  (cleanupRevision authorisationRevision : Revision)
  expectedItemCount : Nat
  inventoryDigest : Digest

structure IssueVersionCleanupPermit where
  cleanupOperationId : OperationId
  inventorySealedRevision : Revision
  (itemIndex attemptSequence : Nat)
  permit : RemovalPermit

structure CompleteVersionCleanupItem where
  cleanupOperationId : OperationId
  inventorySealedRevision : Revision
  (itemIndex permitAttemptSequence : Nat)
  receipt : TombstoneReceipt
  reporterNodeId : NodeId
  reporterIncarnation : Nat

structure ConfirmVersionCleanupReclamation where
  cleanupOperationId : OperationId
  itemIndex : Nat
  receipt : ReclamationReceipt
  reporterNodeId : NodeId
  reporterIncarnation : Nat

inductive Command where
  | registerKey (command : RegisterCleanupAttestationKey)
  | propose (command : ProposeVersionCleanup)
  | attest (attestation : VersionCleanupAttestation)
  | authorise (command : TerminalCommand)
  | cancel (command : TerminalCommand)
  | append (command : AppendVersionCleanupItems)
  | sealInventory (command : SealVersionCleanupInventory)
  | issue (command : IssueVersionCleanupPermit)
  | complete (command : CompleteVersionCleanupItem)
  | confirm (command : ConfirmVersionCleanupReclamation)
  /-- Every other command: it leaves the cleanup tables alone. -/
  | other (env : Environment)

end MeshSpan.Cleanup
