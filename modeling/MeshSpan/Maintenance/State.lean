import MeshSpan.Branch.Namespace
import MeshSpan.Repository

/- Maintenance work: jobs, claims, shard repairs and storage drains.

   A job is queued once for a deduplication key and executed under short leases. A
   repair job moves the route of one shard from a target to another, by an optional
   plan and a commit. A target drain takes a target out of placement and is safe once
   every gateway that served when it began has attested that its catalogue holds
   nothing on the target. A node drain fences the node when its targets are safe.

   Correspondence (Rust ↔ Lean)
     063–064  maintenance_work_jobs, _claims          `Job`, `Claim`
     065      maintenance_repair_stripes, _routes, _effects  `Stripe`, `Route`, `RepairEffect`
     067–068  storage_target_drains, _participants, _effects
                                                      `TargetDrain`, `Participant`, `DrainEffect`
     071      storage_scope_drains                    `ScopeDrain`
     121–122  maintenance_repair_attempts             `RepairAttempt`
     meshspan-work  WorkSubject, DrainScope, WorkSignals

   Columns that no modelled function reads (priorities, byte demands, instants of
   record) are left out. -/

namespace MeshSpan.Maintenance

open Rows Repository

abbrev WorkId := Nat
abbrev HostId := Nat
abbrev FaultGroupId := Nat
abbrev PartitionId := Nat
abbrev AuditEventId := Nat

/-! ## The mesh -/

/-- Codes 1 to 4. -/
inductive NodeState where
  | pending
  | active
  | draining
  | retired
deriving DecidableEq, Repr

structure Node where
  nodeId : NodeId
  hostId : HostId
  state : NodeState
  currentIncarnation : Nat
  retired : Bool

structure NodeRole where
  nodeId : NodeId
  roleCode : Nat

structure PartitionVoter where
  partitionId : PartitionId
  nodeId : NodeId
  /-- 1 is a voter, 2 a learner -/
  memberRole : Nat
  /-- 1 and 2 are members, 3 is leaving -/
  state : Nat

/-- Codes 1 to 5; of these only active, draining and retired are looked for. -/
inductive TargetState where
  | active
  | suspended
  | draining
  | detached
  | retired
deriving DecidableEq, Repr

structure StorageTarget where
  targetId : TargetId
  nodeId : NodeId
  hostId : HostId
  currentGeneration : Nat
  state : TargetState
  (draining retired : Bool)

structure TargetGeneration where
  targetId : TargetId
  generation : Nat
  (active retired : Bool)

structure Host where
  hostId : HostId
  (active retired : Bool)

structure HostFaultGroup where
  hostId : HostId
  groupId : FaultGroupId

structure FaultGroup where
  groupId : FaultGroupId
  /-- 1 is active, 2 draining -/
  state : Nat

structure Volume where
  volumeId : VolumeId
  active : Bool

/-! ## Work -/

inductive DrainScope where
  | target (targetId : TargetId) (targetGeneration : Nat)
  | node (nodeId : NodeId) (nodeIncarnation : Nat)
  | faultGroup (groupId : FaultGroupId)
deriving DecidableEq

inductive WorkSubject where
  | repair (volumeId : VolumeId) (manifestId : ContentManifestId) (stripeIndex shardIndex : Nat)
      (sourceGeneration : Nat)
  | scrub (targetId : TargetId) (targetGeneration : Nat)
  | drain (scope : DrainScope)
  | rebalance (volumeId : VolumeId) (topologyRevision : Revision)
  | reconcile (targetId : TargetId) (targetGeneration : Nat)
deriving DecidableEq

inductive WorkKind where
  | repair
  | scrub
  | drain
  | rebalance
  | reconcile
deriving DecidableEq

def WorkSubject.kind : WorkSubject → WorkKind
  | .repair .. => .repair
  | .scrub .. => .scrub
  | .drain .. => .drain
  | .rebalance .. => .rebalance
  | .reconcile .. => .reconcile

/-- `decode (encode subject) = subject`: generations and revisions are positive. -/
def WorkSubject.canonical : WorkSubject → Bool
  | .repair _ _ _ _ generation => generation != 0
  | .scrub _ generation => generation != 0
  | .drain (.target _ generation) => generation != 0
  | .drain (.node _ incarnation) => incarnation != 0
  | .drain (.faultGroup _) => true
  | .rebalance _ revision => revision != 0
  | .reconcile _ generation => generation != 0

structure WorkSignals where
  dataUnavailable : Bool
  (remainingRecoveryMargin protectionDebt localityDebt : Nat)
  createdAt : UnixMicros
  dueAt : Option UnixMicros

/-- `Routine` = 1 up to `Unavailable` = 5. -/
def WorkSignals.urgency (signals : WorkSignals) : Nat :=
  if signals.dataUnavailable then 5
  else if signals.remainingRecoveryMargin = 0 then 4
  else if 0 < signals.protectionDebt then 3
  else if 0 < signals.localityDebt || signals.dueAt.isSome then 2
  else 1

inductive JobState where
  | queued
  | claimed
  | complete
deriving DecidableEq

structure Job where
  workId : WorkId
  deduplicationKey : Digest
  subject : WorkSubject
  signals : WorkSignals
  state : JobState
  nextAttemptAt : UnixMicros
  attemptCount : Nat

inductive ClaimState where
  | active
  | superseded
  | complete
deriving DecidableEq

structure Claim where
  workId : WorkId
  generation : Nat
  workerNodeId : NodeId
  (workerIncarnation fence : Nat)
  leaseExpiresAt : UnixMicros
  state : ClaimState

/-! ## Repairs -/

structure ShardIdentity where
  manifestDigest : Digest
  (stripeIndex shardIndex generation : Nat)
deriving DecidableEq

structure ShardReceipt where
  operationId : OperationId
  shard : ShardIdentity
  length : Nat
  digest : Digest
  targetId : TargetId
  targetGeneration : Nat
deriving DecidableEq

structure Stripe where
  manifestId : ContentManifestId
  stripeIndex : Nat
  volumeId : VolumeId
  manifestDigest : Digest
  currentLayoutGeneration : Nat

structure Route where
  manifestId : ContentManifestId
  (stripeIndex shardIndex : Nat)
  providerOperationId : OperationId
  (shardGeneration expectedLength : Nat)
  expectedDigest : Digest
  targetId : TargetId
  targetGeneration : Nat

structure RepairEffect where
  effectOperationId : OperationId
  workId : WorkId
  manifestId : ContentManifestId
  (stripeIndex replacementLayoutGeneration : Nat)
  replacementProviderOperationId : OperationId

structure CommandContext where
  operationId : OperationId
  actorPrincipalId : PrincipalId
  auditEventId : AuditEventId
  occurredAt : UnixMicros
  expectedRevision : Option Revision
deriving DecidableEq

structure ClaimMaintenanceWork where
  workId : WorkId
  workerNodeId : NodeId
  (workerIncarnation claimGeneration fence : Nat)
  leaseExpiresAt : UnixMicros
deriving DecidableEq

inductive ReservationClass where
  | foreground
  | repair
  | relocation
deriving DecidableEq

/-- `ShardPutIntent`, with its request context as operation, deadline and version check. -/
structure ShardPutIntent where
  operationId : OperationId
  supportedVersion : Bool
  deadline : UnixMicros
  targetId : TargetId
  targetGeneration : Nat
  reservationClass : ReservationClass
  maximumBytes : Nat
  shard : ShardIdentity
  expectedLength : Nat
  expectedDigest : Digest
deriving DecidableEq

structure PlanShardRepair where
  claim : ClaimMaintenanceWork
  sourceLayoutGeneration : Nat
  sourceReceipt : ShardReceipt
  intent : ShardPutIntent
  (effectContext completionContext : CommandContext)
deriving DecidableEq

/-- The last plan of a repair job. The stored bytes are the command itself. -/
structure RepairAttempt where
  workId : WorkId
  plan : PlanShardRepair

/-! ## Drains -/

inductive TargetDrainState where
  | evacuating
  | safe
  | complete
deriving DecidableEq

structure TargetDrain where
  workId : WorkId
  targetId : TargetId
  targetGeneration : Nat
  (allowTemporaryDegraded cleanupRequested : Bool)
  state : TargetDrainState
  safetyEvidenceDigest : Option Digest
  revision : Revision

structure DrainAttestation where
  operationId : OperationId
  observedAuthorityRevision : Revision
  emptyCatalogueDigest : Digest

structure Participant where
  workId : WorkId
  nodeId : NodeId
  nodeIncarnation : Nat
  attested : Option DrainAttestation

structure DrainEffect where
  effectOperationId : OperationId
  workId : WorkId

inductive ScopeDrainState where
  | evacuating
  | membershipFenced
  | safeToDetach
deriving DecidableEq

structure ScopeDrain where
  drainId : WorkId
  scope : DrainScope
  (allowTemporaryDegraded cleanupRequested : Bool)
  state : ScopeDrainState

/-! ## The store -/

structure OperationRecord where
  operationId : OperationId
  kind : Nat
  revision : Revision
  resultDigest : Digest

structure Store where
  revision : Revision
  operations : List OperationRecord
  auditEvents : List AuditEventId
  /-- Operations that cleanup items and permits have reserved. -/
  reserved : List OperationId
  meshes : Nat
  nodes : List Node
  roles : List NodeRole
  voters : List PartitionVoter
  hosts : List Host
  hostGroups : List HostFaultGroup
  faultGroups : List FaultGroup
  targets : List StorageTarget
  generations : List TargetGeneration
  volumes : List Volume
  jobs : List Job
  claims : List Claim
  attempts : List RepairAttempt
  stripes : List Stripe
  routes : List Route
  repairEffects : List RepairEffect
  targetDrains : List TargetDrain
  participants : List Participant
  drainEffects : List DrainEffect
  scopeDrains : List ScopeDrain

/-! ## Commands -/

structure QueueMaintenanceWork where
  workId : WorkId
  deduplicationKey : Digest
  subject : WorkSubject
  signals : WorkSignals
  inFlightBytes : Nat
  nextAttemptAt : UnixMicros

/-- Who holds the claim that a command is issued under. -/
structure ClaimHolder where
  workId : WorkId
  claimGeneration : Nat
  workerNodeId : NodeId
  (workerIncarnation fence : Nat)

structure RenewMaintenanceWork where
  holder : ClaimHolder
  leaseExpiresAt : UnixMicros

inductive WorkCompletion where
  | succeeded (effectOperationId : OperationId) (effectRevision : Revision) (effectResultDigest : Digest)
  | retry (failureDigest : Digest) (retryAt : UnixMicros)
  | continue' (progressDigest : Digest) (retryAt : UnixMicros)

structure CompleteMaintenanceWork where
  holder : ClaimHolder
  outcome : WorkCompletion

structure CommitShardRepair where
  holder : ClaimHolder
  volumeId : VolumeId
  manifestId : ContentManifestId
  sourceLayoutGeneration : Nat
  (sourceReceipt replacementReceipt : ShardReceipt)

structure BeginStorageTargetDrain where
  work : QueueMaintenanceWork
  (allowTemporaryDegraded cleanupRequested : Bool)

structure BeginStorageScopeDrain where
  drainId : WorkId
  scope : DrainScope
  (allowTemporaryDegraded cleanupRequested : Bool)

structure FenceStorageNodeDrainMembership where
  drainId : WorkId
  nodeId : NodeId
  nodeIncarnation : Nat

structure AttestStorageTargetDrain where
  holder : ClaimHolder
  targetId : TargetId
  targetGeneration : Nat
  observedAuthorityRevision : Revision
  emptyCatalogueDigest : Digest

inductive Command where
  | queue (command : QueueMaintenanceWork)
  | claim (command : ClaimMaintenanceWork)
  | renew (command : RenewMaintenanceWork)
  | complete (command : CompleteMaintenanceWork)
  | plan (command : PlanShardRepair)
  | commit (command : CommitShardRepair)
  | beginTarget (command : BeginStorageTargetDrain)
  | beginScope (command : BeginStorageScopeDrain)
  | fence (command : FenceStorageNodeDrainMembership)
  | attest (command : AttestStorageTargetDrain)

/-- A committed entry: the command, its context and its place in the log. -/
structure Entry where
  context : CommandContext
  command : Command
  (index term : Nat)

end MeshSpan.Maintenance
