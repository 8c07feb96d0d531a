import MeshSpan.Maintenance.State

/- What each maintenance command checks and writes.

   Correspondence (Rust ↔ Lean)
     maintenance_work.rs   queue, claim, renew, complete, merge_signals, validate_worker,
                           require_live_claim, validate_effect
     repair_plan.rs        plan, validate_source, validate_contexts, validate_takeover,
                           validate_control_operations, validate_effect (`planAllows`)
     repair.rs             commit, validate_repair_subject, ensure_repair_stripe,
                           validate_source_route, active_target_generation_exists
     drain.rs              begin_target, attest_target, finish_if_fully_attested,
                           snapshot_gateways
     scope_drain.rs        begin, fence_node_membership, reject_overlapping_scope
     scope_drain_state.rs  all_targets_safe, membership_can_retire_node
     apply.rs              apply_transaction (`apply`)

   The rights of the principal and the position in the log are not checked here. Job
   kinds other than repair and target drain have effects of other commands only, so
   `complete` finds none. -/

namespace MeshSpan.Maintenance

open Rows Repository

/-! ## Reading jobs, claims and workers -/

def maximumLeaseMicros : Int := 15 * 60 * 1000000

variable (s : Store) (node : NodeId)

def activeWorker (incarnation : Nat) : Bool :=
  incarnation != 0 && s.nodes.any fun row => row.nodeId == node &&
    row.currentIncarnation == incarnation && row.state == .active && !row.retired

def validateWorker (incarnation : Nat) : Except RepositoryError Unit :=
  require (activeWorker s node incarnation) .invalidCommand

def validateLease (now expiresAt : UnixMicros) : Except RepositoryError Unit :=
  require ((now < expiresAt) && (expiresAt - now ≤ maximumLeaseMicros)) .invalidCommand

variable (work : WorkId)

def job? : Option Job := get Job.workId work s.jobs

def loadJobForTransition : Except RepositoryError Job :=
  match job? s work with
  | none => .error .invalidCommand
  | some job => .ok job

def activeClaim? : Option Claim :=
  s.claims.find? fun claim => claim.workId == work && claim.state == .active

variable (context : CommandContext) (holder : ClaimHolder)

/-- The job is claimed, by exactly this holder, and the lease has not run out. -/
def requireLiveClaim : Except RepositoryError Claim := do
  let job ← loadJobForTransition s holder.workId
  match activeClaim? s holder.workId with
  | none => .error .invalidCommand
  | some claim => do
    require (job.state == .claimed && claim.generation == holder.claimGeneration &&
      claim.workerNodeId == holder.workerNodeId &&
      claim.workerIncarnation == holder.workerIncarnation && claim.fence == holder.fence &&
      (context.occurredAt < claim.leaseExpiresAt)) .invalidCommand
    pure claim

def latestClaimGeneration : Nat :=
  (s.claims.filter (·.workId == work)).foldl (fun best claim => max best claim.generation) 0

/-! ## Queue -/

variable (target : TargetId) (generation : Nat)

def currentTargetGeneration : Bool :=
  generation != 0 && s.targets.any fun row => row.targetId == target && row.currentGeneration == generation

def validateSubjectReference : WorkSubject → Bool
  | .repair volume .. => s.volumes.any (·.volumeId == volume)
  | .rebalance volume _ => s.volumes.any (·.volumeId == volume)
  | .scrub target generation => currentTargetGeneration s target generation
  | .reconcile target generation => currentTargetGeneration s target generation
  | .drain (.target target generation) => currentTargetGeneration s target generation
  | .drain (.node node incarnation) => incarnation != 0 &&
    s.nodes.any fun row => row.nodeId == node && row.currentIncarnation == incarnation
  | .drain (.faultGroup group) => s.faultGroups.any fun row => row.groupId == group && row.state == 1

variable (value : QueueMaintenanceWork)

def validateQueue : Bool :=
  value.deduplicationKey != zeroDigest && value.subject.canonical &&
  (value.signals.createdAt ≤ context.occurredAt) && value.inFlightBytes != 0 &&
  (value.signals.createdAt ≤ value.nextAttemptAt) &&
  (value.signals.dueAt.all fun dueAt => value.signals.createdAt ≤ dueAt) &&
  validateSubjectReference s value.subject

/-- Whether new evidence may bring the next attempt forward. -/
def bringsForward (stored : Job) (value : QueueMaintenanceWork) : Bool :=
  stored.attemptCount == 0 || (stored.signals.urgency < value.signals.urgency) ||
  value.signals.dueAt.any fun due => (due < stored.nextAttemptAt) &&
    stored.signals.dueAt.all fun previous => due < previous

def mergedDue : Option UnixMicros → Option UnixMicros → Option UnixMicros
  | none, new => new
  | old, none => old
  | some old, some new => some (min old new)

def mergedJob (stored : Job) : Job :=
  { stored with
    signals := { stored.signals with
      dataUnavailable := stored.signals.dataUnavailable || value.signals.dataUnavailable
      remainingRecoveryMargin :=
        min stored.signals.remainingRecoveryMargin value.signals.remainingRecoveryMargin
      protectionDebt := max stored.signals.protectionDebt value.signals.protectionDebt
      localityDebt := max stored.signals.localityDebt value.signals.localityDebt
      dueAt := mergedDue stored.signals.dueAt value.signals.dueAt }
    nextAttemptAt :=
      if bringsForward stored value then min stored.nextAttemptAt value.nextAttemptAt
      else stored.nextAttemptAt }

def workIdExists : Bool := s.jobs.any (·.workId == work)

def newJob : Job where
  workId := value.workId
  deduplicationKey := value.deduplicationKey
  subject := value.subject
  signals := value.signals
  state := .queued
  nextAttemptAt := value.nextAttemptAt
  attemptCount := 0

/-- A job with the same deduplication key takes the new evidence; otherwise a new job is queued. -/
def queue : Except RepositoryError (WorkId × Store) := do
  require (validateQueue s context value) .invalidCommand
  match s.jobs.find? fun job => job.deduplicationKey == value.deduplicationKey with
  | some existing => do
    require (existing.subject == value.subject &&
      (existing.workId == value.workId || !workIdExists s value.workId)) .invalidCommand
    if existing.state = .complete then pure (existing.workId, s)
    else do
      checkedI64 value.inFlightBytes
      pure (existing.workId, { s with
        jobs := amend (fun job => job.workId == existing.workId && job.state != .complete)
          (mergedJob value) s.jobs })
  | none => do
    require (!workIdExists s value.workId) .invalidCommand
    checkedI64 value.inFlightBytes
    pure (value.workId, { s with jobs := s.jobs ++ [newJob value] })

/-! ## Claims -/

/-- A queued job is free; a claimed one only when the lease has run out. -/
def claimable (job : Job) (active : Option Claim) (now : UnixMicros) : Except RepositoryError Unit :=
  match job.state, active with
  | .queued, none => .ok ()
  | .claimed, some claim => require ((claim.leaseExpiresAt ≤ now)) .invalidCommand
  | .queued, some _ => .error .invalidCommand
  | .claimed, none => .error .invalidCommand
  | .complete, _ => .error .corruptState

variable (value : ClaimMaintenanceWork)

def claimRow : Claim :=
  ⟨value.workId, value.claimGeneration, value.workerNodeId, value.workerIncarnation, value.fence,
    value.leaseExpiresAt, .active⟩

/-- The claims once the active one of the job is superseded. -/
def superseded (work : WorkId) (claims : List Claim) : List Claim :=
  amend (fun row => row.workId == work && row.state == .active)
    (fun row => { row with state := .superseded }) claims

def claimedBy : Store :=
  { s with
    claims := superseded value.workId s.claims ++ [claimRow value]
    jobs := amend (fun row => row.workId == value.workId && row.state != .complete)
      (fun row => { row with state := .claimed, attemptCount := row.attemptCount + 1 }) s.jobs }

def claim : Except RepositoryError Store := do
  validateLease context.occurredAt value.leaseExpiresAt
  validateWorker s value.workerNodeId value.workerIncarnation
  let job ← loadJobForTransition s value.workId
  require (job.state != .complete && decide (job.nextAttemptAt ≤ context.occurredAt)) .invalidCommand
  claimable job (activeClaim? s value.workId) context.occurredAt
  require (value.claimGeneration == latestClaimGeneration s value.workId + 1 && value.fence != 0)
    .invalidCommand
  checkedI64 value.claimGeneration
  checkedI64 value.fence
  let claims ← insertUnique (fun new old => new.workId == old.workId &&
      (new.generation == old.generation || new.fence == old.fence))
    (superseded value.workId s.claims) (claimRow value)
  pure { claimedBy s value with claims := claims }

def renew (value : RenewMaintenanceWork) : Except RepositoryError Store := do
  validateLease context.occurredAt value.leaseExpiresAt
  validateWorker s value.holder.workerNodeId value.holder.workerIncarnation
  let claim ← requireLiveClaim s context value.holder
  require ((claim.leaseExpiresAt < value.leaseExpiresAt)) .invalidCommand
  pure { s with
    claims := amend (fun row => row.workId == value.holder.workId &&
        row.generation == value.holder.claimGeneration && row.state == .active)
      (fun row => { row with leaseExpiresAt := value.leaseExpiresAt }) s.claims }

/-! ## Completion -/

def effectKind : WorkKind → Nat
  | .repair => 105
  | .scrub => 106
  | .drain => 108
  | .rebalance => 109
  | .reconcile => 110

/-- The effect of the job, by the operation that committed it. -/
def effectRecorded (kind : WorkKind) (operation : OperationId) (work : WorkId) : Bool :=
  match kind with
  | .repair => s.repairEffects.any fun row => row.effectOperationId == operation && row.workId == work
  | .drain => s.drainEffects.any fun row => row.effectOperationId == operation && row.workId == work
  | _ => false

def validateEffect (kind : WorkKind) (operation : OperationId)
    (revision : Revision) (result : Digest) : Except RepositoryError Unit :=
  require ((s.operations.any fun row => row.operationId == operation && row.kind == effectKind kind &&
      row.revision == revision && row.resultDigest == result) &&
    effectRecorded s kind operation work) .invalidCommand

/-- The state of the job after an outcome and when it may be tried again. -/
def completionValues (job : Job) : WorkCompletion → Except RepositoryError (JobState × UnixMicros)
  | .succeeded operation revision result => do
    require (result != zeroDigest) .invalidCommand
    validateEffect s job.workId job.subject.kind operation revision result
    pure (.complete, context.occurredAt)
  | .retry digest retryAt => do
    require (digest != zeroDigest && (context.occurredAt < retryAt)) .invalidCommand
    pure (.queued, retryAt)
  | .continue' digest retryAt => do
    require (digest != zeroDigest && (context.occurredAt < retryAt)) .invalidCommand
    pure (.queued, retryAt)

/-- The holder's claim is closed and its job is in the given state. -/
def releasedBy (state : JobState) (nextAttemptAt : UnixMicros) : Store :=
  { s with
    claims := amend (fun row => row.workId == holder.workId &&
        row.generation == holder.claimGeneration && row.state == .active)
      (fun row => { row with state := .complete }) s.claims
    jobs := amend (fun row => row.workId == holder.workId && row.state == .claimed)
      (fun row => { row with state := state, nextAttemptAt := nextAttemptAt }) s.jobs }

def complete (value : CompleteMaintenanceWork) : Except RepositoryError Store := do
  validateWorker s value.holder.workerNodeId value.holder.workerIncarnation
  let _ ← requireLiveClaim s context value.holder
  let job ← loadJobForTransition s value.holder.workId
  let (state, nextAttemptAt) ← completionValues s context job value.outcome
  pure (releasedBy s value.holder state nextAttemptAt)

/-! ## Targets -/

def targetGenerationExists : Bool :=
  s.generations.any fun row => row.targetId == target && row.generation == generation

/-- A node or fault group that is being drained covers the target. -/
def scopeCovers (target : StorageTarget) (drain : ScopeDrain) : Bool :=
  match drain.scope with
  | .node node _ => node == target.nodeId
  | .faultGroup group => s.hostGroups.any fun row => row.hostId == target.hostId && row.groupId == group
  | .target .. => false

/-- A target that may receive shards: live itself, on a live node and host, and not being drained. -/
def receives (target : StorageTarget) : Bool :=
  target.state == .active && !target.draining && !target.retired &&
  (s.generations.any fun row => row.targetId == target.targetId &&
    row.generation == target.currentGeneration && row.active && !row.retired) &&
  (s.nodes.any fun row => row.nodeId == target.nodeId && row.state == .active && !row.retired) &&
  (s.hosts.any fun row => row.hostId == target.hostId && row.active && !row.retired) &&
  !(s.scopeDrains.any (scopeCovers s target))

def activeTargetGenerationExists : Bool :=
  s.targets.any fun row => row.targetId == target && row.currentGeneration == generation && receives s row

def volumeActive (volume : VolumeId) : Bool :=
  s.volumes.any fun row => row.volumeId == volume && row.active

/-! ## Repair plans -/

def validReceipt (receipt : ShardReceipt) : Bool :=
  receipt.shard.manifestDigest != zeroDigest && (0 < receipt.shard.generation) &&
  (0 < receipt.length) && receipt.digest != zeroDigest && (0 < receipt.targetGeneration) &&
  (receipt.shard.stripeIndex ≤ i64Max) && (receipt.length ≤ i64Max) &&
  (receipt.targetGeneration ≤ i64Max)

/-- The same shard, of the same or the next physical generation. -/
def validReplacementIdentity (source replacement : ShardIdentity) : Bool :=
  replacement == { source with generation := replacement.generation } &&
  (replacement.generation == source.generation || replacement.generation == source.generation + 1)

def validIntent (intent : ShardPutIntent) : Bool :=
  intent.supportedVersion && (0 < intent.deadline) && intent.targetGeneration != 0 &&
  intent.shard.manifestDigest != zeroDigest && intent.shard.generation != 0 &&
  intent.expectedLength != 0 && (intent.expectedLength ≤ intent.maximumBytes) &&
  intent.expectedDigest != zeroDigest

variable (manifest : ContentManifestId)

def stripe? (stripeIndex : Nat) : Option Stripe :=
  s.stripes.find? fun row => row.manifestId == manifest && row.stripeIndex == stripeIndex

def route? (stripeIndex shardIndex : Nat) : Option Route :=
  s.routes.find? fun row => row.manifestId == manifest && row.stripeIndex == stripeIndex &&
    row.shardIndex == shardIndex

/-- The stripe is at the generation named, or is new and at the first. -/
def stripeAt (volume : VolumeId) (manifest : ContentManifestId) (source : ShardReceipt)
    (generation : Nat) : Bool :=
  match stripe? s manifest source.shard.stripeIndex with
  | some stripe => stripe.volumeId == volume && stripe.manifestDigest == source.shard.manifestDigest &&
    stripe.currentLayoutGeneration == generation
  | none => generation == 1

/-- A shard that was repaired before is where its route says. -/
def validateSourceRoute (source : ShardReceipt) : Bool :=
  match route? s manifest source.shard.stripeIndex source.shard.shardIndex with
  | none => true
  | some route => route.providerOperationId == source.operationId &&
    route.shardGeneration == source.shard.generation && route.expectedLength == source.length &&
    route.expectedDigest == source.digest && route.targetId == source.targetId &&
    route.targetGeneration == source.targetGeneration

def repairDone : Bool := s.repairEffects.any (·.workId == work)

def validateSource (value : PlanShardRepair) : Except RepositoryError Unit := do
  require (validIntent value.intent) .invalidCommand
  let job ← loadJobForTransition s value.claim.workId
  match job.subject with
  | .repair volume manifest stripeIndex shardIndex sourceGeneration => do
    require (validReceipt value.sourceReceipt && value.intent.reservationClass == .repair &&
      sourceGeneration == value.sourceLayoutGeneration &&
      value.sourceReceipt.shard.stripeIndex == stripeIndex &&
      value.sourceReceipt.shard.shardIndex == shardIndex &&
      validReplacementIdentity value.sourceReceipt.shard value.intent.shard &&
      value.sourceReceipt.length == value.intent.expectedLength &&
      value.intent.maximumBytes == value.intent.expectedLength &&
      value.sourceReceipt.digest == value.intent.expectedDigest &&
      value.sourceReceipt.operationId != value.intent.operationId &&
      !(value.sourceReceipt.targetId == value.intent.targetId &&
        value.sourceReceipt.targetGeneration == value.intent.targetGeneration)) .invalidCommand
    require (volumeActive s volume &&
      targetGenerationExists s value.sourceReceipt.targetId value.sourceReceipt.targetGeneration &&
      activeTargetGenerationExists s value.intent.targetId value.intent.targetGeneration) .invalidCommand
    checkedI64 stripeIndex
    require (stripeAt s volume manifest value.sourceReceipt sourceGeneration) .invalidCommand
    require (validateSourceRoute s manifest value.sourceReceipt) .invalidCommand
    require (!repairDone s value.claim.workId) .invalidCommand
  | _ => .error .invalidCommand

variable (context : CommandContext)

def validControl (intent : OperationId) (control : CommandContext) : Bool :=
  control.operationId != context.operationId && control.operationId != intent &&
  control.auditEventId != context.auditEventId &&
  control.actorPrincipalId == context.actorPrincipalId && control.occurredAt == context.occurredAt &&
  control.expectedRevision.isNone

def validateContexts (value : PlanShardRepair) : Bool :=
  context.operationId != value.intent.operationId &&
  value.effectContext.operationId != value.completionContext.operationId &&
  value.effectContext.auditEventId != value.completionContext.auditEventId &&
  validControl context value.intent.operationId value.effectContext &&
  validControl context value.intent.operationId value.completionContext

/-- A later claim adopts the same physical intent under new control operations. -/
def validateTakeover (prior next : PlanShardRepair) : Bool :=
  prior.intent == next.intent && prior.sourceReceipt == next.sourceReceipt &&
  prior.sourceLayoutGeneration == next.sourceLayoutGeneration &&
  if next.claim.claimGeneration = prior.claim.claimGeneration then next == prior
  else (prior.claim.claimGeneration < next.claim.claimGeneration) &&
    [next.effectContext, next.completionContext].all fun control =>
      control.operationId != prior.effectContext.operationId &&
      control.operationId != prior.completionContext.operationId &&
      control.auditEventId != prior.effectContext.auditEventId &&
      control.auditEventId != prior.completionContext.auditEventId

def attempt? : Option RepairAttempt := get RepairAttempt.workId work s.attempts

def operationExists (operation : OperationId) : Bool :=
  s.operations.any (·.operationId == operation)

def validateControlOperations (value : PlanShardRepair) : Bool :=
  [value.effectContext.operationId, value.completionContext.operationId].all fun operation =>
    !(operationExists s operation) &&
    !(s.attempts.any fun row => row.workId != value.claim.workId &&
      (row.plan.effectContext.operationId == operation ||
        row.plan.completionContext.operationId == operation))

def claimHolder (value : ClaimMaintenanceWork) : ClaimHolder :=
  ⟨value.workId, value.claimGeneration, value.workerNodeId, value.workerIncarnation, value.fence⟩

/-- Unique indexes of `maintenance_repair_attempts` against the other jobs' rows. -/
def attemptsConflict (new old : RepairAttempt) : Bool :=
  new.workId != old.workId &&
  (new.plan.intent.operationId == old.plan.intent.operationId ||
    new.plan.effectContext.operationId == old.plan.effectContext.operationId ||
    new.plan.completionContext.operationId == old.plan.completionContext.operationId)

/-- `INSERT … ON CONFLICT(work_id) DO UPDATE`. -/
def putAttempt (row : RepairAttempt) : Except RepositoryError Store :=
  if s.attempts.any (attemptsConflict row) then .error .sqlite
  else match attempt? s row.workId with
    | some _ => .ok { s with attempts := amend (·.workId == row.workId) (fun _ => row) s.attempts }
    | none => .ok { s with attempts := s.attempts ++ [row] }

def plan (s : Store) (context : CommandContext) (value : PlanShardRepair) :
    Except RepositoryError Store := do
  validateWorker s value.claim.workerNodeId value.claim.workerIncarnation
  let held ← requireLiveClaim s context (claimHolder value.claim)
  require (held.leaseExpiresAt == value.claim.leaseExpiresAt) .invalidCommand
  validateSource s value
  require (validateContexts context value) .invalidCommand
  require ((attempt? s value.claim.workId).all (validateTakeover ·.plan value))
    .invalidCommand
  require (validateControlOperations s value) .invalidCommand
  putAttempt s ⟨value.claim.workId, value⟩

/-! ## Repair commits -/

/-- Once a plan exists, every effect is bound to it. -/
def planAllows (context : CommandContext) (value : CommitShardRepair) : Bool :=
  (attempt? s value.holder.workId).all fun record =>
    record.plan.claim.claimGeneration == value.holder.claimGeneration &&
    record.plan.claim.workerNodeId == value.holder.workerNodeId &&
    record.plan.claim.workerIncarnation == value.holder.workerIncarnation &&
    record.plan.claim.fence == value.holder.fence &&
    value.replacementReceipt.operationId == record.plan.intent.operationId &&
    value.replacementReceipt.targetId == record.plan.intent.targetId &&
    value.replacementReceipt.targetGeneration == record.plan.intent.targetGeneration &&
    value.replacementReceipt.shard == record.plan.intent.shard &&
    value.replacementReceipt.length == record.plan.intent.expectedLength &&
    value.replacementReceipt.digest == record.plan.intent.expectedDigest &&
    context == record.plan.effectContext &&
    value.sourceLayoutGeneration == record.plan.sourceLayoutGeneration &&
    value.sourceReceipt == record.plan.sourceReceipt

variable (value : CommitShardRepair)

def validateRepairSubject : Except RepositoryError Unit := do
  let job ← loadJobForTransition s value.holder.workId
  match job.subject with
  | .repair volume manifest stripeIndex shardIndex sourceGeneration => do
    require (value.volumeId == volume && value.manifestId == manifest &&
      sourceGeneration == value.sourceLayoutGeneration &&
      value.sourceReceipt.shard.stripeIndex == stripeIndex &&
      value.sourceReceipt.shard.shardIndex == shardIndex &&
      value.sourceReceipt.operationId != value.replacementReceipt.operationId &&
      !(value.sourceReceipt.targetId == value.replacementReceipt.targetId &&
        value.sourceReceipt.targetGeneration == value.replacementReceipt.targetGeneration) &&
      validReceipt value.sourceReceipt && validReceipt value.replacementReceipt &&
      validReplacementIdentity value.sourceReceipt.shard value.replacementReceipt.shard &&
      value.sourceReceipt.length == value.replacementReceipt.length &&
      value.sourceReceipt.digest == value.replacementReceipt.digest &&
      volumeActive s value.volumeId &&
      targetGenerationExists s value.sourceReceipt.targetId value.sourceReceipt.targetGeneration)
      .invalidCommand
    require (activeTargetGenerationExists s value.replacementReceipt.targetId
      value.replacementReceipt.targetGeneration) .invalidCommand
  | _ => .error .invalidCommand

/-- The stripes with the one of this repair, which the first repair creates. -/
def ensureRepairStripe : List Stripe :=
  match stripe? s value.manifestId value.sourceReceipt.shard.stripeIndex with
  | some _ => s.stripes
  | none => s.stripes ++ [⟨value.manifestId, value.sourceReceipt.shard.stripeIndex, value.volumeId,
      value.sourceReceipt.shard.manifestDigest, 1⟩]

def repairEffectsConflict (new old : RepairEffect) : Bool :=
  new.effectOperationId == old.effectOperationId || new.workId == old.workId ||
  new.replacementProviderOperationId == old.replacementProviderOperationId ||
  (new.manifestId == old.manifestId && new.stripeIndex == old.stripeIndex &&
    new.replacementLayoutGeneration == old.replacementLayoutGeneration)

def routeOf (receipt : ShardReceipt) : Route where
  manifestId := manifest
  stripeIndex := receipt.shard.stripeIndex
  shardIndex := receipt.shard.shardIndex
  providerOperationId := receipt.operationId
  shardGeneration := receipt.shard.generation
  expectedLength := receipt.length
  expectedDigest := receipt.digest
  targetId := receipt.targetId
  targetGeneration := receipt.targetGeneration

def sameShard (a b : Route) : Bool :=
  a.manifestId == b.manifestId && a.stripeIndex == b.stripeIndex && a.shardIndex == b.shardIndex

/-- `INSERT … ON CONFLICT(manifest_id, stripe_index, shard_index) DO UPDATE`. -/
def replaceRepairRoute (routes : List Route) (row : Route) : Except RepositoryError (List Route) :=
  if routes.any fun old => !(sameShard row old) && row.providerOperationId == old.providerOperationId then
    .error .sqlite
  else if routes.any (sameShard row) then .ok (amend (sameShard row) (fun _ => row) routes)
  else .ok (routes ++ [row])

def effectOf : RepairEffect where
  effectOperationId := context.operationId
  workId := value.holder.workId
  manifestId := value.manifestId
  stripeIndex := value.sourceReceipt.shard.stripeIndex
  replacementLayoutGeneration := value.sourceLayoutGeneration + 1
  replacementProviderOperationId := value.replacementReceipt.operationId

/-- The stripes once the one of this repair is at the next generation. -/
def stripesAfter : List Stripe :=
  amend (fun row => row.manifestId == value.manifestId &&
      row.stripeIndex == value.sourceReceipt.shard.stripeIndex &&
      row.currentLayoutGeneration == value.sourceLayoutGeneration)
    (fun row => { row with currentLayoutGeneration := value.sourceLayoutGeneration + 1 })
    (ensureRepairStripe s value)

def committedBy (context : CommandContext) (value : CommitShardRepair) (routes : List Route) : Store :=
  { s with
    repairEffects := s.repairEffects ++ [effectOf context value]
    routes := routes
    stripes := stripesAfter s value }

def commit (context : CommandContext) (value : CommitShardRepair) : Except RepositoryError Store := do
  validateWorker s value.holder.workerNodeId value.holder.workerIncarnation
  let _ ← requireLiveClaim s context value.holder
  require (planAllows s context value) .invalidCommand
  validateRepairSubject s value
  checkedI64 (value.sourceLayoutGeneration + 1)
  require (stripeAt s value.volumeId value.manifestId value.sourceReceipt value.sourceLayoutGeneration)
    .invalidCommand
  require (validateSourceRoute s value.manifestId value.sourceReceipt) .invalidCommand
  require (!repairDone s value.holder.workId) .invalidCommand
  let effects ← insertUnique repairEffectsConflict s.repairEffects (effectOf context value)
  let routes ← replaceRepairRoute s.routes (routeOf value.manifestId value.replacementReceipt)
  pure { committedBy s context value routes with repairEffects := effects }

/-! ## Target drains -/

/-- A node that serves the filesystem: it has the gateway role, or no role and a vote. -/
def isGateway (node : Node) : Bool :=
  (node.state == .pending || node.state == .active) &&
  (s.roles.any (fun role => role.nodeId == node.nodeId && role.roleCode == 2) ||
    (!(s.roles.any (·.nodeId == node.nodeId)) &&
      s.voters.any fun voter => voter.nodeId == node.nodeId && (voter.state == 1 || voter.state == 2)))

def gateways : List Node := s.nodes.filter (isGateway s)

def targetIsWritableGeneration : Bool :=
  (s.targets.any fun row => row.targetId == target && row.state == .active && !row.draining && !row.retired) &&
  s.generations.any fun row => row.targetId == target && row.generation == generation && row.active &&
    !row.retired

def targetDrainOf (value : BeginStorageTargetDrain) (target : TargetId) (generation : Nat)
    (revision : Revision) : TargetDrain where
  workId := value.work.workId
  targetId := target
  targetGeneration := generation
  allowTemporaryDegraded := value.allowTemporaryDegraded
  cleanupRequested := value.cleanupRequested
  state := .evacuating
  safetyEvidenceDigest := none
  revision := revision

variable (target : TargetId)

/-- The row of a target that starts to drain. -/
def startsDraining (generation : Nat) (row : StorageTarget) : Bool :=
  row.targetId == target && row.currentGeneration == generation && row.state == .active &&
  !row.draining && !row.retired

def snapshotGateways : List Participant :=
  (gateways s).map fun node => ⟨work, node.nodeId, node.currentIncarnation, none⟩

def beginTarget (context : CommandContext) (value : BeginStorageTargetDrain)
    (revision : Revision) : Except RepositoryError (TargetId × Store) :=
  match value.work.subject with
  | .drain (.target target generation) => do
    require (targetIsWritableGeneration s target generation) .invalidCommand
    let (_, queued) ← queue s context value.work
    -- the foreign keys of the new row
    require (workIdExists queued value.work.workId) .sqlite
    let drains ← insertUnique (fun new old => new.workId == old.workId ||
        (new.targetId == old.targetId && new.targetGeneration == old.targetGeneration))
      queued.targetDrains (targetDrainOf value target generation revision)
    require ((gateways queued).all (·.currentIncarnation != 0)) .sqlite
    require (!(gateways queued).isEmpty) .invalidCommand
    require (queued.targets.any (startsDraining target generation)) .invalidCommand
    require (queued.meshes == 1) .corruptState
    pure (target, { queued with
      targetDrains := drains
      participants := queued.participants ++ snapshotGateways queued value.work.workId
      targets := amend (startsDraining target generation)
        (fun row => { row with state := .draining, draining := true }) queued.targets })
  | _ => .error .invalidCommand

def emptyTargetDrainCatalogueDigest (generation : Nat) (observed : Revision) : Digest :=
  .framed "meshspan.storage-target-drain.empty-catalogue.v1" [(target : Int), generation, observed]

def targetDrain? : Option TargetDrain := get TargetDrain.workId work s.targetDrains

def validateAttestationSubject (value : AttestStorageTargetDrain) (revision : Revision) :
    Except RepositoryError Unit := do
  require (value.observedAuthorityRevision != 0 && (value.observedAuthorityRevision < revision) &&
    value.emptyCatalogueDigest == emptyTargetDrainCatalogueDigest value.targetId value.targetGeneration
      value.observedAuthorityRevision) .invalidCommand
  let job ← loadJobForTransition s value.holder.workId
  match job.subject, targetDrain? s value.holder.workId with
  | .drain (.target target generation), some drain =>
    require (drain.targetId == value.targetId && drain.targetGeneration == value.targetGeneration &&
      drain.state == .evacuating && target == value.targetId && generation == value.targetGeneration &&
      (drain.revision ≤ value.observedAuthorityRevision)) .invalidCommand
  | _, _ => .error .invalidCommand

def participantsOf : List Participant :=
  s.participants.filter (·.workId == work)

def owesAttestation (value : AttestStorageTargetDrain) (row : Participant) : Bool :=
  row.workId == value.holder.workId && row.nodeId == value.holder.workerNodeId &&
  row.nodeIncarnation == value.holder.workerIncarnation && row.attested.isNone

def attestedBy (context : CommandContext) (value : AttestStorageTargetDrain) : List Participant :=
  amend (owesAttestation value) (fun row => { row with
    attested := some ⟨context.operationId, value.observedAuthorityRevision, value.emptyCatalogueDigest⟩ })
    s.participants

def attestationDigest (row : Participant) : Digest :=
  match row.attested with
  | none => zeroDigest
  | some attestation => .over "" attestation.emptyCatalogueDigest
    [(row.nodeId : Int), row.nodeIncarnation, attestation.observedAuthorityRevision]

def completeAttestationDigest : Digest :=
  .over "meshspan.storage-target-drain.complete.v1"
    (((participantsOf s work).map attestationDigest).foldl .join (.framed "" [])) [(work : Int)]

def drainsSafe (revision : Revision) : List TargetDrain :=
  amend (fun drain => drain.workId == work && drain.state == .evacuating)
    (fun drain => { drain with
      state := .safe
      safetyEvidenceDigest := some (completeAttestationDigest s work)
      revision := revision }) s.targetDrains

/-- The drain is safe with the last attestation. -/
def finishIfFullyAttested (context : CommandContext) (work : WorkId) (revision : Revision) :
    Except RepositoryError Store :=
  if (participantsOf s work).all fun row => row.attested.isSome then do
    require (s.targetDrains.any fun drain => drain.workId == work && drain.state == .evacuating) .corruptState
    let effects ← insertUnique (fun new old => new.effectOperationId == old.effectOperationId ||
        new.workId == old.workId) s.drainEffects ⟨context.operationId, work⟩
    pure { s with drainEffects := effects, targetDrains := drainsSafe s work revision }
  else .ok s

def attestTarget (context : CommandContext) (value : AttestStorageTargetDrain)
    (revision : Revision) : Except RepositoryError Store := do
  validateWorker s value.holder.workerNodeId value.holder.workerIncarnation
  let _ ← requireLiveClaim s context value.holder
  validateAttestationSubject s value revision
  require (s.participants.any (owesAttestation value)) .invalidCommand
  finishIfFullyAttested { s with participants := attestedBy s context value } context value.holder.workId
    revision

/-! ## Scope drains -/

def validateNewScope : DrainScope → Bool
  | .node node incarnation => activeWorker s node incarnation
  | .faultGroup group => s.faultGroups.any fun row => row.groupId == group && row.state == 1
  | .target .. => false

/-- A drained node in the group, or a drained group of the node, or the same scope. -/
def scopesOverlap : DrainScope → DrainScope → Bool
  | .node node _, .node other _ => node == other
  | .node node _, .faultGroup group => s.nodes.any fun row => row.nodeId == node &&
    s.hostGroups.any fun member => member.hostId == row.hostId && member.groupId == group
  | .faultGroup group, .faultGroup other => group == other
  | .faultGroup group, .node node _ => s.nodes.any fun row => row.nodeId == node &&
    s.hostGroups.any fun member => member.hostId == row.hostId && member.groupId == group
  | _, _ => false

variable (scope : DrainScope)

/-- The targets of a scope that are not retired. -/
def scopeTargets : List StorageTarget :=
  s.targets.filter fun row => row.state != .retired && !row.retired &&
    match scope with
    | .node node _ => row.nodeId == node
    | .faultGroup group => s.hostGroups.any fun member => member.hostId == row.hostId && member.groupId == group
    | .target .. => false

def drainOfTarget? (target : StorageTarget) : Option TargetDrain :=
  s.targetDrains.find? fun drain => drain.targetId == target.targetId &&
    drain.targetGeneration == target.currentGeneration

/-- Drains of the scope's targets that began before have the same policies. -/
def childPoliciesMatch (value : BeginStorageScopeDrain) : Bool :=
  (scopeTargets s value.scope).all fun target => (drainOfTarget? s target).all fun drain =>
    drain.allowTemporaryDegraded == value.allowTemporaryDegraded &&
    drain.cleanupRequested == value.cleanupRequested

def beginScope (value : BeginStorageScopeDrain) : Except RepositoryError Store := do
  require (validateNewScope s value.scope) .invalidCommand
  require (!(s.scopeDrains.any (scopesOverlap s value.scope ·.scope))) .invalidCommand
  require (childPoliciesMatch s value) .invalidCommand
  let drains ← insertUnique (fun new old => new.drainId == old.drainId) s.scopeDrains
    ⟨value.drainId, value.scope, value.allowTemporaryDegraded, value.cleanupRequested, .evacuating⟩
  require (s.meshes == 1) .corruptState
  pure { s with
    scopeDrains := drains
    faultGroups := amend (fun row => value.scope == .faultGroup row.groupId && row.state == 1)
      (fun row => { row with state := 2 }) s.faultGroups }

def allTargetsSafe : Bool :=
  (scopeTargets s scope).all fun target => (drainOfTarget? s target).any fun drain =>
    drain.state != .evacuating && drain.safetyEvidenceDigest.isSome

/-- Every partition in which the node votes keeps another voter. -/
def membershipCanRetireNode : Bool :=
  s.voters.all fun retiring =>
    !(retiring.nodeId == node && (retiring.state == 1 || retiring.state == 2) && retiring.memberRole == 1) ||
    s.voters.any fun survivor => survivor.partitionId == retiring.partitionId &&
      survivor.nodeId != retiring.nodeId && survivor.memberRole == 1 && survivor.state == 1

variable (value : FenceStorageNodeDrainMembership)

def fencedNode (row : Node) : Bool :=
  row.nodeId == value.nodeId && row.currentIncarnation == value.nodeIncarnation && row.state == .active

def nodesFenced (nodes : List Node) : List Node :=
  amend (fencedNode value) (fun row => { row with state := .draining }) nodes

def fenceNodeMembership : Except RepositoryError Store :=
  match get ScopeDrain.drainId value.drainId s.scopeDrains with
  | none => .error .invalidCommand
  | some record => do
    require (record.state == .evacuating && record.scope == .node value.nodeId value.nodeIncarnation &&
      allTargetsSafe s record.scope && membershipCanRetireNode s value.nodeId) .invalidCommand
    require (s.nodes.any (fencedNode value)) .invalidCommand
    require (s.meshes == 1) .corruptState
    pure { s with
      nodes := nodesFenced value s.nodes
      voters := amend (fun row => row.nodeId == value.nodeId && (row.state == 1 || row.state == 2))
        (fun row => { row with state := 3 }) s.voters
      scopeDrains := amend (fun row => row.drainId == value.drainId && row.state == .evacuating)
        (fun row => { row with state := .membershipFenced }) s.scopeDrains }

/-! ## Committed entries -/

/-- An entity by kind and id, as the receipt of a command names it. -/
abbrev EntityReference := Nat × Nat

def workEntity : EntityReference := (48, work)
def targetEntity : EntityReference := (36, target)

def Command.kind : Command → Nat
  | .queue _ => 101
  | .claim _ => 102
  | .renew _ => 103
  | .complete _ => 104
  | .commit _ => 105
  | .plan _ => 167
  | .beginTarget _ => 107
  | .attest _ => 108
  | .beginScope _ => 111
  | .fence _ => 112

def execute (context : CommandContext) (revision : Revision) :
    Command → Except RepositoryError (EntityReference × Store)
  | .queue value => do
    let (work, next) ← queue s context value
    pure (workEntity work, next)
  | .claim value => do
    let next ← claim s context value
    pure (workEntity value.workId, next)
  | .renew value => do
    let next ← renew s context value
    pure (workEntity value.holder.workId, next)
  | .complete value => do
    let next ← complete s context value
    pure (workEntity value.holder.workId, next)
  | .plan value => do
    let next ← plan s context value
    pure (workEntity value.claim.workId, next)
  | .commit value => do
    let next ← commit s context value
    pure (workEntity value.holder.workId, next)
  | .beginTarget value => do
    let (target, next) ← beginTarget s context value revision
    pure (targetEntity target, next)
  | .beginScope value => do
    let next ← beginScope s value
    pure (workEntity value.drainId, next)
  | .fence value => do
    let next ← fenceNodeMembership s value
    pure (workEntity value.drainId, next)
  | .attest value => do
    let next ← attestTarget s context value revision
    pure (workEntity value.holder.workId, next)

def resultDigest (entity : EntityReference) (revision : Revision) (entry : Entry) : Digest :=
  .framed "" [(entity.1 : Int), entity.2, revision, entry.term, entry.index]

variable (entry : Entry)

/-- One committed entry whose operation is new. -/
def execEntry : Except RepositoryError Store := do
  require (!(s.reserved.contains entry.context.operationId)) .operationConflict
  require (!(entry.context.expectedRevision.any (· != s.revision))) .staleRevision
  checkedI64 (s.revision + 1)
  let (entity, next) ← execute s entry.context (s.revision + 1) entry.command
  require (!(s.auditEvents.contains entry.context.auditEventId)) .sqlite
  pure { next with
    revision := s.revision + 1
    auditEvents := s.auditEvents ++ [entry.context.auditEventId]
    operations := s.operations ++ [⟨entry.context.operationId, entry.command.kind, s.revision + 1,
      resultDigest entity (s.revision + 1) entry⟩] }

/-- A repeated operation is answered from its record and changes nothing. -/
def apply : Except RepositoryError Store :=
  if operationExists s entry.context.operationId then .ok s else execEntry s entry

/-- An entry that fails leaves the store as it was. -/
def step : Store :=
  match apply s entry with
  | .ok next => next
  | .error _ => s

def run (history : List Entry) : Store := history.foldl step s

end MeshSpan.Maintenance
