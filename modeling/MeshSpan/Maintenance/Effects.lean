import MeshSpan.Maintenance.Commands

/- What an accepted maintenance command has changed.

   `Effect` has one constructor for each way a command can succeed, with the checks
   that the invariants need; `effect_of_execute` shows that nothing else can happen. -/

namespace MeshSpan.Maintenance

open Rows Repository

/-! ## Checks -/

variable {s : Store} {work : WorkId} {context : CommandContext}

theorem loadJob_ok {job : Job} (h : loadJobForTransition s work = .ok job) :
    job? s work = some job := by
  unfold loadJobForTransition at h
  split at h
  · cases h
  · rename_i found read
    cases h
    exact read

/-- The holder of a live claim: the job is claimed and the first active claim is the holder's. -/
structure Holds (s : Store) (context : CommandContext) (holder : ClaimHolder) (claim : Claim) : Prop where
  found : activeClaim? s holder.workId = some claim
  job : ∃ job, job? s holder.workId = some job ∧ job.state = .claimed
  generation : claim.generation = holder.claimGeneration
  live : context.occurredAt < claim.leaseExpiresAt

theorem requireLiveClaim_ok {holder : ClaimHolder} {claim : Claim}
    (h : requireLiveClaim s context holder = .ok claim) : Holds s context holder claim := by
  obtain ⟨job, loaded, h⟩ := bind_eq_ok.mp h
  split at h
  · cases h
  rename_i active found
  obtain ⟨_, checks, h⟩ := bind_eq_ok.mp h
  cases h
  have checks := require_ok.mp checks
  simp only [Bool.and_eq_true, beq_iff_eq, decide_eq_true_eq] at checks
  exact ⟨found, ⟨job, loadJob_ok loaded, checks.1.1.1.1.1⟩, checks.1.1.1.1.2, checks.2⟩

/-! ## Effects -/

/-- The jobs after an accepted queue command: unchanged, one merged, or one more. -/
inductive Queued (s : Store) (value : QueueMaintenanceWork) : List Job → Prop where
  | same (existing : Job) (mem : existing ∈ s.jobs) (subject : existing.subject = value.subject)
    (id : existing.workId = value.workId ∨ ∀ job ∈ s.jobs, job.workId ≠ value.workId) :
    Queued s value s.jobs
  | merged (existing : Job) (mem : existing ∈ s.jobs) (subject : existing.subject = value.subject)
    (id : existing.workId = value.workId ∨ ∀ job ∈ s.jobs, job.workId ≠ value.workId) :
    Queued s value (amend (fun job => job.workId == existing.workId && job.state != .complete)
      (mergedJob value) s.jobs)
  | new (fresh : ∀ job ∈ s.jobs, job.workId ≠ value.workId) : Queued s value (s.jobs ++ [newJob value])

theorem workIdExists_false (h : workIdExists s work = false) : ∀ job ∈ s.jobs, job.workId ≠ work := by
  intro job mem same
  have taken : workIdExists s work = true := List.any_eq_true.mpr ⟨job, mem, by simpa using same⟩
  rw [taken] at h
  cases h

theorem queue_ok {s' : Store} {value : QueueMaintenanceWork}
    (h : queue s context value = .ok (work, s')) :
    ∃ jobs, s' = { s with jobs := jobs } ∧ Queued s value jobs := by
  replace h := passed h
  split at h
  · rename_i existing found
    obtain ⟨_, matched, h⟩ := bind_eq_ok.mp h
    have matched := require_ok.mp matched
    simp only [Bool.and_eq_true, Bool.or_eq_true, beq_iff_eq, Bool.not_eq_true'] at matched
    have mem := List.mem_of_find?_eq_some found
    have id := matched.2.imp_right workIdExists_false
    split at h
    · cases h
      exact ⟨s.jobs, rfl, .same existing mem matched.1 id⟩
    · replace h := passed h
      cases h
      exact ⟨_, rfl, .merged existing mem matched.1 id⟩
  · obtain ⟨_, free, -, -, h⟩ := bind₂_eq_ok.mp h
    cases h
    exact ⟨_, rfl, .new (workIdExists_false (by simpa using free))⟩

/-- What a repair commit has checked about its shard and its two receipts. -/
structure Repairs (s : Store) (value : CommitShardRepair) : Prop where
  volume : volumeActive s value.volumeId = true
  source : validReceipt value.sourceReceipt = true
  replacement : validReceipt value.replacementReceipt = true
  same : validReplacementIdentity value.sourceReceipt.shard value.replacementReceipt.shard = true
  target : activeTargetGenerationExists s value.replacementReceipt.targetId
    value.replacementReceipt.targetGeneration = true
  stripe : stripeAt s value.volumeId value.manifestId value.sourceReceipt value.sourceLayoutGeneration = true

inductive Effect (s : Store) (context : CommandContext) (revision : Revision) : Command → Store → Prop where
  | queued (value : QueueMaintenanceWork) (jobs : List Job) (done : Queued s value jobs) :
    Effect s context revision (.queue value) { s with jobs := jobs }
  | claimed (value : ClaimMaintenanceWork) (job : Job) (found : job? s value.workId = some job)
    (open' : job.state ≠ .complete) (next : value.claimGeneration = latestClaimGeneration s value.workId + 1) :
    Effect s context revision (.claim value) (claimedBy s value)
  | renewed (value : RenewMaintenanceWork) :
    Effect s context revision (.renew value) { s with
      claims := amend (fun row => row.workId == value.holder.workId &&
          row.generation == value.holder.claimGeneration && row.state == .active)
        (fun row => { row with leaseExpiresAt := value.leaseExpiresAt }) s.claims }
  | completed (value : CompleteMaintenanceWork) (claim : Claim) (job : Job) (state : JobState)
    (nextAttemptAt : UnixMicros) (holds : Holds s context value.holder claim)
    (found : job? s value.holder.workId = some job)
    (values : completionValues s context job value.outcome = .ok (state, nextAttemptAt)) :
    Effect s context revision (.complete value) (releasedBy s value.holder state nextAttemptAt)
  | planned (value : PlanShardRepair) (attempts : List RepairAttempt) :
    Effect s context revision (.plan value) { s with attempts := attempts }
  | committed (value : CommitShardRepair) (routes : List Route) (repairs : Repairs s value)
    (moved : replaceRepairRoute s.routes (routeOf value.manifestId value.replacementReceipt) = .ok routes) :
    Effect s context revision (.commit value) (committedBy s context value routes)
  | beganTarget (value : BeginStorageTargetDrain) (target : TargetId) (generation : Nat) (jobs : List Job)
    (subject : value.work.subject = .drain (.target target generation)) (done : Queued s value.work jobs)
    (exists' : ∃ job ∈ jobs, job.workId = value.work.workId)
    (fresh : ∀ old ∈ s.targetDrains, old.workId ≠ value.work.workId) (some' : gateways s ≠ []) :
    Effect s context revision (.beginTarget value) { s with
      jobs := jobs
      targetDrains := s.targetDrains ++ [targetDrainOf value target generation revision]
      participants := s.participants ++ snapshotGateways s value.work.workId
      targets := amend (startsDraining target generation)
        (fun row => { row with state := .draining, draining := true }) s.targets }
  | beganScope (value : BeginStorageScopeDrain) (drains : List ScopeDrain) (groups : List FaultGroup) :
    Effect s context revision (.beginScope value) { s with scopeDrains := drains, faultGroups := groups }
  | fenced (value : FenceStorageNodeDrainMembership) (voters : List PartitionVoter)
    (drains : List ScopeDrain) :
    Effect s context revision (.fence value) { s with
      nodes := nodesFenced value s.nodes
      voters := voters
      scopeDrains := drains }
  | attested (value : AttestStorageTargetDrain) (s' : Store)
    (worker : activeWorker s value.holder.workerNodeId value.holder.workerIncarnation = true)
    (finish : finishIfFullyAttested { s with participants := attestedBy s context value } context
      value.holder.workId revision = .ok s') :
    Effect s context revision (.attest value) s'

section

variable {s s' : Store} {context : CommandContext} {revision : Revision}

theorem effect_of_claim {value : ClaimMaintenanceWork} (h : claim s context value = .ok s') :
    Effect s context revision (.claim value) s' := by
  obtain ⟨-, -, -, -, job, loaded, h⟩ := bind₃_eq_ok.mp h
  obtain ⟨_, ready, -, -, _, next, h⟩ := bind₃_eq_ok.mp h
  obtain ⟨-, -, -, -, claims, inserted, h⟩ := bind₃_eq_ok.mp h
  cases h
  obtain ⟨rfl, _⟩ := insertUnique_ok inserted
  have ready := require_ok.mp ready
  have next := require_ok.mp next
  simp only [Bool.and_eq_true, bne_iff_ne, ne_eq, beq_iff_eq] at ready next
  exact .claimed value job (loadJob_ok loaded) ready.1 next.1

theorem effect_of_renew {value : RenewMaintenanceWork} (h : renew s context value = .ok s') :
    Effect s context revision (.renew value) s' := by
  obtain ⟨-, -, -, -, _, _, -, -, h⟩ := bind₄_eq_ok.mp h
  cases h
  exact .renewed value

theorem effect_of_complete {value : CompleteMaintenanceWork} (h : complete s context value = .ok s') :
    Effect s context revision (.complete value) s' := by
  obtain ⟨-, -, claim, live, job, loaded, ⟨state, nextAttemptAt⟩, values, h⟩ := bind₄_eq_ok.mp h
  cases h
  exact .completed value claim job state nextAttemptAt (requireLiveClaim_ok live) (loadJob_ok loaded) values

theorem effect_of_plan {value : PlanShardRepair} (h : plan s context value = .ok s') :
    Effect s context revision (.plan value) s' := by
  obtain ⟨-, -, _, _, -, -, -, -, h⟩ := bind₄_eq_ok.mp h
  obtain ⟨-, -, -, -, -, -, h⟩ := bind₃_eq_ok.mp h
  obtain ⟨-, h⟩ := guard_ok.mp h
  split at h
  · cases h
    exact .planned value _
  · cases h
    exact .planned value _

theorem effect_of_commit {value : CommitShardRepair} (h : commit s context value = .ok s') :
    Effect s context revision (.commit value) s' := by
  obtain ⟨-, -, _, _, -, -, _, subject, h⟩ := bind₄_eq_ok.mp h
  obtain ⟨-, -, _, stripe, -, -, h⟩ := bind₃_eq_ok.mp h
  obtain ⟨-, -, effects, inserted, routes, moved, h⟩ := bind₃_eq_ok.mp h
  cases h
  obtain ⟨rfl, _⟩ := insertUnique_ok inserted
  obtain ⟨job, _, subject⟩ := bind_eq_ok.mp subject
  split at subject
  · obtain ⟨_, checks, target⟩ := bind_eq_ok.mp subject
    have checks := require_ok.mp checks
    simp only [Bool.and_eq_true] at checks
    exact .committed value routes {
      volume := checks.1.2
      source := checks.1.1.1.1.1.1.2
      replacement := checks.1.1.1.1.1.2
      same := checks.1.1.1.1.2
      target := require_ok.mp target
      stripe := require_ok.mp stripe } moved
  · cases subject

theorem effect_of_beginTarget {value : BeginStorageTargetDrain} {target : TargetId}
    (h : beginTarget s context value revision = .ok (target, s')) :
    Effect s context revision (.beginTarget value) s' := by
  unfold beginTarget at h
  split at h
  · rename_i drained generation subject
    obtain ⟨-, -, ⟨work, queued⟩, isQueued, h⟩ := bind₂_eq_ok.mp h
    obtain ⟨_, present, drains, inserted, -, -, h⟩ := bind₃_eq_ok.mp h
    obtain ⟨_, some', -, -, -, -, h⟩ := bind₃_eq_ok.mp h
    cases h
    obtain ⟨jobs, rfl, done⟩ := queue_ok isQueued
    obtain ⟨rfl, free⟩ := insertUnique_ok inserted
    obtain ⟨job, mem, isWork⟩ := List.any_eq_true.mp (require_ok.mp present)
    refine .beganTarget value target generation jobs subject done ⟨job, mem, by simpa using isWork⟩
      (fun old isOld same => ?_) ?_
    · have apart := free old isOld
      simp [targetDrainOf, same] at apart
    · intro none
      have empty : gateways { s with jobs := jobs } = [] := none
      simp [empty] at some'
  · cases h

theorem effect_of_beginScope {value : BeginStorageScopeDrain} (h : beginScope s value = .ok s') :
    Effect s context revision (.beginScope value) s' := by
  obtain ⟨-, -, -, -, -, -, h⟩ := bind₃_eq_ok.mp h
  obtain ⟨_, _, -, -, h⟩ := bind₂_eq_ok.mp h
  cases h
  exact .beganScope value _ _

theorem effect_of_fence {value : FenceStorageNodeDrainMembership} (h : fenceNodeMembership s value = .ok s') :
    Effect s context revision (.fence value) s' := by
  unfold fenceNodeMembership at h
  split at h
  · cases h
  obtain ⟨-, -, -, -, -, -, h⟩ := bind₃_eq_ok.mp h
  cases h
  exact .fenced value _ _

theorem effect_of_attest {value : AttestStorageTargetDrain}
    (h : attestTarget s context value revision = .ok s') :
    Effect s context revision (.attest value) s' := by
  obtain ⟨_, worker, _, _, -, -, -, -, h⟩ := bind₄_eq_ok.mp h
  exact .attested value s' (require_ok.mp worker) h

theorem effect_of_execute {command : Command} {entity : EntityReference}
    (h : execute s context revision command = .ok (entity, s')) :
    Effect s context revision command s' := by
  cases command
  all_goals
    obtain ⟨_, done, h⟩ := bind_eq_ok.mp h
    cases h
  case queue =>
    obtain ⟨jobs, same, queued⟩ := queue_ok done
    rw [same]
    exact .queued _ jobs queued
  case claim => exact effect_of_claim done
  case renew => exact effect_of_renew done
  case complete => exact effect_of_complete done
  case plan => exact effect_of_plan done
  case commit => exact effect_of_commit done
  case beginTarget => exact effect_of_beginTarget done
  case beginScope => exact effect_of_beginScope done
  case fence => exact effect_of_fence done
  case attest => exact effect_of_attest done

end

/-- The last attestation makes the drain safe; any other leaves it as it is. -/
theorem finish_ok {t s' : Store} {revision : Revision}
    (h : finishIfFullyAttested t context work revision = .ok s') :
    ((∀ row ∈ t.participants, row.workId = work → row.attested.isSome) ∧
      (∃ drain ∈ t.targetDrains, drain.workId = work ∧ drain.state = .evacuating) ∧ s' = { t with
      drainEffects := t.drainEffects ++ [⟨context.operationId, work⟩]
      targetDrains := drainsSafe t work revision }) ∨
      ((∃ row ∈ t.participants, row.workId = work ∧ row.attested = none) ∧ s' = t) := by
  unfold finishIfFullyAttested at h
  split at h
  · rename_i all
    obtain ⟨_, present, effects, inserted, h⟩ := bind₂_eq_ok.mp h
    cases h
    obtain ⟨rfl, _⟩ := insertUnique_ok inserted
    obtain ⟨drain, isDrain, facts⟩ := List.any_eq_true.mp (require_ok.mp present)
    refine .inl ⟨fun row mem same => ?_, ⟨drain, isDrain, by simpa using facts⟩, rfl⟩
    exact List.all_eq_true.mp all row (List.mem_filter.mpr ⟨mem, by simpa using same⟩)
  · rename_i notAll
    cases h
    have left : ∃ row ∈ participantsOf t work, row.attested.isSome ≠ true := by simpa using notAll
    obtain ⟨row, mem, pending⟩ := left
    obtain ⟨stored, same⟩ := List.mem_filter.mp mem
    exact .inr ⟨⟨row, stored, by simpa using same, by simpa using pending⟩, rfl⟩

/-! ## Steps -/

/-- The operation, its audit event and the revision are recorded with what the command did. -/
def recorded (next : Store) (entry : Entry) (revision : Revision) (operations : List OperationRecord)
    (events : List AuditEventId) (digest : Digest) : Store :=
  { next with
    revision := revision
    auditEvents := events ++ [entry.context.auditEventId]
    operations := operations ++ [⟨entry.context.operationId, entry.command.kind, revision, digest⟩] }

theorem execEntry_ok {s' : Store} {entry : Entry} (h : execEntry s entry = .ok s') :
    ∃ next digest, Effect s entry.context (s.revision + 1) entry.command next ∧
      s' = recorded next entry (s.revision + 1) s.operations s.auditEvents digest := by
  obtain ⟨-, -, -, -, -, -, ⟨entity, next⟩, executed, h⟩ := bind₄_eq_ok.mp h
  replace h := passed h
  exact ⟨next, _, effect_of_execute executed, (Except.ok.inj h).symm⟩

/-- An entry changes nothing, or it has one effect and its operation is new. -/
theorem step_cases (s : Store) (entry : Entry) :
    step s entry = s ∨ ∃ next digest, operationExists s entry.context.operationId = false ∧
      Effect s entry.context (s.revision + 1) entry.command next ∧
      step s entry = recorded next entry (s.revision + 1) s.operations s.auditEvents digest := by
  unfold step apply
  split
  · rename_i next done
    split at done
    · cases done
      exact Or.inl rfl
    · rename_i isNew
      obtain ⟨next, digest, effect, same⟩ := execEntry_ok done
      exact Or.inr ⟨next, digest, Bool.not_eq_true _ ▸ isNew, effect, same⟩
  · exact Or.inl rfl

end MeshSpan.Maintenance
