import MeshSpan.Maintenance.Invariant

/- Target drains: one that is not safe can still be worked on.

   The participants of a drain are the gateways at its begin. Each of them attests once,
   under a claim of the drain's job, and only an active node can hold a claim. `Draining`
   says that the job of an evacuating drain is open and that every gateway that still
   owes its attestation is an active node. A fence on a gateway that owes one would
   break it, as would a drain that begins with a gateway which is not active yet; the
   condition `CarefulCommand` leaves both out. -/

namespace MeshSpan.Maintenance

open Rows Repository List

/-! ## Jobs of drains -/

def effectOfDrain (s : Store) (work : WorkId) : Prop := ∃ effect ∈ s.drainEffects, effect.workId = work

/-- An open drain job stays open until its effect is recorded, and only then is it complete. -/
structure JobsKept (s : Store) (jobs : List Job) : Prop where
  open' : ∀ old ∈ s.jobs, old.subject.kind = .drain → old.state ≠ .complete →
    (∃ job ∈ jobs, job.workId = old.workId ∧ job.subject = old.subject ∧ job.state ≠ .complete) ∨
      effectOfDrain s old.workId
  closed : ∀ job ∈ jobs, job.subject.kind = .drain → job.state = .complete →
    (∃ old ∈ s.jobs, old.workId = job.workId ∧ old.subject = job.subject ∧ old.state = .complete) ∨
      effectOfDrain s job.workId

theorem JobsKept.refl (s : Store) : JobsKept s s.jobs where
  open' old mem _ state := .inl ⟨old, mem, rfl, rfl, state⟩
  closed job mem _ state := .inl ⟨job, mem, rfl, rfl, state⟩

variable {s : Store} {jobs : List Job}

theorem JobsKept.queued {value : QueueMaintenanceWork} (done : Queued s value jobs) : JobsKept s jobs where
  open' old mem _ state := by
    obtain ⟨job, isJob, work, subject, same⟩ := done.kept mem
    exact .inl ⟨job, isJob, work, subject, same ▸ state⟩
  closed job mem _ state := by
    rcases done.subject mem with ⟨old, isOld, work, subject, same⟩ | rfl
    · exact .inl ⟨old, isOld, work, subject, same.trans state⟩
    · cases state

theorem JobsKept.claim (s : Store) (value : ClaimMaintenanceWork) :
    JobsKept s (claimedBy s value).jobs where
  open' old mem _ state :=
    .inl (exists_amend (fun _ kept => ⟨kept.1, kept.2.1, JobState.noConfusion⟩) ⟨old, mem, rfl, rfl, state⟩)
  closed job mem _ state := by
    obtain ⟨old, isOld, rfl⟩ := mem_amend.mp mem
    split at state
    · cases state
    · rename_i kept
      rw [if_neg kept]
      exact .inl ⟨old, isOld, rfl, rfl, state⟩

variable {horizon : UnixMicros} {context : CommandContext}

theorem JobsKept.complete (h : Working horizon s)
    {holder : ClaimHolder} {job : Job} {outcome : WorkCompletion} {state : JobState}
    {nextAttemptAt : UnixMicros} (found : job? s holder.workId = some job)
    (values : completionValues s context job outcome = .ok (state, nextAttemptAt)) :
    JobsKept s (releasedBy s holder state nextAttemptAt).jobs := by
  obtain ⟨isJob, key⟩ := get_mem found
  -- a drain job that becomes complete has its effect recorded
  have recorded : ∀ old ∈ s.jobs, old.workId = holder.workId → old.subject.kind = .drain → state = .complete →
      effectOfDrain s old.workId := by
    intro old mem same kind complete
    have isSame : old = job := h.keyed.eq_of_key mem isJob (same.trans key.symm)
    subst isSame
    rcases completionValues_ok values with ⟨queued, _⟩ | ⟨_, _, operation, effect⟩
    · rw [queued] at complete
      cases complete
    · rw [kind] at effect
      obtain ⟨row, isRow, facts⟩ := any_eq_true.mp effect
      simp only [Bool.and_eq_true, beq_iff_eq] at facts
      exact ⟨row, isRow, facts.2⟩
  refine ⟨fun old mem kind open' => ?_, fun after mem kind closed => ?_⟩
  · by_cases matched : (old.workId == holder.workId && old.state == .claimed) = true
    · have same : old.workId = holder.workId := by
        simp only [Bool.and_eq_true, beq_iff_eq] at matched
        exact matched.1
      by_cases complete : state = .complete
      · exact .inr (recorded old mem same kind complete)
      · refine .inl ⟨_, mem_amend.mpr ⟨old, mem, rfl⟩, ?_⟩
        rw [if_pos matched]
        exact ⟨rfl, rfl, complete⟩
    · refine .inl ⟨old, mem_amend.mpr ⟨old, mem, if_neg matched⟩, rfl, rfl, open'⟩
  · obtain ⟨old, isOld, rfl⟩ := mem_amend.mp mem
    by_cases matched : (old.workId == holder.workId && old.state == .claimed) = true
    · rw [if_pos matched] at closed kind ⊢
      simp only [Bool.and_eq_true, beq_iff_eq] at matched
      exact .inr (recorded old isOld matched.1 kind closed)
    · rw [if_neg matched] at closed ⊢
      exact .inl ⟨old, isOld, rfl, rfl, closed⟩

/-! ## Drains -/

/-- A drain that is not safe has an open job, and only active nodes still owe it an attestation. -/
structure Draining (s : Store) : Prop where
  keyed : Keyed TargetDrain.workId s.targetDrains
  jobs : ∀ drain ∈ s.targetDrains, drain.state = .evacuating → ∃ job ∈ s.jobs,
    job.workId = drain.workId ∧
    job.subject = .drain (.target drain.targetId drain.targetGeneration) ∧ job.state ≠ .complete
  revisions : ∀ drain ∈ s.targetDrains, 0 < drain.revision ∧ drain.revision ≤ s.revision
  registered : ∀ row ∈ s.participants, ∃ drain ∈ s.targetDrains, drain.workId = row.workId
  pending : ∀ row ∈ s.participants, row.attested = none → activeWorker s row.nodeId row.nodeIncarnation = true
  owed : ∀ drain ∈ s.targetDrains, drain.state = .evacuating →
    ∃ row ∈ s.participants, row.workId = drain.workId ∧ row.attested = none
  few : ∀ work, (participantsOf s work).length ≤ s.nodes.length
  effects : ∀ effect ∈ s.drainEffects, operationExists s effect.effectOperationId = true ∧
    ∃ drain ∈ s.targetDrains, drain.workId = effect.workId ∧ drain.state ≠ .evacuating
  completed : ∀ job ∈ s.jobs, job.subject.kind = .drain → job.state = .complete →
    effectOfDrain s job.workId

variable {drain : TargetDrain} {entry : Entry} {value : FenceStorageNodeDrainMembership}

theorem Draining.not_evacuating (h : Draining s) (mem : drain ∈ s.targetDrains)
    (effect : effectOfDrain s drain.workId) : drain.state ≠ .evacuating := by
  obtain ⟨row, isRow, work⟩ := effect
  obtain ⟨_, safe, isSafe, same, state⟩ := h.effects row isRow
  have isDrain : safe = drain := h.keyed.eq_of_key isSafe mem (same.trans work)
  exact isDrain ▸ state

theorem Draining.jobs_kept (h : Draining s) (kept : JobsKept s jobs) (mem : drain ∈ s.targetDrains)
    (state : drain.state = .evacuating) : ∃ job ∈ jobs, job.workId = drain.workId ∧
      job.subject = .drain (.target drain.targetId drain.targetGeneration) ∧ job.state ≠ .complete := by
  obtain ⟨old, isOld, work, subject, open'⟩ := h.jobs drain mem state
  rcases kept.open' old isOld (by rw [subject]; rfl) open' with ⟨job, isJob, same, sameSubject, still⟩ | effect
  · exact ⟨job, isJob, same.trans work, sameSubject.trans subject, still⟩
  · exact absurd state (h.not_evacuating mem (work ▸ effect))

theorem Draining.completed_kept (h : Draining s) (kept : JobsKept s jobs) :
    ∀ job ∈ jobs, job.subject.kind = .drain → job.state = .complete → effectOfDrain s job.workId := by
  intro job mem kind state
  rcases kept.closed job mem kind state with ⟨old, isOld, work, subject, closed⟩ | effect
  · exact work ▸ h.completed old isOld (subject ▸ kind) closed
  · exact effect

variable {next : Store} {events : List AuditEventId} {digest : Digest}

theorem Draining.revisions_succ (h : Draining s) :
    ∀ drain ∈ s.targetDrains, 0 < drain.revision ∧ drain.revision ≤ s.revision + 1 :=
  fun drain mem => (h.revisions drain mem).imp_right (·.trans (Nat.le_succ _))

theorem Draining.record (h : Draining s) (nodes : next.nodes = s.nodes)
    (drains : next.targetDrains = s.targetDrains) (participants : next.participants = s.participants)
    (effects : next.drainEffects = s.drainEffects) (kept : JobsKept s next.jobs) :
    Draining (recorded next entry (s.revision + 1) s.operations events digest) := by
  refine ⟨?_, fun drain mem state => ?_, fun drain mem => ?_, fun row mem => ?_, fun row mem pending => ?_,
    fun drain mem state => ?_, fun work => ?_, fun effect mem => ?_, fun job mem kind state => ?_⟩
  · show Keyed _ next.targetDrains
    rw [drains]
    exact h.keyed
  · exact h.jobs_kept kept (drains ▸ mem : drain ∈ s.targetDrains) state
  · exact h.revisions_succ drain (drains ▸ mem : drain ∈ s.targetDrains)
  · show ∃ drain ∈ next.targetDrains, _
    rw [drains]
    exact h.registered row (participants ▸ mem : row ∈ s.participants)
  · have active := h.pending row (participants ▸ mem : row ∈ s.participants) pending
    show (_ && next.nodes.any _) = true
    rw [nodes]
    exact active
  · show ∃ row ∈ next.participants, _
    rw [participants]
    exact h.owed drain (drains ▸ mem : drain ∈ s.targetDrains) state
  · show (next.participants.filter _).length ≤ next.nodes.length
    rw [participants, nodes]
    exact h.few work
  · obtain ⟨known, drain, isDrain, facts⟩ := h.effects effect (effects ▸ mem : effect ∈ s.drainEffects)
    exact ⟨operationExists_recorded known, drain, drains.symm ▸ isDrain, facts⟩
  · obtain ⟨effect, isEffect, same⟩ := h.completed_kept kept job mem kind state
    exact ⟨effect, effects.symm ▸ isEffect, same⟩

/-! ## A drain begins -/

/-- The job of a new drain is open: a complete one would have left an effect and a drain. -/
theorem Draining.begun_job (h : Draining s) {value : QueueMaintenanceWork}
    {scope : DrainScope} (subject : value.subject = .drain scope) (done : Queued s value jobs)
    (exists' : ∃ job ∈ jobs, job.workId = value.workId)
    (fresh : ∀ old ∈ s.targetDrains, old.workId ≠ value.workId) (keyed : Keyed Job.workId s.jobs) :
    ∃ job ∈ jobs, job.workId = value.workId ∧ job.subject = .drain scope ∧ job.state ≠ .complete := by
  obtain ⟨job, isJob, work⟩ := exists'
  have notComplete : ∀ old ∈ s.jobs, old.workId = value.workId → old.subject = .drain scope →
      old.state ≠ .complete := by
    intro old isOld same drain state
    obtain ⟨effect, isEffect, key⟩ := h.completed old isOld (by rw [drain]; rfl) state
    obtain ⟨_, before, isBefore, owner, _⟩ := h.effects effect isEffect
    exact fresh before isBefore (owner.trans (key.trans same))
  rcases done.subject isJob with ⟨old, isOld, sameWork, sameSubject, sameState⟩ | rfl
  · -- the id is known, so the job found by its key is this one
    have known : old.subject = value.subject := by
      have matched : ∀ existing ∈ s.jobs, existing.subject = value.subject →
          (existing.workId = value.workId ∨ ∀ job ∈ s.jobs, job.workId ≠ value.workId) →
          old.subject = value.subject := by
        intro existing isExisting same id
        rcases id with isId | none
        · have isSame : existing = old :=
            keyed.eq_of_key isExisting isOld (isId.trans (work.symm.trans sameWork.symm))
          exact isSame ▸ same
        · exact absurd (sameWork.trans work) (none old isOld)
      cases done with
      | same existing isExisting same id => exact matched existing isExisting same id
      | merged existing isExisting same id => exact matched existing isExisting same id
      | new unused => exact absurd (sameWork.trans work) (unused old isOld)
    refine ⟨job, isJob, work, sameSubject ▸ known.trans subject, ?_⟩
    rw [← sameState]
    exact notComplete old isOld (sameWork.trans work) (known.trans subject)
  · exact ⟨_, isJob, rfl, subject, JobState.noConfusion⟩

theorem Draining.no_participants (h : Draining s) {work : WorkId}
    (fresh : ∀ old ∈ s.targetDrains, old.workId ≠ work) : participantsOf s work = [] := by
  refine filter_eq_nil_iff.mpr fun row mem same => ?_
  obtain ⟨drain, isDrain, owner⟩ := h.registered row mem
  exact fresh drain isDrain (owner.trans (by simpa using same))

variable {index term : Nat}

theorem Draining.beginTarget {value : BeginStorageTargetDrain}
    {target : TargetId} {generation : Nat} {targets : List StorageTarget} (h : Draining s)
    (working : Working horizon s)
    (active : ∀ node ∈ gateways s, activeWorker s node.nodeId node.currentIncarnation = true)
    (subject : value.work.subject = .drain (.target target generation)) (done : Queued s value.work jobs)
    (exists' : ∃ job ∈ jobs, job.workId = value.work.workId)
    (fresh : ∀ old ∈ s.targetDrains, old.workId ≠ value.work.workId) (some' : gateways s ≠ []) :
    Draining (recorded { s with
      jobs := jobs
      targetDrains := s.targetDrains ++ [targetDrainOf value target generation (s.revision + 1)]
      participants := s.participants ++ snapshotGateways s value.work.workId
      targets := targets } ⟨context, .beginTarget value, index, term⟩ (s.revision + 1) s.operations
      events digest) := by
  have kept := JobsKept.queued done
  obtain ⟨gateway, isGateway⟩ := exists_mem_of_ne_nil _ some'
  refine ⟨keyed_append h.keyed fresh,
    forall_mem_append.mpr ⟨fun drain => h.jobs_kept kept, forall_mem_singleton.mpr fun _ =>
      h.begun_job subject done exists' fresh working.keyed⟩,
    forall_mem_append.mpr ⟨h.revisions_succ,
      forall_mem_singleton.mpr ⟨Nat.succ_pos _, Nat.le_refl _⟩⟩,
    forall_mem_append.mpr ⟨fun row old => ?_, forall_mem_map.mpr fun node _ =>
      ⟨_, mem_append_right _ mem_cons_self, rfl⟩⟩,
    forall_mem_append.mpr ⟨h.pending, forall_mem_map.mpr fun node isNode _ => active node isNode⟩,
    forall_mem_append.mpr ⟨fun drain old state => ?_, forall_mem_singleton.mpr fun _ =>
      ⟨_, mem_append_right _ (mem_map_of_mem isGateway), rfl, rfl⟩⟩,
    fun work => ?_, fun effect mem => ?_, h.completed_kept kept⟩
  · obtain ⟨drain, isDrain, owner⟩ := h.registered row old
    exact ⟨drain, mem_append_left _ isDrain, owner⟩
  · obtain ⟨row, isRow, facts⟩ := h.owed drain old state
    exact ⟨row, mem_append_left _ isRow, facts⟩
  · show ((s.participants ++ snapshotGateways s value.work.workId).filter _).length ≤ s.nodes.length
    rw [filter_append]
    by_cases same : work = value.work.workId
    · have none : s.participants.filter (·.workId == work) = [] :=
        h.no_participants (same ▸ fresh)
      rw [none, nil_append]
      refine (length_filter_le _ _).trans ?_
      rw [snapshotGateways, length_map]
      exact length_filter_le _ _
    · have none : (snapshotGateways s value.work.workId).filter (·.workId == work) = [] := by
        refine filter_eq_nil_iff.mpr fun row mem isWork => ?_
        obtain ⟨node, _, rfl⟩ := mem_map.mp mem
        exact same (by simpa using isWork : value.work.workId = work).symm
      rw [none, append_nil]
      exact h.few work
  · obtain ⟨known, drain, isDrain, facts⟩ := h.effects effect mem
    exact ⟨operationExists_recorded known, drain, mem_append_left _ isDrain, facts⟩

/-! ## A node is fenced -/

theorem activeWorker_fence {node : NodeId} {incarnation : Nat} (other : node ≠ value.nodeId)
    (active : activeWorker s node incarnation) (voters : List PartitionVoter)
    (drains : List ScopeDrain) : activeWorker { s with
      nodes := nodesFenced value s.nodes
      voters := voters
      scopeDrains := drains } node incarnation = true := by
  obtain ⟨positive, isActive⟩ := Bool.and_eq_true_iff.mp active
  obtain ⟨row, mem, facts⟩ := any_eq_true.mp isActive
  refine Bool.and_eq_true_iff.mpr ⟨positive, any_eq_true.mpr ⟨row, ?_, facts⟩⟩
  refine mem_amend_of_not mem ?_
  simp only [Bool.and_eq_true, beq_iff_eq] at facts
  have apart : row.nodeId ≠ value.nodeId := facts.1.1.1 ▸ other
  simp [fencedNode, apart]

theorem Draining.fence {voters : List PartitionVoter} {drains : List ScopeDrain} (h : Draining s)
    (attested : ∀ row ∈ s.participants, row.nodeId = value.nodeId → row.attested.isSome) :
    Draining (recorded { s with
      nodes := nodesFenced value s.nodes
      voters := voters
      scopeDrains := drains } ⟨context, .fence value, index, term⟩ (s.revision + 1) s.operations
      events digest) where
  keyed := h.keyed
  jobs := h.jobs
  revisions := h.revisions_succ
  registered := h.registered
  pending row mem pending := by
    have other : row.nodeId ≠ value.nodeId := by
      intro same
      have done := attested row mem same
      rw [pending] at done
      cases done
    exact activeWorker_fence other (h.pending row mem pending) voters drains
  owed := h.owed
  few work := by
    show _ ≤ (amend _ _ s.nodes).length
    rw [length_amend]
    exact h.few work
  effects effect mem := (h.effects effect mem).imp_left operationExists_recorded
  completed := h.completed

/-! ## A gateway attests -/

variable {value : AttestStorageTargetDrain}

theorem length_attestedBy (s : Store) (context : CommandContext) (value : AttestStorageTargetDrain)
    (work : WorkId) : ((attestedBy s context value).filter (·.workId == work)).length =
      (participantsOf s work).length := by
  unfold attestedBy
  rw [filter_amend (by exact fun _ => rfl), length_amend]
  rfl

theorem mem_attestedBy_of_other
    {row : Participant} (mem : row ∈ s.participants) (other : row.workId ≠ value.holder.workId) :
    row ∈ attestedBy s context value :=
  mem_amend_of_not mem (by simp [owesAttestation, other])

theorem Draining.attest (h : Draining s)
    (finish : finishIfFullyAttested { s with participants := attestedBy s context value } context
      value.holder.workId (s.revision + 1) = .ok next) :
    Draining (recorded next ⟨context, .attest value, index, term⟩ (s.revision + 1) s.operations events
      digest) := by
  have registered : ∀ row ∈ attestedBy s context value,
      ∃ drain ∈ s.targetDrains, drain.workId = row.workId := forall_amend h.registered h.registered
  have pending : ∀ row ∈ attestedBy s context value, row.attested = none →
      activeWorker s row.nodeId row.nodeIncarnation = true := forall_amend (fun _ _ => nofun) h.pending
  have few : ∀ work, ((attestedBy s context value).filter (·.workId == work)).length ≤
      s.nodes.length := by
    intro work
    rw [length_attestedBy]
    exact h.few work
  have other : ∀ drain ∈ s.targetDrains, drain.state = .evacuating → drain.workId ≠ value.holder.workId →
      ∃ row ∈ attestedBy s context value, row.workId = drain.workId ∧ row.attested = none := by
    intro drain mem state apart
    obtain ⟨row, isRow, owner, none⟩ := h.owed drain mem state
    exact ⟨row, mem_attestedBy_of_other isRow (owner ▸ apart), owner, none⟩
  rcases finish_ok finish with ⟨_, ⟨drained, isDrained, isWork, _⟩, rfl⟩ | ⟨⟨left, isLeft, owner, none⟩, rfl⟩
  · -- the drain of this work is safe now; the others are as they were
    have after : ∀ drain ∈ drainsSafe { s with participants := attestedBy s context value }
        value.holder.workId (s.revision + 1), drain.state = .evacuating →
        drain ∈ s.targetDrains ∧ drain.workId ≠ value.holder.workId := by
      intro drain mem state
      obtain ⟨old, isOld, rfl⟩ := mem_amend.mp mem
      split at state
      · cases state
      rename_i kept
      rw [if_neg kept]
      refine ⟨isOld, fun same => kept ?_⟩
      simp [same, state]
    have onward : ∀ drain ∈ s.targetDrains, ∃ later ∈ drainsSafe { s with
        participants := attestedBy s context value } value.holder.workId (s.revision + 1), later.workId = drain.workId ∧
        (drain.state ≠ .evacuating ∨ drain.workId = value.holder.workId → later.state ≠ .evacuating) := by
      intro drain mem
      refine ⟨_, mem_amend.mpr ⟨drain, mem, rfl⟩, ?_⟩
      split
      · exact ⟨rfl, fun _ state => nomatch state⟩
      rename_i kept
      refine ⟨rfl, fun cause state => ?_⟩
      rcases cause with safe | same
      · exact safe state
      · exact kept (by simp [same, state])
    refine ⟨keyed_amend (by exact fun _ => rfl) h.keyed,
      fun drain mem state => h.jobs drain (after drain mem state).1 state,
      forall_amend (fun _ _ => ⟨Nat.succ_pos _, Nat.le_refl _⟩) h.revisions_succ,
      fun row mem => ?_, pending, fun drain mem state => ?_, few, fun effect mem => ?_,
      fun job mem kind state => ?_⟩
    · obtain ⟨drain, isDrain, owner⟩ := registered row mem
      obtain ⟨later, isLater, same, _⟩ := onward drain isDrain
      exact ⟨later, isLater, same.trans owner⟩
    · exact other drain (after drain mem state).1 state (after drain mem state).2
    · rcases mem_snoc.mp mem with old | rfl
      · obtain ⟨known, drain, isDrain, owner, state⟩ := h.effects effect old
        obtain ⟨later, isLater, same, safe⟩ := onward drain isDrain
        exact ⟨operationExists_recorded known, later, isLater, same.trans owner, safe (.inl state)⟩
      · obtain ⟨later, isLater, same, safe⟩ := onward drained isDrained
        exact ⟨operationExists_new, later, isLater, same.trans isWork, safe (.inr isWork)⟩
    · obtain ⟨effect, isEffect, owner⟩ := h.completed job mem kind state
      exact ⟨effect, mem_append_left _ isEffect, owner⟩
  · refine ⟨h.keyed, h.jobs, h.revisions_succ, registered, pending, fun drain mem state => ?_, few,
      fun effect mem => (h.effects effect mem).imp_left operationExists_recorded, h.completed⟩
    by_cases same : drain.workId = value.holder.workId
    · exact ⟨left, isLeft, owner.trans same.symm, none⟩
    · exact other drain mem state same

/-! ## Every step -/

theorem Draining.effect (h : Draining s) (working : Working horizon s)
    (careful : CarefulCommand s entry.command)
    (done : Effect s entry.context (s.revision + 1) entry.command next) :
    Draining (recorded next entry (s.revision + 1) s.operations events digest) := by
  cases entry with
  | mk context command index term =>
  cases done with
  | queued value jobs queued => exact h.record rfl rfl rfl rfl (.queued queued)
  | claimed value job found open' next => exact h.record rfl rfl rfl rfl (.claim s value)
  | completed value claim job state nextAttemptAt holds found values =>
    exact h.record rfl rfl rfl rfl (.complete working found values)
  | beganTarget value target generation jobs subject queued exists' fresh some' =>
    exact h.beginTarget working careful subject queued exists' fresh some'
  | fenced value voters drains => exact h.fence careful
  | attested value next worker finish => exact h.attest finish
  | _ => exact h.record rfl rfl rfl rfl (.refl s)

end MeshSpan.Maintenance
