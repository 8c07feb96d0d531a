import MeshSpan.Maintenance.Routes
import MeshSpan.Maintenance.Drains

/- What can still be done from a sound state.

   `Reaches` is a sequence of accepted commands of active nodes. A job that is not
   complete can be claimed by any active node once its lease has run out, that is at the
   horizon of the run. Under such a claim a gateway attests for a drain, and a shard is
   repaired onto any target that may receive it. -/

namespace MeshSpan.Maintenance

open Rows Repository List

/-! ## Accepted commands -/

/-- The node that a command names as its worker. -/
def Command.IssuedBy (node : NodeId) (incarnation : Nat) : Command → Prop
  | .claim value => value.workerNodeId = node ∧ value.workerIncarnation = incarnation
  | .renew value => value.holder.workerNodeId = node ∧ value.holder.workerIncarnation = incarnation
  | .complete value => value.holder.workerNodeId = node ∧ value.holder.workerIncarnation = incarnation
  | .plan value => value.claim.workerNodeId = node ∧ value.claim.workerIncarnation = incarnation
  | .commit value => value.holder.workerNodeId = node ∧ value.holder.workerIncarnation = incarnation
  | .attest value => value.holder.workerNodeId = node ∧ value.holder.workerIncarnation = incarnation
  | _ => True

/-- Instants are signed 64-bit counts. -/
def Entry.Typed (entry : Entry) : Prop :=
  ∀ t ∈ entry.instants, -(i64Max : Int) - 1 ≤ t ∧ t ≤ i64Max

/-- Commands of active nodes, each new and each accepted. -/
inductive Reaches : Store → Store → Prop where
  | refl (s : Store) : Reaches s s
  | step {s t u : Store} (entry : Entry) (typed : entry.Typed)
    (issuer : ∃ node incarnation, activeWorker s node incarnation = true ∧
      entry.command.IssuedBy node incarnation)
    (new : operationExists s entry.context.operationId = false) (accepted : apply s entry = .ok t)
    (rest : Reaches t u) : Reaches s u

variable {s : Store}

theorem Reaches.trans {t u : Store} (first : Reaches s t) (second : Reaches t u) : Reaches s u := by
  induction first with
  | refl => exact second
  | step entry typed issuer new accepted _ ih => exact .step entry typed issuer new accepted (ih second)

structure Fresh (s : Store) (instant : UnixMicros) (context : CommandContext) : Prop where
  instant : context.occurredAt = instant
  operation : operationExists s context.operationId = false
  unreserved : context.operationId ∉ s.reserved
  event : context.auditEventId ∉ s.auditEvents
  unconditional : context.expectedRevision = none

theorem exists_notMem (used : List Nat) : ∃ n, n ∉ used := by
  refine ⟨used.foldl (fun best n => max best n) 0 + 1, fun mem => ?_⟩
  exact Nat.not_succ_le_self _ ((le_foldl_max (fun n => n) used 0).2 _ mem)

theorem exists_fresh (s : Store) (instant : UnixMicros) : ∃ context, Fresh s instant context := by
  obtain ⟨operation, newOperation⟩ := exists_notMem (s.operations.map OperationRecord.operationId ++ s.reserved)
  obtain ⟨event, newEvent⟩ := exists_notMem s.auditEvents
  rw [mem_append, not_or] at newOperation
  refine ⟨⟨operation, 0, event, instant, none⟩, rfl, ?_, newOperation.2, newEvent, rfl⟩
  refine eq_false_of_ne_true fun taken => newOperation.1 ?_
  obtain ⟨row, mem, same⟩ := any_eq_true.mp taken
  exact mem_map.mpr ⟨row, mem, by simpa using same⟩

variable {context : CommandContext} {command : Command} {entity : EntityReference}
  {revision : Revision} {entry : Entry}

theorem apply_accepted {next : Store} {instant : UnixMicros} (fresh : Fresh s instant context)
    (room : s.revision + 1 ≤ i64Max)
    (done : execute s context (s.revision + 1) command = .ok (entity, next)) :
    ∃ digest, apply s ⟨context, command, 0, 0⟩ =
      .ok (recorded next ⟨context, command, 0, 0⟩ (s.revision + 1) s.operations s.auditEvents digest) := by
  refine ⟨resultDigest entity (s.revision + 1) ⟨context, command, 0, 0⟩, ?_⟩
  unfold apply
  rw [if_neg (by rw [fresh.operation]; decide)]
  refine bind₄_eq_ok.mpr ⟨(), require_ok.mpr (by simpa using fresh.unreserved), (),
    require_ok.mpr (by simp [fresh.unconditional]), (), if_neg (not_lt.mpr room), (entity, next), done, ?_⟩
  exact bind_eq_ok.mpr ⟨(), require_ok.mpr (by simpa using fresh.event), rfl⟩

/-! ## Sound states -/

/-- What the schema checks of the tables that maintenance only reads. -/
structure Tables (s : Store) : Prop where
  incarnations : ∀ node ∈ s.nodes, node.currentIncarnation ≠ 0
  generations : ∀ row ∈ s.generations, 0 < row.generation ∧ row.generation ≤ i64Max

structure Sound (horizon : UnixMicros) (s : Store) : Prop where
  tables : Tables s
  working : Working horizon s
  routed : Routed s
  draining : Draining s

variable {horizon : UnixMicros}

theorem Sound.mono {later : UnixMicros} (h : Sound horizon s) (le : horizon ≤ later) :
    Sound later s := { h with working := h.working.mono le }

theorem Effect.nodes {next : Store} (done : Effect s context revision command next) :
    next.generations = s.generations ∧ ∃ p, next.nodes = amend p (fun row => { row with state := .draining })
      s.nodes := by
  have same : ∃ p, s.nodes = amend p (fun row => { row with state := .draining }) s.nodes :=
    ⟨fun _ => false, (amend_none _ _).symm⟩
  cases done with
  | fenced value voters drains => exact ⟨rfl, fencedNode value, rfl⟩
  | attested value next worker finish =>
    rcases finish_ok finish with ⟨_, _, rfl⟩ | ⟨_, rfl⟩ <;> exact ⟨rfl, same⟩
  | _ => exact ⟨rfl, same⟩

theorem Tables.effect {next : Store} (h : Tables s) (done : Effect s context revision command next) :
    Tables next := by
  obtain ⟨generations, p, nodes⟩ := done.nodes
  refine ⟨fun node mem => ?_, generations ▸ h.generations⟩
  rw [nodes] at mem
  exact forall_amend h.incarnations h.incarnations _ mem

section

variable (h : Sound horizon s) (careful : CarefulCommand s entry.command)
  (before : Before horizon entry)

include h careful before

theorem Sound.recorded {next : Store} {digest : Digest}
    (done : Effect s entry.context (s.revision + 1) entry.command next) :
    Sound horizon (recorded next entry (s.revision + 1) s.operations s.auditEvents digest) where
  tables := ⟨(h.tables.effect done).incarnations, (h.tables.effect done).generations⟩
  working := h.working.effect before done
  routed := h.routed.effect careful done
  draining := h.draining.effect h.working careful done

/-- A careful step keeps a sound state sound. -/
theorem Sound.step : Sound horizon (step s entry) := by
  rcases step_cases s entry with same | ⟨next, digest, _, done, same⟩
  · rw [same]
    exact h
  · rw [same]
    exact h.recorded careful before done

end

/-- The log has room for `n` more commands. -/
def HasRoom (revision n : Nat) : Prop := revision + n ≤ i64Max

variable {n : Nat} {revision : Nat} {horizon : Int}

theorem HasRoom.one (h : HasRoom revision (n + 1)) : revision + 1 ≤ i64Max := by
  unfold HasRoom at h
  omega

theorem HasRoom.next (h : HasRoom revision (n + 1)) : HasRoom (revision + 1) n := by
  unfold HasRoom at h ⊢
  omega

/-- The clock has room for `n` more instants. -/
structure InRange (horizon : Int) (n : Nat) : Prop where
  low : -(i64Max : Int) - 1 ≤ horizon
  high : horizon + n ≤ i64Max

theorem InRange.next (range : InRange horizon (n + 1)) : InRange (horizon + 1) n := by
  obtain ⟨low, high⟩ := range
  push_cast at high
  exact ⟨by omega, by omega⟩

theorem InRange.instants (range : InRange horizon (n + 1)) :
    ∀ t ∈ [horizon, horizon + 1], -(i64Max : Int) - 1 ≤ t ∧ t ≤ i64Max := by
  obtain ⟨low, high⟩ := range
  push_cast at high
  intro t mem
  simp only [mem_cons, not_mem_nil, or_false] at mem
  omega

theorem le_next (horizon : Int) : ∀ t ∈ [horizon, horizon + 1], t ≤ horizon + 1 := by
  intro t mem
  simp only [mem_cons, not_mem_nil, or_false] at mem
  omega

variable {node : NodeId} {incarnation : Nat}

/-- A command that runs at the horizon is one more step, to a state that is sound one instant later. -/
theorem Sound.reach {next : Store} (h : Sound (horizon + 1) s) (range : InRange horizon (n + 1))
    (fresh : Fresh s horizon context) (instants : ∀ t ∈ command.instants, t ∈ [horizon, horizon + 1])
    (worker : activeWorker s node incarnation) (issuer : command.IssuedBy node incarnation)
    (room : s.revision + 1 ≤ i64Max)
    (executed : execute s context (s.revision + 1) command = .ok (entity, next))
    (careful : CarefulCommand s command) :
    ∃ t digest, Reaches s t ∧ Sound (horizon + 1) t ∧ t = Maintenance.recorded next ⟨context, command, 0, 0⟩
      (s.revision + 1) s.operations s.auditEvents digest := by
  obtain ⟨digest, accepted⟩ := apply_accepted fresh room executed
  have all : ∀ t ∈ Entry.instants ⟨context, command, 0, 0⟩, t ∈ [horizon, horizon + 1] :=
    forall_mem_cons.mpr ⟨mem_cons.mpr (.inl fresh.instant), instants⟩
  refine ⟨_, digest, .step _ (fun t mem => range.instants t (all t mem)) ⟨node, incarnation, worker, issuer⟩
    fresh.operation accepted (.refl _), ?_, rfl⟩
  exact h.recorded careful (fun t mem => le_next horizon t (all t mem)) (effect_of_execute executed)

/-! ## Claiming a job -/

theorem exists_fence (claims : List Claim) :
    ∃ fence, fence ≠ 0 ∧ fence ≤ claims.length + 1 ∧ ∀ claim ∈ claims, claim.fence ≠ fence := by
  have fewer : (claims.map Claim.fence).toFinset.card < (Finset.Icc 1 (claims.length + 1)).card := by
    rw [Nat.card_Icc]
    have bound := toFinset_card_le (claims.map Claim.fence)
    rw [length_map] at bound
    omega
  obtain ⟨fence, inRange, unused⟩ := Finset.exists_mem_notMem_of_card_lt_card fewer
  rw [Finset.mem_Icc] at inRange
  refine ⟨fence, by omega, inRange.2, fun claim mem same => unused ?_⟩
  exact mem_toFinset.mpr (mem_map.mpr ⟨claim, mem, same⟩)

/-- What a claim at the horizon leaves: the job is claimed and its claim is the holder's. -/
structure Held (s : Store) (horizon : UnixMicros) (holder : ClaimHolder) (subject : WorkSubject) : Prop where
  worker : activeWorker s holder.workerNodeId holder.workerIncarnation = true
  job : ∃ job, job? s holder.workId = some job ∧ job.state = .claimed ∧ job.subject = subject
  claim : activeClaim? s holder.workId = some ⟨holder.workId, holder.claimGeneration, holder.workerNodeId,
    holder.workerIncarnation, holder.fence, horizon + 1, .active⟩

variable {holder : ClaimHolder} {subject : WorkSubject}

theorem Held.live (h : Held s horizon holder subject) (instant : context.occurredAt = horizon) :
    ∃ claim, requireLiveClaim s context holder = .ok claim := by
  obtain ⟨job, found, state, _⟩ := h.job
  refine ⟨⟨holder.workId, holder.claimGeneration, holder.workerNodeId, holder.workerIncarnation, holder.fence,
    horizon + 1, .active⟩, bind_eq_ok.mpr ⟨job, by rw [loadJobForTransition, found], ?_⟩⟩
  rw [h.claim]
  refine bind_eq_ok.mpr ⟨(), require_ok.mpr ?_, rfl⟩
  simp [state, instant]

theorem Held.load (h : Held s horizon holder subject) :
    ∃ job, loadJobForTransition s holder.workId = .ok job ∧ job.subject = subject := by
  obtain ⟨job, found, _, same⟩ := h.job
  exact ⟨job, by rw [loadJobForTransition, found], same⟩

variable {work : WorkId} {job : Job}

/-- The lease of a claimed job has run out at the horizon. -/
theorem Working.claimable (h : Working horizon s)
    (found : job? s work = some job) (open' : job.state ≠ .complete) :
    claimable job (activeClaim? s work) horizon = .ok () := by
  obtain ⟨isJob, rfl⟩ := get_mem found
  have both := h.claimed job isJob
  cases state : job.state with
  | complete => exact absurd state open'
  | queued =>
    have none : activeClaim? s job.workId = none := by
      refine find?_eq_none.mpr fun claim mem active => ?_
      have active : claim.workId = job.workId ∧ claim.state = .active := by simpa using active
      have claimed := both.mpr ⟨claim, mem, active⟩
      rw [state] at claimed
      cases claimed
    rw [none]
    simp only [MeshSpan.Maintenance.claimable, state]
  | claimed =>
    obtain ⟨claim, mem, owner, active⟩ := both.mp state
    have read := h.activeClaim mem active
    rw [owner] at read
    rw [read]
    simp only [MeshSpan.Maintenance.claimable, state]
    exact require_ok.mpr (by simpa using h.leases claim mem)

theorem mem_superseded {claims : List Claim} {row : Claim} (mem : row ∈ superseded work claims) :
    ∃ old ∈ claims, row.workId = old.workId ∧ row.generation = old.generation ∧ row.fence = old.fence := by
  obtain ⟨old, isOld, rfl⟩ := mem_amend.mp mem
  refine ⟨old, isOld, ?_⟩
  split <;> exact ⟨rfl, rfl, rfl⟩

/-- Any active node can claim an open job at the horizon. -/
theorem claim_accepted (h : Working horizon s)
    (found : job? s work = some job) (open' : job.state ≠ .complete)
    (worker : activeWorker s node incarnation) (room : s.revision + 1 ≤ i64Max) :
    ∃ value : ClaimMaintenanceWork, value.workId = work ∧ value.workerNodeId = node ∧
      value.workerIncarnation = incarnation ∧ value.leaseExpiresAt = horizon + 1 ∧
      ∀ context : CommandContext, context.occurredAt = horizon → claim s context value = .ok (claimedBy s value) := by
  obtain ⟨fence, nonzero, small, unused⟩ := exists_fence s.claims
  refine ⟨⟨work, node, incarnation, latestClaimGeneration s work + 1, fence, horizon + 1⟩, rfl, rfl, rfl, rfl,
    fun context instant => ?_⟩
  have latest := h.latest_le work
  obtain ⟨isJob, _⟩ := get_mem found
  refine bind_eq_ok.mpr ⟨(), require_ok.mpr ?_, ?_⟩
  · rw [instant]
    simp [maximumLeaseMicros]
  refine bind₃_eq_ok.mpr ⟨(), require_ok.mpr worker, job, by rw [loadJobForTransition, found], (),
    require_ok.mpr ?_, ?_⟩
  · rw [instant]
    simp [open', h.free job isJob]
  refine bind₃_eq_ok.mpr ⟨(), by rw [instant]; exact h.claimable found open', (),
    require_ok.mpr (by simp [nonzero]), (), if_neg ?_, ?_⟩
  · exact Nat.not_lt.mpr ((Nat.succ_le_succ latest).trans room)
  refine bind_eq_ok.mpr ⟨(), if_neg ?_, ?_⟩
  · exact Nat.not_lt.mpr ((small.trans (Nat.succ_le_succ h.counted)).trans room)
  refine bind_eq_ok.mpr ⟨_, if_neg ?_, rfl⟩
  -- the generation is past every other, the fence is unused
  rw [any_eq_true]
  rintro ⟨row, mem, conflict⟩
  obtain ⟨old, isOld, sameWork, sameGeneration, sameFence⟩ := mem_superseded mem
  simp only [Bool.and_eq_true, Bool.or_eq_true, beq_iff_eq, sameWork, sameGeneration, sameFence,
    claimRow] at conflict
  obtain ⟨owner, isGeneration | isFence⟩ := conflict
  · have bound : old.generation ≤ latestClaimGeneration s work :=
      (le_foldl_max Claim.generation _ 0).2 old (mem_filter.mpr ⟨isOld, by simp [← owner]⟩)
    exact Nat.not_succ_le_self _ (isGeneration ▸ bound)
  · exact unused old isOld isFence.symm

/-- The state `t` has the rows of `s` but for jobs, claims and records of operations. -/
def JobsOnly (s t : Store) : Prop :=
  ∃ jobs claims operations events, t = { s with
    revision := s.revision + 1
    jobs := jobs
    claims := claims
    operations := operations
    auditEvents := events }

theorem held_of_claim {value : ClaimMaintenanceWork}
    (found : job? s value.workId = some job) (open' : job.state ≠ .complete)
    (worker : activeWorker s value.workerNodeId value.workerIncarnation)
    (lease : value.leaseExpiresAt = horizon + 1) (revision : Revision) (operations : List OperationRecord)
    (events : List AuditEventId) : Held { claimedBy s value with
      revision := revision
      operations := operations
      auditEvents := events } horizon (claimHolder value) job.subject := by
  refine ⟨worker, ?_, ?_⟩
  · refine ⟨{ job with state := .claimed, attemptCount := job.attemptCount + 1 }, ?_, rfl, rfl⟩
    show get Job.workId value.workId (amend _ _ s.jobs) = _
    have read : get Job.workId value.workId s.jobs = some job := found
    rw [get_amend (by exact fun _ => rfl), read, Option.map_some, if_pos (by simp [(get_mem found).2, open'])]
  · show (amend _ _ s.claims ++ [_]).find? _ = _
    have none : (superseded value.workId s.claims).find?
        (fun claim => claim.workId == value.workId && claim.state == .active) = none := by
      refine find?_eq_none.mpr fun row mem active => ?_
      obtain ⟨old, _, rfl⟩ := mem_amend.mp mem
      split at active
      · simp at active
      · contradiction
    rw [find?_append, ← lease]
    exact (congrArg (Option.or · _) none).trans (by simp [claimHolder, claimRow])

/-- Any active node can claim an open job. -/
theorem Sound.claim (h : Sound horizon s)
    (range : InRange horizon (n + 1)) (found : job? s work = some job) (open' : job.state ≠ .complete)
    (worker : activeWorker s node incarnation) (room : s.revision + 1 ≤ i64Max) :
    ∃ t holder, Reaches s t ∧ Sound (horizon + 1) t ∧ JobsOnly s t ∧ Held t horizon holder job.subject ∧
      holder.workId = work ∧ holder.workerNodeId = node ∧ holder.workerIncarnation = incarnation := by
  obtain ⟨value, rfl, rfl, rfl, lease, runs⟩ := claim_accepted h.working found open' worker room
  obtain ⟨context, fresh⟩ := exists_fresh s horizon
  have executed : execute s context (s.revision + 1) (.claim value) =
      .ok (workEntity value.workId, claimedBy s value) :=
    bind_eq_ok.mpr ⟨_, runs context fresh.instant, rfl⟩
  have instants : ∀ t ∈ Command.instants (.claim value), t ∈ [horizon, horizon + 1] := by
    simp [Command.instants, lease]
  obtain ⟨t, digest, reached, sound, rfl⟩ := (h.mono (Int.le_add_one (Int.le_refl _))).reach range fresh
    instants worker ⟨rfl, rfl⟩ room executed trivial
  exact ⟨_, claimHolder value, reached, sound, ⟨_, _, _, _, rfl⟩, held_of_claim found open' worker lease _ _ _,
    rfl, rfl, rfl⟩

/-! ## Attestations -/

def DrainSafe (s : Store) (work : WorkId) : Prop :=
  ∃ drain ∈ s.targetDrains, drain.workId = work ∧ drain.state = .safe

/-- The gateways that still owe an attestation. -/
def pendingOf (participants : List Participant) (work : WorkId) : List Participant :=
  participants.filter fun row => row.workId == work && row.attested.isNone

theorem pendingOf_attestedBy (s : Store) (context : CommandContext) (value : AttestStorageTargetDrain)
    (work : WorkId) : pendingOf (attestedBy s context value) work =
      (pendingOf s.participants work).filter fun row => !owesAttestation value row := by
  unfold pendingOf attestedBy amend
  rw [filter_filter]
  induction s.participants with
  | nil => rfl
  | cons first rest ih =>
    rw [map_cons]
    cases owes : owesAttestation value first with
    | true =>
      rw [if_pos rfl, filter_cons_of_neg (by simp), filter_cons_of_neg (by simp [owes])]
      exact ih
    | false =>
      rw [if_neg Bool.false_ne_true, filter_cons, filter_cons, ih, owes]
      simp

variable {row : Participant}

theorem pendingOf_lt {value : AttestStorageTargetDrain}
    (mem : row ∈ pendingOf s.participants value.holder.workId) (owes : owesAttestation value row) :
    (pendingOf (attestedBy s context value) value.holder.workId).length <
      (pendingOf s.participants value.holder.workId).length := by
  rw [pendingOf_attestedBy]
  exact length_filter_lt_length_iff_exists.mpr ⟨row, mem, by simp [owes]⟩

theorem Draining.pendingOf_le (h : Draining s) (work : WorkId) :
    (pendingOf s.participants work).length ≤ s.nodes.length := by
  refine le_trans ?_ (h.few work)
  unfold pendingOf participantsOf
  rw [← filter_filter]
  refine Sublist.length_le (List.Sublist.filter _ ?_)
  exact filter_sublist

/-- The last attestation is accepted: the drain is evacuating and has no effect yet. -/
theorem finish_accepted (h : Draining s) {drain : TargetDrain}
    (isDrain : drain ∈ s.targetDrains) (evacuating : drain.state = .evacuating)
    (fresh : operationExists s context.operationId = false) (participants : List Participant)
    (revision : Revision) :
    ∃ t, finishIfFullyAttested { s with participants := participants } context drain.workId revision = .ok t ∧
      (DrainSafe t drain.workId ∨ t = { s with participants := participants }) := by
  unfold finishIfFullyAttested
  split
  · refine ⟨_, bind_eq_ok.mpr ⟨(), require_ok.mpr ?_, bind_eq_ok.mpr ⟨_, if_neg ?_, rfl⟩⟩, .inl ?_⟩
    · exact any_eq_true.mpr ⟨drain, isDrain, by simp [evacuating]⟩
    · rw [any_eq_true]
      rintro ⟨effect, isEffect, conflict⟩
      simp only [Bool.or_eq_true, beq_iff_eq] at conflict
      rcases conflict with operation | work
      · have known := (h.effects effect isEffect).1
        rw [← operation, fresh] at known
        cases known
      · exact h.not_evacuating isDrain ⟨effect, isEffect, work.symm⟩ evacuating
    · exact ⟨_, mem_amend.mpr ⟨drain, isDrain, if_pos (by simp [evacuating])⟩, rfl, rfl⟩
  · exact ⟨_, rfl, .inr rfl⟩

def attestation (s : Store) (holder : ClaimHolder) (drain : TargetDrain) : AttestStorageTargetDrain where
  holder := holder
  targetId := drain.targetId
  targetGeneration := drain.targetGeneration
  observedAuthorityRevision := s.revision
  emptyCatalogueDigest := emptyTargetDrainCatalogueDigest drain.targetId drain.targetGeneration s.revision

theorem Held.attest {drain : TargetDrain} (h : Draining s)
    (held : Held s horizon holder (.drain (.target drain.targetId drain.targetGeneration)))
    (isDrain : drain ∈ s.targetDrains) (evacuating : drain.state = .evacuating)
    (work : holder.workId = drain.workId) (isRow : row ∈ s.participants)
    (owes : owesAttestation (attestation s holder drain) row)
    (instant : context.occurredAt = horizon) (fresh : operationExists s context.operationId = false) :
    ∃ t, attestTarget s context (attestation s holder drain) (s.revision + 1) = .ok t ∧
      (DrainSafe t drain.workId ∨
        t = { s with participants := attestedBy s context (attestation s holder drain) }) := by
  obtain ⟨t, finished, outcome⟩ := finish_accepted h isDrain evacuating fresh
    (attestedBy s context (attestation s holder drain)) (s.revision + 1)
  obtain ⟨claim, live⟩ := held.live instant
  obtain ⟨job, loaded, subject⟩ := held.load
  obtain ⟨positive, reached⟩ := h.revisions drain isDrain
  refine ⟨t, ?_, outcome⟩
  refine bind₃_eq_ok.mpr ⟨(), require_ok.mpr held.worker, claim, live, (), ?_, ?_⟩
  · have nonzero : s.revision ≠ 0 := ne_of_gt (lt_of_lt_of_le positive reached)
    refine bind₂_eq_ok.mpr ⟨(), require_ok.mpr (by simp [attestation, nonzero]), job, loaded, ?_⟩
    have found : targetDrain? s holder.workId = some drain := by
      rw [work]
      exact get_of_mem h.keyed isDrain
    have found : targetDrain? s (attestation s holder drain).holder.workId = some drain := found
    rw [subject, found]
    exact require_ok.mpr (by simp [attestation, evacuating, reached])
  refine bind_eq_ok.mpr ⟨(), require_ok.mpr (any_eq_true.mpr ⟨row, isRow, owes⟩), ?_⟩
  rw [← work] at finished
  exact finished

/-- A gateway that owes an attestation attests under its claim. -/
theorem Sound.attest (h : Sound (horizon + 1) s) (range : InRange horizon (n + 1)) {drain : TargetDrain}
    (held : Held s horizon holder (.drain (.target drain.targetId drain.targetGeneration)))
    (isDrain : drain ∈ s.targetDrains) (evacuating : drain.state = .evacuating)
    (work : holder.workId = drain.workId)
    (isRow : row ∈ pendingOf s.participants drain.workId) (node : row.nodeId = holder.workerNodeId)
    (incarnation : row.nodeIncarnation = holder.workerIncarnation) (room : s.revision + 1 ≤ i64Max) :
    ∃ t, Reaches s t ∧ (DrainSafe t drain.workId ∨ Sound (horizon + 1) t ∧ t.revision = s.revision + 1 ∧
      t.nodes = s.nodes ∧ t.targetDrains = s.targetDrains ∧
      (pendingOf t.participants drain.workId).length < (pendingOf s.participants drain.workId).length ∧
      Held t horizon holder (.drain (.target drain.targetId drain.targetGeneration))) := by
  obtain ⟨context, fresh⟩ := exists_fresh s horizon
  obtain ⟨stored, pending⟩ := mem_filter.mp isRow
  simp only [Bool.and_eq_true, beq_iff_eq] at pending
  have owes : owesAttestation (attestation s holder drain) row = true := by
    simp [owesAttestation, attestation, pending.1, work, node, incarnation, pending.2]
  obtain ⟨next, runs, outcome⟩ := held.attest h.draining isDrain evacuating work stored owes fresh.instant
    fresh.operation
  have executed : execute s context (s.revision + 1) (.attest (attestation s holder drain)) =
      .ok (workEntity holder.workId, next) := bind_eq_ok.mpr ⟨next, runs, rfl⟩
  have instants : ∀ t ∈ Command.instants (.attest (attestation s holder drain)), t ∈ [horizon, horizon + 1]  := by
    rintro _ ⟨⟩
  obtain ⟨t, digest, reached, sound, rfl⟩ := h.reach range fresh instants held.worker ⟨rfl, rfl⟩ room
    executed trivial
  refine ⟨_, reached, ?_⟩
  rcases outcome with safe | rfl
  · exact .inl safe
  refine .inr ⟨sound, rfl, rfl, rfl, ?_, held.worker, held.job, held.claim⟩
  rw [← work] at isRow ⊢
  show (pendingOf (attestedBy s context (attestation s holder drain)) holder.workId).length < _
  exact pendingOf_lt isRow owes

/-- The holder of a claim gives it back. -/
theorem Sound.release (h : Sound (horizon + 1) s)
    (range : InRange horizon (n + 1)) (held : Held s horizon holder subject)
    (room : s.revision + 1 ≤ i64Max) : ∃ t, Reaches s t ∧ Sound (horizon + 1) t ∧ JobsOnly s t := by
  obtain ⟨context, fresh⟩ := exists_fresh s horizon
  obtain ⟨claim, live⟩ := held.live fresh.instant
  obtain ⟨job, loaded, _⟩ := held.load
  have values : completionValues s context job (.continue' (.raw 1) (horizon + 1)) =
      .ok (.queued, horizon + 1) := by
    refine bind_eq_ok.mpr ⟨(), require_ok.mpr ?_, rfl⟩
    rw [fresh.instant]
    simp [zeroDigest]
  have runs : complete s context ⟨holder, .continue' (.raw 1) (horizon + 1)⟩ = .ok _ :=
    bind₄_eq_ok.mpr ⟨(), require_ok.mpr held.worker, claim, live, job, loaded, _, values, rfl⟩
  have executed : execute s context (s.revision + 1)
      (.complete ⟨holder, .continue' (.raw 1) (horizon + 1)⟩) = .ok (workEntity holder.workId, _) :=
    bind_eq_ok.mpr ⟨_, runs, rfl⟩
  have instants : ∀ t ∈ Command.instants (.complete ⟨holder, .continue' (.raw 1) (horizon + 1)⟩),
      t ∈ [horizon, horizon + 1] := by
    simp [Command.instants, WorkCompletion.instants]
  obtain ⟨t, digest, reached, sound, rfl⟩ := h.reach range fresh instants held.worker ⟨rfl, rfl⟩ room
    executed trivial
  exact ⟨_, reached, sound, _, _, _, _, rfl⟩

/-- By induction on the gateways that owe an attestation: each round is a claim, an attestation and,
unless it was the last, the release of the claim. -/
theorem Sound.drain {drain : TargetDrain} (evacuating : drain.state = .evacuating) :
    ∀ (rounds : Nat) (horizon : UnixMicros) (s : Store), Sound horizon s → drain ∈ s.targetDrains →
      (pendingOf s.participants drain.workId).length ≤ rounds → HasRoom s.revision (3 * rounds) →
      InRange horizon rounds → ∃ t, Reaches s t ∧ DrainSafe t drain.workId := by
  intro rounds
  induction rounds with
  | zero =>
    intro horizon s h isDrain few _ _
    obtain ⟨row, isRow, work, pending⟩ := h.draining.owed drain isDrain evacuating
    have mem : row ∈ pendingOf s.participants drain.workId :=
      mem_filter.mpr ⟨isRow, by simp [work, pending]⟩
    rw [length_eq_zero_iff.mp (Nat.le_zero.mp few)] at mem
    cases mem
  | succ rounds ih =>
    intro horizon s h isDrain few room range
    obtain ⟨row, isRow, work, pending⟩ := h.draining.owed drain isDrain evacuating
    have isPending : row ∈ pendingOf s.participants drain.workId :=
      mem_filter.mpr ⟨isRow, by simp [work, pending]⟩
    obtain ⟨job, isJob, owner, subject, open'⟩ := h.draining.jobs drain isDrain evacuating
    have found : job? s drain.workId = some job := (get_eq_some h.working.keyed).mpr ⟨isJob, owner⟩
    obtain ⟨t, holder, claimed, soundT, ⟨jobs, claims, operations, events, rfl⟩, held, isWork, node,
      incarnation⟩ := h.claim range found open' (h.draining.pending row isRow pending) room.one
    rw [subject] at held
    obtain ⟨u, attested, safe | ⟨soundU, revision, nodes, drains, fewer, held⟩⟩ := soundT.attest range held
      isDrain evacuating isWork isPending node.symm incarnation.symm room.next.one
    · exact ⟨u, claimed.trans attested, safe⟩
    · have roomU : HasRoom u.revision (3 * rounds + 1) := revision ▸ room.next.next
      obtain ⟨v, released, soundV, ⟨jobs', claims', operations', events', rfl⟩⟩ :=
        soundU.release range held roomU.one
      obtain ⟨w, rest, safe⟩ := ih (horizon + 1) _ soundV (drains.symm ▸ isDrain : drain ∈ u.targetDrains)
        (Nat.lt_succ_iff.mp (Nat.lt_of_lt_of_le fewer few)) roomU.next range.next
      exact ⟨w, claimed.trans (attested.trans (released.trans rest)), safe⟩

end MeshSpan.Maintenance
