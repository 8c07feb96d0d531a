import MeshSpan.Maintenance.Effects

/- Jobs and their claims.

   `Working` ties the state of each job to its active claim and bounds the instants at
   which a job becomes free, by a horizon that the steps of the run keep to. It is the
   first of three invariants; those of the routes and of the drains follow in modules
   of their own. -/

namespace MeshSpan.Maintenance

open Rows Repository List

/-! ## The instants of an entry -/

def WorkCompletion.instants : WorkCompletion → List UnixMicros
  | .succeeded .. => []
  | .retry _ retryAt => [retryAt]
  | .continue' _ retryAt => [retryAt]

def QueueMaintenanceWork.instants (value : QueueMaintenanceWork) : List UnixMicros :=
  value.nextAttemptAt :: value.signals.createdAt :: value.signals.dueAt.toList

def Command.instants : Command → List UnixMicros
  | .queue value => value.instants
  | .claim value => [value.leaseExpiresAt]
  | .renew value => [value.leaseExpiresAt]
  | .complete value => value.outcome.instants
  | .plan value => [value.claim.leaseExpiresAt, value.intent.deadline]
  | .beginTarget value => value.work.instants
  | _ => []

def Entry.instants (entry : Entry) : List UnixMicros := entry.context.occurredAt :: entry.command.instants

def Before (horizon : UnixMicros) (entry : Entry) : Prop := ∀ t ∈ entry.instants, t ≤ horizon

/-! ## Jobs and claims -/

/-- A job is claimed exactly when it has an active claim, it has at most one, and it is free again
by the horizon. -/
structure Working (horizon : UnixMicros) (s : Store) : Prop where
  keyed : Keyed Job.workId s.jobs
  oneActive : Keyed Claim.workId (s.claims.filter (·.state == .active))
  claimed : ∀ job ∈ s.jobs, job.state = .claimed ↔
    ∃ claim ∈ s.claims, claim.workId = job.workId ∧ claim.state = .active
  owned : ∀ claim ∈ s.claims, ∃ job ∈ s.jobs, job.workId = claim.workId
  free : ∀ job ∈ s.jobs, job.nextAttemptAt ≤ horizon
  leases : ∀ claim ∈ s.claims, claim.leaseExpiresAt ≤ horizon
  generations : ∀ claim ∈ s.claims, claim.generation ≤ s.revision
  counted : s.claims.length ≤ s.revision

variable {horizon : UnixMicros} {s : Store}

section

variable (h : Working horizon s)

include h

theorem Working.mono {later : UnixMicros} (le : horizon ≤ later) : Working later s :=
  { h with
    free := fun job mem => (h.free job mem).trans le
    leases := fun claim mem => (h.leases claim mem).trans le }

theorem Working.congr {s' : Store} (jobs : s'.jobs = s.jobs) (claims : s'.claims = s.claims)
    (revision : s.revision ≤ s'.revision) : Working horizon s' where
  keyed := by
    rw [jobs]
    exact h.keyed
  oneActive := by
    rw [claims]
    exact h.oneActive
  claimed := by
    rw [jobs, claims]
    exact h.claimed
  owned := by
    rw [jobs, claims]
    exact h.owned
  free := by
    rw [jobs]
    exact h.free
  leases := by
    rw [claims]
    exact h.leases
  generations := by
    rw [claims]
    exact fun claim mem => (h.generations claim mem).trans revision
  counted := by
    rw [claims]
    exact h.counted.trans revision

theorem Working.activeClaim {claim : Claim} (mem : claim ∈ s.claims) (active : claim.state = .active) :
    activeClaim? s claim.workId = some claim := by
  have inActive : claim ∈ s.claims.filter fun claim => claim.state == .active :=
    mem_filter.mpr ⟨mem, by simp [active]⟩
  cases read : activeClaim? s claim.workId with
  | none =>
    have none := find?_eq_none.mp read claim mem
    simp [active] at none
  | some found =>
    have stored := mem_of_find?_eq_some read
    have facts : found.workId = claim.workId ∧ found.state = .active := by simpa using find?_some read
    have isSame := h.oneActive.eq_of_key (mem_filter.mpr ⟨stored, by simp [facts.2]⟩) inActive facts.1
    rw [isSame]

/-- Jobs that keep their id, their state and, up to the horizon, their next attempt. -/
theorem Working.amendJobs {p : Job → Bool} {f : Job → Job} (work : ∀ job, (f job).workId = job.workId)
    (state : ∀ job, (f job).state = job.state) (free : ∀ job ∈ s.jobs, (f job).nextAttemptAt ≤ horizon) :
    Working horizon { s with jobs := amend p f s.jobs } where
  keyed := keyed_amend work h.keyed
  oneActive := h.oneActive
  claimed := by
    refine forall_amend (fun job mem => ?_) h.claimed
    rw [state, work]
    exact h.claimed job mem
  owned claim mem := exists_amend (fun job owner => (work job).trans owner) (h.owned claim mem)
  free := forall_amend free h.free
  leases := h.leases
  generations := h.generations
  counted := h.counted

end

variable {value : QueueMaintenanceWork} {jobs : List Job}

theorem Working.queued (h : Working horizon s) (done : Queued s value jobs)
    (before : value.nextAttemptAt ≤ horizon) : Working horizon { s with jobs := jobs } := by
  cases done with
  | same existing mem subject id => exact h
  | merged existing mem subject id =>
    refine h.amendJobs (fun _ => rfl) (fun _ => rfl) fun job isJob => ?_
    have bound := h.free job isJob
    unfold mergedJob
    split
    · exact (min_le_left _ _).trans bound
    · exact bound
  | new fresh =>
    have unclaimed : ∀ claim ∈ s.claims, claim.workId ≠ value.workId := by
      intro claim mem same
      obtain ⟨job, isJob, owner⟩ := h.owned claim mem
      exact fresh job isJob (owner.trans same)
    refine ⟨keyed_append h.keyed fresh, h.oneActive, ?_, ?_, ?_, h.leases, h.generations, h.counted⟩
    · refine forall_mem_append.mpr ⟨h.claimed, forall_mem_singleton.mpr ?_⟩
      exact ⟨fun state => (nomatch state), fun ⟨claim, isClaim, same, _⟩ =>
        absurd same (unclaimed claim isClaim)⟩
    · intro claim mem
      obtain ⟨job, isJob, owner⟩ := h.owned claim mem
      exact ⟨job, mem_append_left _ isJob, owner⟩
    · exact forall_mem_append.mpr ⟨h.free, forall_mem_singleton.mpr before⟩

theorem le_foldl_max {α : Type} (f : α → Nat) (l : List α) :
    ∀ start : Nat, start ≤ l.foldl (fun best a => max best (f a)) start ∧
      ∀ a ∈ l, f a ≤ l.foldl (fun best a => max best (f a)) start := by
  induction l with
  | nil => exact fun start => ⟨le_refl _, nofun⟩
  | cons first rest ih =>
    intro start
    obtain ⟨low, each⟩ := ih (max start (f first))
    exact ⟨(le_max_left _ _).trans low, forall_mem_cons.mpr ⟨(le_max_right _ _).trans low, each⟩⟩

theorem foldl_max_le {α : Type} {f : α → Nat} {l : List α} {bound : Nat} (each : ∀ a ∈ l, f a ≤ bound) :
    ∀ start : Nat, start ≤ bound → l.foldl (fun best a => max best (f a)) start ≤ bound := by
  induction l with
  | nil => exact fun start low => low
  | cons first rest ih =>
    intro start low
    exact ih (fun a mem => each a (mem_cons_of_mem _ mem)) _
      (max_le low (each first mem_cons_self))

theorem Working.latest_le (h : Working horizon s) (work : WorkId) :
    latestClaimGeneration s work ≤ s.revision :=
  foldl_max_le (fun claim mem => h.generations claim (mem_filter.mp mem).1) 0 (Nat.zero_le _)

/-- Claims that are closed leave at most one active claim to each job. -/
theorem active_sublist (p : Claim → Bool) {state : ClaimState} (closed : state ≠ .active)
    (claims : List Claim) :
    (((amend p (fun row => { row with state := state }) claims).filter fun claim =>
      claim.state == .active).map Claim.workId).Sublist
      ((claims.filter (·.state == .active)).map Claim.workId) := by
  induction claims with
  | nil => exact Sublist.refl _
  | cons first rest ih =>
    show ((((if p first then { first with state := state } else first) :: amend p _ rest).filter _).map
      _).Sublist _
    have shorter := ih.trans (((sublist_cons_self first rest).filter fun claim =>
      claim.state == .active).map Claim.workId)
    split
    · rw [filter_cons_of_neg (by simpa using closed)]
      exact shorter
    · cases active : (first.state == .active) with
      | true =>
        simp only [filter_cons, active, ↓reduceIte, map_cons]
        exact ih.cons_cons _
      | false =>
        simp only [filter_cons, active, Bool.false_eq_true, ↓reduceIte]
        exact ih

variable {job : Job}

/-- A new claim supersedes the active one of its job, if any. -/
theorem Working.claim (h : Working horizon s)
    {value : ClaimMaintenanceWork} (found : job? s value.workId = some job)
    (open' : job.state ≠ .complete) (next : value.claimGeneration = latestClaimGeneration s value.workId + 1)
    (lease : value.leaseExpiresAt ≤ horizon) :
    Working horizon { claimedBy s value with revision := s.revision + 1 } := by
  obtain ⟨isJob, key⟩ := get_mem found
  -- the claims of the job itself are closed, those of the others are as before
  have old : ∀ claim ∈ superseded value.workId s.claims, claim.state = .active →
      claim.workId ≠ value.workId ∧ claim ∈ s.claims := by
    intro claim mem active
    obtain ⟨before, isBefore, rfl⟩ := mem_amend.mp mem
    split at active
    · cases active
    rename_i kept
    rw [if_neg kept]
    refine ⟨fun same => kept ?_, isBefore⟩
    simp [same, active]
  refine ⟨?_, ?_, ?_, ?_, ?_, ?_, ?_, ?_⟩
  · exact keyed_amend (f := fun row => { row with state := .claimed, attemptCount := row.attemptCount + 1 })
      (fun _ => rfl) h.keyed
  · show Keyed _ ((superseded value.workId s.claims ++ [claimRow value]).filter _)
    rw [filter_append]
    refine keyed_append (h.oneActive.sublist (active_sublist _ (by decide) s.claims)) ?_
    intro claim mem same
    obtain ⟨stored, active⟩ := mem_filter.mp mem
    exact (old claim stored (by simpa using active)).1 same
  · intro after mem
    obtain ⟨before, isBefore, rfl⟩ := mem_amend.mp mem
    by_cases same : before.workId = value.workId
    · have isSame : before = job := h.keyed.eq_of_key isBefore isJob (same.trans key.symm)
      subst isSame
      rw [if_pos (by simp [same, open'])]
      exact iff_of_true rfl ⟨_, mem_append_right _ mem_cons_self, same.symm, rfl⟩
    · rw [if_neg (by simp [same])]
      refine (h.claimed before isBefore).trans ⟨?_, ?_⟩
      · rintro ⟨claim, isClaim, owner, active⟩
        refine ⟨claim, mem_append_left _ (mem_amend_of_not isClaim ?_), owner, active⟩
        simp [owner, same]
      · rintro ⟨claim, isClaim, owner, active⟩
        rcases mem_snoc.mp isClaim with stored | rfl
        · exact ⟨claim, (old claim stored active).2, owner, active⟩
        · exact absurd owner.symm same
  · have owned : ∀ claim ∈ (claimedBy s value).claims, ∃ job ∈ s.jobs, job.workId = claim.workId :=
      forall_mem_append.mpr ⟨forall_amend h.owned h.owned,
        forall_mem_singleton.mpr ⟨job, isJob, key⟩⟩
    exact fun claim mem => exists_amend (fun _ owner => owner) (owned claim mem)
  · exact forall_amend h.free h.free
  · exact forall_mem_append.mpr ⟨forall_amend h.leases h.leases, forall_mem_singleton.mpr lease⟩
  · have older : ∀ claim ∈ s.claims, claim.generation ≤ s.revision + 1 :=
      fun claim mem => (h.generations claim mem).trans (Nat.le_succ _)
    refine forall_mem_append.mpr ⟨forall_amend older older, forall_mem_singleton.mpr ?_⟩
    show value.claimGeneration ≤ s.revision + 1
    rw [next]
    exact Nat.succ_le_succ (h.latest_le value.workId)
  · show (superseded value.workId s.claims ++ [claimRow value]).length ≤ s.revision + 1
    rw [length_append, superseded, length_amend]
    exact Nat.succ_le_succ h.counted

variable {context : CommandContext} {nextAttemptAt : UnixMicros} {state : JobState}
  {operations : List OperationRecord} {revision : Revision}

/-- An outcome closes the claim of its job and frees the job. -/
theorem Working.complete (h : Working horizon s) {holder : ClaimHolder} {claim : Claim}
    (holds : Holds s context holder claim) (freed : state ≠ .claimed) (before : nextAttemptAt ≤ horizon) :
    Working horizon (releasedBy s holder state nextAttemptAt) := by
  have isClaim := mem_of_find?_eq_some holds.found
  have facts : claim.workId = holder.workId ∧ claim.state = .active := by
    simpa using find?_some holds.found
  -- the holder's claim was the only active one of the job
  have closed : ∀ row ∈ (releasedBy s holder state nextAttemptAt).claims,
      row.workId = holder.workId → row.state ≠ .active := by
    intro row mem same active
    obtain ⟨old, isOld, rfl⟩ := mem_amend.mp mem
    split at active
    · cases active
    rename_i kept
    rw [if_neg kept] at same
    have isHeld : old = claim := h.oneActive.eq_of_key
      (mem_filter.mpr ⟨isOld, by simp [active]⟩)
      (mem_filter.mpr ⟨isClaim, by simp [facts.2]⟩) (same.trans facts.1.symm)
    subst isHeld
    simp [same, holds.generation, active] at kept
  refine ⟨?_, ?_, ?_, ?_, ?_, ?_, ?_, ?_⟩
  · exact keyed_amend (f := fun row => { row with state := state, nextAttemptAt := nextAttemptAt })
      (fun _ => rfl) h.keyed
  · exact h.oneActive.sublist (active_sublist _ (by decide) s.claims)
  · intro job mem
    obtain ⟨old, isOld, rfl⟩ := mem_amend.mp mem
    by_cases same : old.workId = holder.workId
    · have none : ¬ ∃ row ∈ (releasedBy s holder state nextAttemptAt).claims,
          row.workId = old.workId ∧ row.state = .active :=
        fun ⟨row, isRow, owner, active⟩ => closed row isRow (owner.trans same) active
      split
      · exact iff_of_false freed none
      · rename_i other
        refine iff_of_false (fun claimed => other ?_) none
        simp [same, claimed]
    · rw [if_neg (by simp [same])]
      refine (h.claimed old isOld).trans ⟨?_, ?_⟩
      · rintro ⟨row, isRow, owner, active⟩
        refine ⟨row, mem_amend_of_not isRow ?_, owner, active⟩
        simp [owner, same]
      · rintro ⟨row, isRow, owner, active⟩
        obtain ⟨row', isRow', rfl⟩ := mem_amend.mp isRow
        split at active
        · cases active
        · rename_i kept
          rw [if_neg kept] at owner
          exact ⟨row', isRow', owner, active⟩
  · have owned : ∀ row ∈ (releasedBy s holder state nextAttemptAt).claims, ∃ job ∈ s.jobs,
        job.workId = row.workId := forall_amend h.owned h.owned
    exact fun row mem => exists_amend (fun _ owner => owner) (owned row mem)
  · exact forall_amend (fun _ _ => before) h.free
  · exact forall_amend h.leases h.leases
  · exact forall_amend h.generations h.generations
  · exact (length_amend _ _ _).trans_le h.counted

theorem Working.renew (h : Working horizon s) (p : Claim → Bool)
    {lease : UnixMicros} (before : lease ≤ horizon) : Working horizon { s with
      claims := amend p (fun row => { row with leaseExpiresAt := lease }) s.claims } := by
  -- an active claim before is an active claim of the same job after, and back
  have same : ∀ work, (∃ claim ∈ amend p (fun row => { row with leaseExpiresAt := lease }) s.claims,
      claim.workId = work ∧ claim.state = .active) ↔
      ∃ claim ∈ s.claims, claim.workId = work ∧ claim.state = .active := by
    intro work
    constructor
    · rintro ⟨claim, mem, facts⟩
      obtain ⟨old, isOld, rfl⟩ := mem_amend.mp mem
      refine ⟨old, isOld, ?_⟩
      split at facts <;> exact facts
    · exact exists_amend fun _ facts => facts
  refine ⟨h.keyed, ?_, fun job mem => (h.claimed job mem).trans (same job.workId).symm, ?_, h.free, ?_,
    ?_, ?_⟩
  · show Keyed _ ((amend p _ s.claims).filter _)
    rw [filter_amend (by exact fun _ => rfl)]
    exact keyed_amend (by exact fun _ => rfl) h.oneActive
  · exact forall_amend h.owned h.owned
  · exact forall_amend (fun _ _ => before) h.leases
  · exact forall_amend h.generations h.generations
  · rw [length_amend]
    exact h.counted

theorem completionValues_ok {outcome : WorkCompletion}
    (h : completionValues s context job outcome = .ok (state, nextAttemptAt)) :
    (state = .queued ∧ nextAttemptAt ∈ outcome.instants) ∨
      (state = .complete ∧ nextAttemptAt = context.occurredAt ∧ ∃ operation,
        effectRecorded s job.subject.kind operation job.workId = true) := by
  cases outcome with
  | succeeded operation revision result =>
    obtain ⟨-, -, _, valid, h⟩ := bind₂_eq_ok.mp h
    cases h
    exact .inr ⟨rfl, rfl, operation, (Bool.and_eq_true_iff.mp (require_ok.mp valid)).2⟩
  | retry digest retryAt =>
    replace h := passed h
    cases h
    exact .inl ⟨rfl, mem_cons_self⟩
  | continue' digest retryAt =>
    replace h := passed h
    cases h
    exact .inl ⟨rfl, mem_cons_self⟩

variable {next : Store} {entry : Entry} {events : List AuditEventId} {digest : Digest}

theorem Working.effect (h : Working horizon s) (before : Before horizon entry)
    (done : Effect s entry.context (s.revision + 1) entry.command next) :
    Working horizon (recorded next entry (s.revision + 1) operations events digest) := by
  have instant : ∀ t ∈ entry.command.instants, t ≤ horizon :=
    fun t mem => before t (mem_cons_of_mem _ mem)
  cases entry with
  | mk context command index term =>
  cases done with
  | queued value jobs queued =>
    exact (h.queued queued (instant _ mem_cons_self)).congr rfl rfl (Nat.le_succ _)
  | claimed value job found open' next =>
    exact (h.claim found open' next (instant _ mem_cons_self)).congr rfl rfl (Nat.le_refl _)
  | renewed value => exact (h.renew _ (instant _ mem_cons_self)).congr rfl rfl (Nat.le_succ _)
  | completed value claim job state nextAttemptAt holds found values =>
    rcases completionValues_ok values with ⟨rfl, mem⟩ | ⟨rfl, rfl, _⟩
    · exact (h.complete holds (by decide) (instant _ mem)).congr rfl rfl (Nat.le_succ _)
    · exact (h.complete holds (by decide) (before _ mem_cons_self)).congr rfl rfl (Nat.le_succ _)
  | beganTarget value target generation jobs subject queued exists' fresh some' =>
    exact (h.queued queued (instant _ mem_cons_self)).congr rfl rfl (Nat.le_succ _)
  | attested value next worker finish =>
    rcases finish_ok finish with ⟨_, _, rfl⟩ | ⟨_, rfl⟩
    · exact h.congr rfl rfl (Nat.le_succ _)
    · exact h.congr rfl rfl (Nat.le_succ _)
  | _ => exact h.congr rfl rfl (Nat.le_succ _)

/-! ## Careful steps -/

/-- A repair subject that a commit can serve: the volume is active, the stripe has a signed index. -/
def Repairable (s : Store) : WorkSubject → Prop
  | .repair volume _ stripeIndex _ _ => volumeActive s volume = true ∧ stripeIndex ≤ i64Max
  | _ => True

/-- A command that strands nothing: repairs are queued for active volumes, a target drain begins
only while every gateway is active, and a node is fenced only when it owes no attestation. -/
def CarefulCommand (s : Store) : Command → Prop
  | .queue value => Repairable s value.subject
  | .beginTarget _ => ∀ node ∈ gateways s, activeWorker s node.nodeId node.currentIncarnation = true
  | .fence value => ∀ row ∈ s.participants, row.nodeId = value.nodeId → row.attested.isSome
  | _ => True

/-! ## Subjects of jobs -/

theorem Queued.subject (done : Queued s value jobs) (mem : job ∈ jobs) :
    (∃ old ∈ s.jobs, old.workId = job.workId ∧ old.subject = job.subject ∧ old.state = job.state) ∨
      job = newJob value := by
  cases done with
  | same existing isOld subject id => exact .inl ⟨job, mem, rfl, rfl, rfl⟩
  | merged existing isOld subject id =>
    obtain ⟨old, isJob, rfl⟩ := mem_amend.mp mem
    refine .inl ⟨old, isJob, ?_⟩
    split <;> exact ⟨rfl, rfl, rfl⟩
  | new fresh =>
    rcases mem_append.mp mem with old | isNew
    · exact .inl ⟨job, old, rfl, rfl, rfl⟩
    · exact .inr (mem_singleton.mp isNew)

theorem Queued.kept (done : Queued s value jobs) {old : Job} (mem : old ∈ s.jobs) :
    ∃ job ∈ jobs, job.workId = old.workId ∧ job.subject = old.subject ∧ job.state = old.state := by
  cases done with
  | same existing isOld subject id => exact ⟨old, mem, rfl, rfl, rfl⟩
  | merged existing isOld subject id => exact exists_amend (fun _ same => same) ⟨old, mem, rfl, rfl, rfl⟩
  | new fresh => exact ⟨old, mem_append_left _ mem, rfl, rfl, rfl⟩

/-! ## Recorded operations -/

theorem operationExists_recorded {operation : OperationId} (h : operationExists s operation) :
    operationExists (recorded next entry revision s.operations events digest) operation = true := by
  obtain ⟨row, mem, same⟩ := any_eq_true.mp h
  exact any_eq_true.mpr ⟨row, mem_append_left _ mem, same⟩

theorem operationExists_new :
    operationExists (recorded next entry revision operations events digest) entry.context.operationId =
      true :=
  any_eq_true.mpr ⟨_, mem_append_right _ mem_cons_self, beq_self_eq_true _⟩

end MeshSpan.Maintenance
