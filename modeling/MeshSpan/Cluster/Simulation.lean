import MeshSpan.Cluster.Steps

/- Every run of the cluster is a history of the ledger.

   A node that is down is a replica that knows as committed what it has applied.
   A node that runs is its core, or the core before the mutation that it waits
   for: the ledger moves when the mutation is acknowledged, or when the process
   crashes after the mutation has become durable.

   The one thing that the cores do not check themselves is that a log holds at
   most one membership command that its node has not activated. `Gated` asks for
   it where it can be violated, at the proposal of a membership command. -/

namespace MeshSpan

open Ordered Ledger ConsensusCore List Option

/-! ## Disks -/

/-- The phase of a disk: the membership entries it has applied. -/
def NodeDisk.phase (first : CompiledQuorumPlan) (disk : NodeDisk) : Nat :=
  (electorate first).members (disk.log.take disk.appliedIndex)

/-- A disk as a replica that has just restarted. -/
def NodeDisk.replica (first : CompiledQuorumPlan) (disk : NodeDisk) :
    Replica NodeId LogEntry ActiveQuorumPlan :=
  { term := disk.currentTerm, vote := disk.votedFor, log := disk.log, commit := disk.appliedIndex
    phase := disk.phase first, plan := disk.activePlan, standing := .follower }

section

variable (first : CompiledQuorumPlan) (tr : History NodeId LogEntry) (n : NodeId)

structure DiskInv (disk : NodeDisk) : Prop where
  contiguous : Contiguous disk.log
  valid : ValidEntries disk.log
  bounded : disk.log.length ≤ u64Max
  sound : (electorate first).Sound tr n (disk.replica first)

structure Stored (disk : NodeDisk) (core : ConsensusCore) : Prop where
  term : disk.currentTerm = core.currentTerm
  vote : disk.votedFor = core.votedFor
  log : disk.log = core.log
  plan : disk.activePlan = core.activePlan
  applied : disk.appliedIndex ≤ core.commitIndex

structure Running (disk : NodeDisk) (core : ConsensusCore) : Prop where
  idle : core.pending = none
  stored : Stored disk core
  inv : CoreInv first tr n (disk.phase first) core

/-- The core waits for a mutation that an input began, and the input is still good. -/
structure InFlight (disk : NodeDisk) (base : ConsensusCore) (input : CoreInput) (m : DurableMutation)
    (action : AfterPersistence) : Prop where
  begins : base.Begins input m action
  ok : InputOk first tr n input
  gate : ∀ proposalId operationId version command,
    proposalOf input = some (proposalId, operationId, version, command) →
    version = membershipCommandVersion → (electorate first).members base.log ≤ disk.phase first
  next : m.quorumPlan = none ∨ ∃ a e command incarnations, disk.appliedIndex ≤ a ∧
    NextPhase first (disk.phase first) a base.log e command ∧
      input = Cluster.activation command incarnations e.position

def NodeInv (node : Node) : Prop :=
  match node.core with
  | none => DiskInv first tr n node.disk
  | some core => ∃ base, Running first tr n node.disk base ∧
    (core = base ∨ ∃ input m action, InFlight first tr n node.disk base input m action ∧
      core = base.awaiting m action)

end

section Nodes

variable {first : CompiledQuorumPlan} {tr tr' : History NodeId LogEntry} {n m : NodeId}
  {disk : NodeDisk} {core base : ConsensusCore}

/-! ## Other nodes -/

variable {input : CoreInput}

theorem InputOk.mono (h : InputOk first tr n input) (ext : Extends m tr tr')
    (v : (electorate first).Valid tr') : InputOk first tr' n input := by
  cases input with
  | message sender incarnation message => exact MessageOk.mono ext v h
  | _ => trivial

variable {action : AfterPersistence}

theorem InFlight.mono {mutation : DurableMutation}
    (h : InFlight first tr n disk base input mutation action) (ext : Extends m tr tr')
    (v : (electorate first).Valid tr') : InFlight first tr' n disk base input mutation action :=
  { h with ok := h.ok.mono ext v }

variable {node : Node}

theorem NodeInv.other (h : NodeInv first tr n node) (ext : Extends m tr tr')
    (v : (electorate first).Valid tr') (other : n ≠ m) : NodeInv first tr' n node := by
  unfold NodeInv at h ⊢
  split at h
  · exact { h with sound := h.sound.extends ext v other }
  obtain ⟨base, running, pending⟩ := h
  refine ⟨base, { running with inv := running.inv.other ext v other }, ?_⟩
  rcases pending with same | ⟨input, mutation, action, flight, waits⟩
  · exact .inl same
  · exact .inr ⟨input, mutation, action, flight.mono ext v, waits⟩

/-! ## Crash and restart -/

theorem Running.crash (h : Running first tr n disk core) : DiskInv first tr n disk where
  contiguous := h.stored.log ▸ h.inv.ordered.contiguous
  valid := h.stored.log ▸ h.inv.valid
  bounded := h.stored.log ▸ h.inv.ordered.bounded
  sound := by
    have crashed := h.inv.sound.crash (c := disk.appliedIndex) h.stored.applied
      (by unfold NodeDisk.phase; rw [h.stored.log]; rfl)
    have eq : disk.replica first =
        { core.replica (disk.phase first) with commit := disk.appliedIndex, standing := .follower } := by
      simp only [NodeDisk.replica, ConsensusCore.replica, h.stored.term, h.stored.vote, h.stored.log,
        h.stored.plan]
    rw [eq]
    exact crashed

section Replay

variable {log A : List LogEntry} {a : Nat}

/-- The plan that a replay of the log holds after the entries `A`. -/
def Replayed (first : CompiledQuorumPlan) (tr : History NodeId LogEntry) (A : List LogEntry)
    (successor : Option ActiveQuorumPlan) : Prop :=
  successor = none ∨ successor = (electorate first).planAt (committed tr) ((electorate first).members A)

variable {command : MembershipTransitionCommand} {next plan previous : ActiveQuorumPlan}
  {successor : Option ActiveQuorumPlan} {history : MembershipHistory} {position : LogPosition}
  {incarnations : MemberIncarnations}

/-- A replayed change leaves the plan that the command continues and enters the one it asks for. -/
theorem phaseChange_spec (change : phaseChange command successor = .ok (previous, next))
    (succeeds : plan.Succeeds command.target) (held : successor = none ∨ successor = some plan) :
    previous.proofDigest = plan.proofDigest ∧ next = command.target := by
  have joined : ∀ joint, command.target = .joint joint →
      (ActiveQuorumPlan.stable joint.old).proofDigest = plan.proofDigest := by
    intro joint target
    rw [target] at succeeds
    cases plan with
    | stable current => exact succeeds.symm
    | joint _ => exact succeeds.elim
  cases command with
  | finaliseStable stable =>
    rcases held with rfl | rfl
    · cases change
    cases plan with
    | stable _ => cases change
    | joint joint =>
      obtain ⟨-, change⟩ := guard_ok.mp change
      cases change
      exact ⟨rfl, rfl⟩
  | _ =>
    unfold phaseChange at change
    dsimp only at change
    split at change
    · cases change
      exact ⟨joined _ rfl, rfl⟩
    · obtain ⟨-, change⟩ := guard_ok.mp change
      cases change
      exact ⟨joined _ rfl, rfl⟩

variable {active : ActiveQuorumPlan}

theorem replay_boundary {e : LogEntry} {k : Nat} (inside : A ++ [e] <+: committed tr)
    (index : e.position.index = A.length + 1) (member : e.isMembership)
    (decodes : MembershipTransitionCommand.decode e.command = .ok command)
    (replayed : Replayed first tr A successor)
    (change : phaseChange command successor = .ok (previous, next))
    (plan : (electorate first).planAt (committed tr) k = some active)
    (count : (electorate first).members (A ++ [e]) ≤ k) :
    BoundaryOk first tr previous.proofDigest ⟨previous, e.position⟩ ∧
      Replayed first tr (A ++ [e]) (some next) := by
  have members : (electorate first).members (A ++ [e]) = (electorate first).members A + 1 := members_snoc member
  -- the plans before and after the entry
  obtain ⟨q, atq⟩ := Electorate.planAt_below plan count
  have step := atq
  rw [members, Electorate.planAt_succ inside rfl member] at step
  obtain ⟨p, atp, step⟩ := bind_eq_some_iff.mp step
  have succeeds := nextPlan_succeeds step
  have target := nextPlan_target step decodes
  obtain ⟨named, entered⟩ := phaseChange_spec change (target ▸ succeeds) (atp ▸ replayed)
  obtain ⟨D, grown⟩ := inside
  have length : (A ++ [e]).length = A.length + 1 := by simp
  refine ⟨⟨rfl, ?_, (electorate first).members A, ⟨p, atp, named.symm⟩, ?_⟩, .inr ?_⟩
  · rw [← grown, length_append, length, index]
    exact Nat.le_add_right ..
  · rw [← grown, index, take_append_of_le_length (by omega), take_of_length_le (by omega)]
    exact members.le
  · rw [atq, entered, target]

/-- Every boundary of a history is one of the committed log. -/
def BoundariesOk (first : CompiledQuorumPlan) (tr : History NodeId LogEntry) (history : MembershipHistory) :
    Prop :=
  ∀ epoch digest boundary, history.find epoch digest = some boundary → BoundaryOk first tr digest boundary

theorem BoundariesOk.record (h : BoundariesOk first tr history)
    (ok : BoundaryOk first tr plan.proofDigest ⟨plan, position⟩) :
    BoundariesOk first tr (history.record plan position) := by
  intro epoch digest boundary found
  rcases find_record found with ⟨rfl, rfl⟩ | old
  · exact ok
  · exact h epoch digest boundary old

/-- Replaying the applied part of a log finds boundaries of the committed log only. -/
theorem restoreFrom_boundaries :
    ∀ (B A : List LogEntry) (history history' : MembershipHistory) (successor successor' : Option ActiveQuorumPlan),
    Contiguous (A ++ B) → (A ++ B).take a <+: committed tr →
    (electorate first).planAt (committed tr) ((electorate first).members ((A ++ B).take a)) = some active →
    Replayed first tr A successor → BoundariesOk first tr history →
    MembershipHistory.restoreFrom a history successor B = .ok (history', successor') →
    BoundariesOk first tr history'
  | [], A, history, history', successor, successor', _, _, _, _, ok, restored => by
    cases restored
    exact ok
  | e :: es, A, history, history', successor, successor', contiguous, inside, plan, replayed, ok, restored => by
    have assoc : A ++ e :: es = A ++ [e] ++ es := by rw [append_assoc, singleton_append]
    have index : e.position.index = A.length + 1 := contiguous A.length e (by simp)
    unfold MembershipHistory.restoreFrom at restored
    split at restored
    · rename_i applied
      have part : A ++ [e] <+: (A ++ e :: es).take a := by
        rw [assoc]
        exact prefix_take_iff.mpr ⟨prefix_append .., by simp; omega⟩
      split at restored
      · rename_i other
        refine restoreFrom_boundaries es (A ++ [e]) history history' successor successor' (assoc ▸ contiguous)
          (assoc ▸ inside) (assoc ▸ plan) ?_ ok restored
        have same : (electorate first).members (A ++ [e]) = (electorate first).members A := by
          unfold Electorate.members
          rw [countP_append, countP_singleton, if_neg, add_zero]
          simpa [electorate, LogEntry.isMembership] using other
        unfold Replayed
        rwa [same]
      · rename_i member
        rw [not_not] at member
        split at restored
        · cases restored
        rename_i command decodes
        split at restored
        · cases restored
        rename_i previous next change
        obtain ⟨boundary, replayed'⟩ := replay_boundary (part.trans inside) index
          (decide_eq_true member) decodes replayed change plan (Electorate.members_mono part)
        exact restoreFrom_boundaries es (A ++ [e]) _ history' _ successor' (assoc ▸ contiguous)
          (assoc ▸ inside) (assoc ▸ plan) replayed' (ok.record boundary) restored
    · cases restored
      exact ok

theorem restore_boundaries (contiguous : Contiguous log) (inside : log.take a <+: committed tr)
    (plan : (electorate first).planAt (committed tr) ((electorate first).members (log.take a)) = some active)
    (restored : MembershipHistory.restore log a active = .ok history) : BoundariesOk first tr history := by
  have start : ∀ {history' successor'}, MembershipHistory.restoreFrom a {} none log = .ok (history', successor') →
      BoundariesOk first tr history' := fun replayed =>
    restoreFrom_boundaries log [] {} _ none _ contiguous inside plan (.inl rfl) nofun replayed
  unfold MembershipHistory.restore at restored
  split at restored
  · cases restored
  · rename_i replayed
    cases restored
    exact start replayed
  · rename_i replayed
    obtain ⟨-, restored⟩ := guard_ok.mp restored
    cases restored
    exact start replayed

end Replay

/-- A disk restarts as a core that the history accounts for. -/
theorem DiskInv.start (h : DiskInv first tr n disk) (restored : disk.restore n = .ok core) :
    Running first tr n disk core := by
  obtain ⟨ordered, commit⟩ := restoreActive_localInv restored
  obtain ⟨history, -, replayed, eq⟩ := restoreActive_eq restored
  have boundaries := restore_boundaries h.contiguous h.sound.known h.sound.plan replayed
  subst eq
  exact
    { idle := rfl
      stored := ⟨rfl, rfl, rfl, rfl, le_rfl⟩
      inv :=
        { name := rfl
          ordered := ordered
          valid := h.valid
          sound := h.sound
          votes := fun _ mem => absurd mem OrdSet.not_mem_empty
          matched := fun _ _ at_ => nomatch at_
          own := nofun
          history := boundaries } }

/-! ## Steps of one node -/

theorem Stored.of_volatile (h : Stored disk base) (volatile : Volatile base core)
    (commit : base.commitIndex ≤ core.commitIndex) : Stored disk core where
  term := h.term.trans (by rw [volatile])
  vote := h.vote.trans (by rw [volatile])
  log := h.log.trans (by rw [volatile])
  plan := h.plan.trans (by rw [volatile])
  applied := h.applied.trans commit

/-- A running core either begins a mutation or has made its move. -/
theorem Running.step (v : (electorate first).Valid tr) (h : Running first tr n disk base)
    (ok : InputOk first tr n input) : base.Waits input (base.step input) ∨
      ∃ tr', Extends n tr tr' ∧ (electorate first).Valid tr' ∧ Running first tr' n disk (base.step input).1 ∧
        ∀ effect ∈ effectsOf (base.step input).2, EffectOk first tr' n effect := by
  rcases step_persists h.idle input with light | waits
  · rcases step_settles v h.inv h.idle ok with waits | ⟨tr', ext, v', inv, effects⟩
    · exact .inl waits
    · have commit := (step_advances h.inv.ordered input).1.commit
      have idle : (base.step input).1.pending = none := by rw [light.1]; exact h.idle
      exact .inr ⟨tr', ext, v', ⟨idle, h.stored.of_volatile light.1 commit, inv⟩, effects⟩
  · exact .inl waits

/-- What the disk holds once a mutation is durable is what the core has then installed. -/
theorem Stored.write (h : Stored disk base) (contiguous : Contiguous base.log) (m : DurableMutation)
    (action : AfterPersistence) (id : Nat) : let written := disk.write { id, mutation := m, action }
    written.currentTerm = (base.acknowledged m).currentTerm ∧
      written.votedFor = (base.acknowledged m).votedFor ∧ written.log = (base.acknowledged m).log := by
  rw [acknowledged_currentTerm, acknowledged_votedFor, acknowledged_log, ← h.term, ← h.vote]
  refine ⟨rfl, rfl, ?_⟩
  dsimp only [keptLog, NodeDisk.write]
  cases m.truncateFrom with
  | none => rw [h.log]
  | some index =>
    dsimp only
    rw [h.log, contiguous.filter_lt]

variable {m : DurableMutation}

/-- The commit index survives the acknowledgement of a mutation, and so do the entries below it. -/
theorem Running.kept (h : Running first tr n disk base) :
    let result := (base.awaiting m action).step (.persisted base.nextPersistenceId)
    base.commitIndex ≤ result.1.commitIndex ∧
      result.1.log.take base.commitIndex = base.log.take base.commitIndex := by
  have ordered : (base.awaiting m action).LocalInv :=
    { h.inv.ordered with }
  have keeps := (step_advances ordered (.persisted base.nextPersistenceId)).1
  exact ⟨keeps.commit, keeps.entries⟩

/-- The mutation of an activation carries the plan that the command asks for, and nothing else. -/
theorem activation_mutation
    (begins : base.Begins (Cluster.activation command incarnations position) m action) :
    m.quorumPlan = some ⟨command.target, position⟩ ∧ m.truncateFrom = none ∧ m.append = [] ∧
      position.index ≤ base.appliedIndex ∧ base.activePlan.Succeeds command.target := by
  cases command with
  | finaliseStable plan =>
    cases begins with
    | proposal asked => cases asked
    | activateStable active digest epoch incs preserves valid =>
      obtain ⟨-, -, -, le⟩ := validAppliedTransitionPosition_spec valid
      exact ⟨rfl, rfl, rfl, le, by rw [active]; exact digest⟩
  | _ =>
    cases begins with
    | proposal asked => cases asked
    | activateJoint active digest epoch incs preserves valid =>
      obtain ⟨-, -, -, le⟩ := validAppliedTransitionPosition_spec valid
      exact ⟨rfl, rfl, rfl, le, by rw [active]; exact digest⟩

/-- An acknowledged mutation is one move of the ledger, and the disk follows it. -/
theorem InFlight.finish (v : (electorate first).Valid tr) (h : Running first tr n disk base)
    (flight : InFlight first tr n disk base input m action) :
    let result := (base.awaiting m action).step (.persisted base.nextPersistenceId)
    let written := disk.write { id := base.nextPersistenceId, mutation := m, action }
    ∃ tr', Extends n tr tr' ∧ (electorate first).Valid tr' ∧ Running first tr' n written result.1 ∧
      ∀ effect ∈ effectsOf result.2, EffectOk first tr' n effect := by
  intro result written
  have step : result = _ := persisted_step h.idle h.inv.ordered (flight.begins.fits h.inv.ordered h.inv.valid)
    action
  obtain ⟨entered, enters, light⟩ := finishAction_light flight.begins (base.acknowledged m)
    base.nextPersistenceId
  rw [← step] at light
  obtain ⟨term, vote, log⟩ := h.stored.write h.inv.ordered.contiguous m action base.nextPersistenceId
  obtain ⟨-, -, plan⟩ := acknowledged_indices base m
  have pending := acknowledged_pending base m
  obtain ⟨commit, kept⟩ : base.commitIndex ≤ result.1.commitIndex ∧
    result.1.log.take base.commitIndex = base.log.take base.commitIndex := h.kept
  cases enters with
  | same steady =>
    -- the applied part of the log lies below the commit index, so the phase stays
    have stored : Stored written result.1 :=
      { term := term.trans (by rw [light.1])
        vote := vote.trans (by rw [light.1])
        log := log.trans (by rw [light.1])
        plan := by
          rw [show written.activePlan = disk.activePlan by simp [written, NodeDisk.write, steady], h.stored.plan,
            ← plan, light.1]
        applied := by
          rw [show written.appliedIndex = disk.appliedIndex by simp [written, NodeDisk.write, steady]]
          exact h.stored.applied.trans commit }
    have phase : written.phase first = disk.phase first := by
      unfold NodeDisk.phase
      rw [show written.appliedIndex = disk.appliedIndex by simp [written, NodeDisk.write, steady], stored.log,
        h.stored.log]
      have := congrArg (take disk.appliedIndex) kept
      rw [take_take, take_take, min_eq_left h.stored.applied] at this
      rw [this]
    obtain ⟨tr', ext, v', inv, effects⟩ := finish_handles v h.inv flight.begins flight.ok flight.gate steady
      base.nextPersistenceId
    rw [← step] at inv effects
    refine ⟨tr', ext, v', ⟨?_, stored, phase ▸ inv⟩, effects⟩
    rw [light.1]
    exact pending.trans h.idle
  | plan carries incarnations =>
    obtain steady | ⟨a, e, command, incs, after, next, rfl⟩ := flight.next
    · rw [steady] at carries
      cases carries
    · obtain ⟨carried, truncate, append, applied, -⟩ := activation_mutation flight.begins
      obtain rfl := some.inj (carries.symm.trans carried)
      have index : e.position.index = a + 1 := h.inv.ordered.contiguous _ e next.entry
      have whole : written.log = base.log := by
        rw [show written.log = _ from log, acknowledged_log, truncate, append, append_nil]
        rfl
      have reached : written.appliedIndex = a + 1 := by
        simp [written, NodeDisk.write, carried, index]
      have stored : Stored written result.1 :=
        { term := term.trans (by rw [light.1]; rfl)
          vote := vote.trans (by rw [light.1]; rfl)
          log := log.trans (by rw [light.1]; rfl)
          plan := by
            rw [show written.activePlan = command.target by simp [written, NodeDisk.write, carried], light.1]
            rfl
          applied := by
            have := h.inv.ordered.applied
            omega }
      have phase : written.phase first = disk.phase first + 1 := by
        unfold NodeDisk.phase
        rw [whole, reached]
        exact next.members
      obtain ⟨tr', ext, v', inv, effects⟩ := activation_handles v h.inv next flight.begins
        base.nextPersistenceId
      rw [← step] at inv effects
      refine ⟨tr', ext, v', ⟨?_, stored, phase ▸ inv⟩, effects⟩
      rw [light.1]
      exact pending.trans h.idle

/-- Inputs that ask for another plan. -/
def isActivation : CoreInput → Bool
  | .activateJointPlan _ _ _ | .activateStablePlan _ _ _ => true
  | _ => false

theorem Begins.steady
    (begins : base.Begins input m action) (other : isActivation input = false) : m.quorumPlan = none := by
  cases begins with
  | activateJoint => cases other
  | activateStable => cases other
  | _ => rfl

/-- A core that waits refuses every input but the acknowledgement. -/
theorem awaiting_step (other : ∀ id, input ≠ .persisted id) :
    (base.awaiting m action).step input = (base.awaiting m action, .error .persistencePending) := by
  cases input with
  | persisted id => exact absurd rfl (other id)
  | _ => rfl

/-- The only membership entry that a core accepts is the one that ends its phase. -/
theorem Running.next (h : Running first tr n disk base) {index : Nat} {e : LogEntry}
    (at_ : base.entry index = some e) (member : e.isMembership)
    (decodes : MembershipTransitionCommand.decode e.command = .ok command)
    (begins : base.Begins (Cluster.activation command incarnations e.position) m action) :
    disk.appliedIndex ≤ index - 1 ∧
      NextPhase first (disk.phase first) (index - 1) base.log e command := by
  obtain ⟨pos, -⟩ := entry_le h.inv.ordered.contiguous at_
  rw [entry_of_contiguous h.inv.ordered.contiguous pos] at at_
  have position := h.inv.ordered.contiguous _ e at_
  obtain ⟨-, -, -, applied, succeeds⟩ := activation_mutation begins
  have known : base.log.take index <+: committed tr := by
    have := h.inv.ordered.applied
    exact (take_prefix_take_left (by omega)).trans h.inv.known
  have split : base.log.take index = base.log.take (index - 1) ++ [e] := by
    rw [← toList_some, ← at_, ← take_add_one, Nat.sub_add_cancel pos]
  let j := (electorate first).members (base.log.take (index - 1))
  have count : (electorate first).members (base.log.take index) = j + 1 := by
    rw [split]
    exact members_snoc member
  have room : j + 1 ≤ disk.phase first + 1 :=
    count ▸ (Electorate.members_mono ( take_prefix ..)).trans h.inv.sound.room
  have plan : (electorate first).planAt (committed tr) (disk.phase first) = some base.activePlan :=
    h.inv.sound.plan
  -- an entry of an earlier phase asks for a plan that has been entered already
  have latest : j = disk.phase first := by
    by_contra earlier
    obtain ⟨q, atq⟩ := Electorate.planAt_below (j := j + 1) plan (by omega)
    have step := atq
    rw [Electorate.planAt_succ (split ▸ known) rfl member] at step
    obtain ⟨p, -, step⟩ := bind_eq_some_iff.mp step
    have number := planAt_phaseNumber atq
    have present := planAt_phaseNumber plan
    rw [nextPlan_target step decodes, ActiveQuorumPlan.succeeds_phaseNumber succeeds] at number
    omega
  refine ⟨?_, at_, member, decodes, latest⟩
  by_contra beyond
  have more : (electorate first).members (base.log.take index) ≤ disk.phase first := by
    unfold NodeDisk.phase
    rw [h.stored.log]
    exact Electorate.members_mono (take_prefix_take_left (by omega))
  omega

section

variable (v : (electorate first).Valid tr) (h : NodeInv first tr n node)
  (runs : node.core = some core)

include v h runs

theorem NodeInv.step (other : ∀ id, input ≠ .persisted id) (ok : InputOk first tr n input)
    (gate : ∀ proposalId operationId version command,
      proposalOf input = some (proposalId, operationId, version, command) →
      version = membershipCommandVersion → (electorate first).members core.log ≤ node.disk.phase first)
    (next : isActivation input = false ∨ ∃ index e command incarnations, core.entry index = some e ∧
      e.isMembership = true ∧ MembershipTransitionCommand.decode e.command = .ok command ∧
        input = Cluster.activation command incarnations e.position) :
    ∃ tr', Extends n tr tr' ∧ (electorate first).Valid tr' ∧
      NodeInv first tr' n { node with core := some (core.step input).1 } ∧
      ∀ effect ∈ effectsOf (core.step input).2, EffectOk first tr' n effect := by
  unfold NodeInv at h
  rw [runs] at h
  obtain ⟨base, running, rfl | ⟨asked, m, action, flight, rfl⟩⟩ := h
  · rcases running.step v ok with ⟨m, action, begins, result⟩ | ⟨tr', ext, v', running', effects⟩
    · rw [result]
      refine ⟨tr, .refl, v, ⟨core, running, .inr ⟨input, m, action, ⟨begins, ok, gate, ?_⟩, rfl⟩⟩, ?_⟩
      · rcases next with other | ⟨index, e, command, incarnations, at_, member, decodes, rfl⟩
        · exact .inl (Begins.steady begins other)
        · obtain ⟨after, next⟩ := running.next at_ member decodes begins
          exact .inr ⟨index - 1, e, command, incarnations, after, next, rfl⟩
      · intro effect mem
        rw [mem_singleton.mp mem]
        trivial
    · exact ⟨tr', ext, v', ⟨_, running', .inl rfl⟩, effects⟩
  · rw [awaiting_step other]
    exact ⟨tr, .refl, v, ⟨base, running, .inr ⟨asked, m, action, flight, rfl⟩⟩, nofun⟩

theorem NodeInv.persist (id : Nat) : let disk := match core.pending with
      | none => node.disk
      | some pending => if pending.id = id then node.disk.write pending else node.disk
    ∃ tr', Extends n tr tr' ∧ (electorate first).Valid tr' ∧
      NodeInv first tr' n { node with disk, core := some (core.step (.persisted id)).1 } ∧
      ∀ effect ∈ effectsOf (core.step (.persisted id)).2, EffectOk first tr' n effect := by
  intro disk
  unfold NodeInv at h
  rw [runs] at h
  obtain ⟨base, running, rfl | ⟨asked, m, action, flight, rfl⟩⟩ := h
  · have refused : core.step (.persisted id) = (core, .error .stalePersistence) := by
      show core.finishPersistence id = _
      unfold finishPersistence
      rw [running.idle]
    have same : disk = node.disk := by
      simp only [disk, running.idle]
    rw [refused, same]
    exact ⟨tr, .refl, v, ⟨core, running, .inl rfl⟩, nofun⟩
  · by_cases mine : base.nextPersistenceId = id
    · obtain ⟨tr', ext, v', running', effects⟩ := flight.finish v running
      have written : disk = node.disk.write { id := base.nextPersistenceId, mutation := m, action } := if_pos mine
      rw [written, ← mine]
      exact ⟨tr', ext, v', ⟨_, running', .inl rfl⟩, effects⟩
    · have refused : (base.awaiting m action).step (.persisted id) =
          (base.awaiting m action, .error .stalePersistence) := if_pos mine
      have same : disk = node.disk := if_neg mine
      rw [refused, same]
      exact ⟨tr, .refl, v, ⟨base, running, .inr ⟨asked, m, action, flight, rfl⟩⟩, nofun⟩

/-- A crash, with the mutation in flight durable or lost. -/
theorem NodeInv.crash (durable : Bool) : let disk := match core.pending with
      | none => node.disk
      | some pending => if durable then node.disk.write pending else node.disk
    ∃ tr', Extends n tr tr' ∧ (electorate first).Valid tr' ∧
      NodeInv first tr' n { node with disk, core := none } := by
  intro disk
  unfold NodeInv at h
  rw [runs] at h
  obtain ⟨base, running, rfl | ⟨asked, m, action, flight, rfl⟩⟩ := h
  · have same : disk = node.disk := by
      simp only [disk, running.idle]
    rw [same]
    exact ⟨tr, .refl, v, running.crash⟩
  · cases durable with
    | true =>
      obtain ⟨tr', ext, v', running', -⟩ := flight.finish v running
      exact ⟨tr', ext, v', running'.crash⟩
    | false => exact ⟨tr, .refl, v, running.crash⟩

end

/-- Applying a committed entry that is no membership command leaves the phase as it is. -/
theorem NodeInv.apply (h : NodeInv first tr n node) (runs : node.core = some core)
    (may : Cluster.mayApply node.disk core) :
    NodeInv first tr n { node with disk := { node.disk with appliedIndex := node.disk.appliedIndex + 1 } } := by
  have fields : ∃ e, core.entry (node.disk.appliedIndex + 1) = some e ∧ e.isMembership = false ∧
      node.disk.appliedIndex + 1 ≤ core.commitIndex := by
    unfold Cluster.mayApply at may
    rw [Bool.and_eq_true, decide_eq_true_eq] at may
    cases at_ : core.entry (node.disk.appliedIndex + 1) with
    | none => simp [at_] at may
    | some e =>
      rw [at_, any_some, decide_eq_true_eq] at may
      exact ⟨e, rfl, decide_eq_false may.2, may.1⟩
  unfold NodeInv at h ⊢
  rw [runs] at h ⊢
  obtain ⟨e, at_, plain, le⟩ := fields
  obtain ⟨base, running, pending⟩ := h
  have same : core.entry (node.disk.appliedIndex + 1) = base.entry (node.disk.appliedIndex + 1) ∧
      core.commitIndex = base.commitIndex := by
    rcases pending with rfl | ⟨_, _, _, -, rfl⟩ <;> exact ⟨rfl, rfl⟩
  rw [same.1, entry_of_contiguous running.inv.ordered.contiguous (by omega), Nat.add_sub_cancel] at at_
  let disk : NodeDisk := { node.disk with appliedIndex := node.disk.appliedIndex + 1 }
  have phase : disk.phase first = node.disk.phase first := by
    unfold NodeDisk.phase Electorate.members
    show (node.disk.log.take (node.disk.appliedIndex + 1)).countP _ = _
    rw [running.stored.log, take_add_one, at_, toList_some, countP_append,
      countP_singleton, if_neg (by rw [show (electorate first).member e = false from plain]; nofun),
      add_zero]
  have running' : Running first tr n disk base :=
    { running with
      stored := { running.stored with applied := same.2 ▸ le }
      inv := phase.symm ▸ running.inv }
  refine ⟨base, running', ?_⟩
  rcases pending with rfl | ⟨input, m, action, flight, waits⟩
  · exact .inl rfl
  refine .inr ⟨input, m, action, { flight with gate := phase.symm ▸ flight.gate, next := ?_ }, waits⟩
  rcases flight.next with steady | ⟨a, x, command, incarnations, after, next, asked⟩
  · exact .inl steady
  -- the entry that is waited for is a membership entry, so it is not the one applied
  have other : node.disk.appliedIndex ≠ a := by
    rintro rfl
    have held := next.entry
    rw [at_] at held
    cases held
    have member := next.member
    rw [plain] at member
    cases member
  refine .inr ⟨a, x, command, incarnations, ?_, phase.symm ▸ next, asked⟩
  show node.disk.appliedIndex + 1 ≤ a
  omega

def rebudgeted (core : ConsensusCore) (default : ReplicationBatchBudget)
    (peers : OrdMap NodeId ReplicationBatchBudget) : ConsensusCore :=
  { core with replicationDefault := default, replicationPeers := peers }

theorem logDelta_rebudgeted (default : ReplicationBatchBudget) (peers : OrdMap NodeId ReplicationBatchBudget) :
    ∀ entries, (rebudgeted base default peers).logDelta entries = base.logDelta entries
  | [] => rfl
  | e :: es => by
    unfold logDelta
    rw [logDelta_rebudgeted default peers es]
    rfl

theorem Begins.rebudget (begins : base.Begins input m action) (default : ReplicationBatchBudget)
    (peers : OrdMap NodeId ReplicationBatchBudget) :
    (rebudgeted base default peers).Begins input m action := by
  cases begins with
  | campaign role eligible term => exact .campaign role eligible term
  | voteReply plan candidate pos term voter granted new => exact .voteReply plan candidate pos term voter granted new
  | voteStepDown term => exact .voteStepDown term
  | appendStepDown term => exact .appendStepDown term
  | appendRefused valid leader plan term => exact .appendRefused valid leader plan term
  | appendAccepted valid leader plan term holds delta new =>
    exact .appendAccepted valid leader plan term holds ((logDelta_rebudgeted ..).trans delta) new
  | committedPrefix valid sender plan applied holds delta new =>
    exact .committedPrefix valid sender plan applied holds ((logDelta_rebudgeted ..).trans delta) new
  | proposal asked role index new => exact .proposal asked role index new
  | activateJoint active digest epoch incarnations preserves position =>
    exact .activateJoint active digest epoch incarnations preserves position
  | activateStable active digest epoch incarnations preserves position =>
    exact .activateStable active digest epoch incarnations preserves position

theorem Running.rebudget (h : Running first tr n disk base) (default : ReplicationBatchBudget)
    (peers : OrdMap NodeId ReplicationBatchBudget) : Running first tr n disk (rebudgeted base default peers) where
  idle := h.idle
  stored := { h.stored with }
  inv := h.inv.congr ⟨rfl, rfl, rfl, rfl, rfl, rfl, rfl, rfl, rfl, rfl⟩ h.inv.ordered.applied

theorem NodeInv.rebudget (h : NodeInv first tr n node) (runs : node.core = some core)
    (default : ReplicationBatchBudget) (peers : OrdMap NodeId ReplicationBatchBudget) :
    NodeInv first tr n { node with core := some (rebudgeted core default peers) } := by
  unfold NodeInv at h ⊢
  rw [runs] at h
  obtain ⟨base, running, rfl | ⟨input, m, action, flight, rfl⟩⟩ := h
  · exact ⟨_, running.rebudget default peers, .inl rfl⟩
  · exact ⟨_, running.rebudget default peers, .inr ⟨input, m, action,
      { flight with begins := Begins.rebudget flight.begins default peers }, rfl⟩⟩

end Nodes

end MeshSpan
