import MeshSpan.Cluster.Handlers

/- A whole step of a core as a move of the ledger.

   `step_settles`: an input either only begins a mutation, which changes nothing
   that the ledger reads, or its result is accounted for at once.
   `finish_handles`: when the mutation that an input began is acknowledged, the
   result is accounted for, whatever happened to the ledger in between. The two
   together say that an input and its persistence are one move, made when the
   mutation becomes durable. -/

namespace MeshSpan

open Ordered Ledger ConsensusCore List

section

variable (first : CompiledQuorumPlan) (tr : History NodeId LogEntry) (n : NodeId) (k : Nat)

/-- What the history has to say about an input before the core may take it. -/
def InputOk : CoreInput → Prop
  | .message sender _ message => MessageOk first tr sender n message
  | _ => True

/-- The step waits for a mutation, or is accounted for. -/
def Settles (core : ConsensusCore) (input : CoreInput) (result : StepResult) : Prop :=
  core.Waits input result ∨ Handles first tr n k result

end

variable {first : CompiledQuorumPlan} {tr : History NodeId LogEntry} {n : NodeId} {k : Nat}
  {core core' : ConsensusCore}

/-! ## Inputs -/

variable {input : CoreInput} {sender : NodeId} {request : AppendRequest}

theorem appendReply_matched (wellFormed : validateAppendEntries request = .ok ()) :
    (core.appendReply request true).matchedIndex = request.previous.index + request.entries.length := by
  obtain ⟨-, follows, -⟩ := validateAppendEntries_spec wellFormed
  exact proven_index follows

theorem heldAppend_handles (v : (electorate first).Valid tr) (h : CoreInv first tr n k core)
    (ok : AppendOk first tr request) (wellFormed : validateAppendEntries request = .ok ())
    (plan : core.validatePlan request.membershipEpoch request.planDigest)
    (term : core.currentTerm = request.term)
    (holds : core.positionMatches request.previous request.previousDigest)
    (delta : core.logDelta request.entries = .ok (none, [])) :
    let following := core.followLeader (some sender)
    let reply := following.appendReply request true
    Handles first tr n k (ConsensusCore.thenReply (·.appendReplyEffect sender reply)
      (following.advanceFollowerCommit (min request.leaderCommitIndex reply.matchedIndex))) := by
  intro following reply
  obtain ⟨tr', X, ext, v', inv, length, acked, inL, inLed⟩ :=
    h.appended v ok wellFormed plan term.le holds delta
  rw [show core.keptLog none ++ [] = core.log from append_nil _] at inv inL
  have follows : CoreInv first tr' n k following := by
    refine inv.congr ?_ h.ordered.applied
    unfold observing
    rw [if_neg (by omega)]
    exact ⟨rfl, rfl, rfl, rfl, rfl, rfl, rfl, rfl, rfl, rfl⟩
  exact Handles.after ext (accepted_handles v' follows rfl 
    (show MessageOk first tr' sender n (.appendRequest request) from MessageOk.mono ext v' ok) term acked inL inLed
    ((appendReply_matched wellFormed).trans length.symm))

/-- An input only begins a mutation, or is accounted for at once. -/
theorem Reacts.settles {result : StepResult} (reacts : core.Reacts input result)
    (v : (electorate first).Valid tr) (h : CoreInv first tr n k core) (ok : InputOk first tr n input) :
    Settles first tr n k core input result := by
  cases reacts with
  | begins begins =>
    rcases begins.waits with refused | waits
    · rw [refused]
      exact .inr (.error v h _)
    · exact .inl waits
  | refuses err => exact .inr (.error v h err)
  | ignores => exact .inr (.none v h)
  | probes _ probes => exact .inr (probeAll_handles v h _)
  | notices peer hint => exact .inr (.one v h (nomatch ·))
  | replays peer response => exact .inr (.quiet v h (replay_ok h _ _))
  | votes granted again =>
    refine .inr ?_
    cases granted with
    | false => exact .one v h (nomatch ·)
    | true =>
      -- a vote that is repeated is recorded once more
      obtain ⟨plan, upToDate, term, voted⟩ := again rfl
      obtain ⟨tr', ext, v', inv, cast⟩ := h.grantRequest v ok plan upToDate term.symm (.inr voted)
      refine Handles.after ext (.one v' ?_ fun _ => cast)
      exact inv.congr ⟨rfl, rfl, rfl, rfl, voted, rfl, rfl, rfl, rfl, rfl⟩ h.ordered.applied
  | counts term role => exact .inr (.none v (h.count term ok role))
  | wins term role quorum => exact .inr (becomeLeader_handles v (h.count term ok role) rfl quorum)
  | declines => exact .inr (.one v h (nomatch ·))
  | follows => exact .inr (.one v (h.retire _) (nomatch ·))
  | holds wellFormed plan term holds delta =>
    exact .inr (heldAppend_handles v h ok wellFormed plan term holds delta)
  | answers _ term role _ received => exact .inr (leaderResponse_handles v h role ok term received)
  | @finishes sender _ _ wellFormed plan holds delta =>
    obtain ⟨inv, X, length, inL, inCommitted⟩ := h.installed v ok wellFormed plan holds delta
    rw [show core.keptLog none ++ [] = core.log from append_nil _] at inv inL
    rw [← length]
    exact .inr (finishCommittedPrefix_handles v (h.retire none) inL inCommitted sender)
  | reads id => exact .inr (beginReadBarrier_handles v h id)
  | cancels id => exact .inr (cancelReadBarrier_handles v h id)
  | applies index => exact .inr (appliedThrough_handles v h index)

theorem step_settles (v : (electorate first).Valid tr) (h : CoreInv first tr n k core)
    (idle : core.pending = none) (ok : InputOk first tr n input) :
    Settles first tr n k core input (core.step input) :=
  Reacts.settles (step_reacts idle input) v h ok

/-! ## Proposals -/

variable {e : LogEntry}

theorem ofCurrentTerm_append {i : Nat} (le : i ≤ core.log.length) :
    ({ core with log := core.log ++ [e] } : ConsensusCore).ofCurrentTerm i = core.ofCurrentTerm i := by
  unfold ofCurrentTerm entry
  by_cases zero : i = 0
  · rw [if_pos zero, if_pos zero]
  · rw [if_neg zero, if_neg zero]
    rw [getElem?_append_left (by omega)]

/-- A leader appends an entry of its term to its log and acknowledges it to itself. -/
theorem CoreInv.propose (v : (electorate first).Valid tr) (h : CoreInv first tr n k core)
    (leads : core.role.standing = .leader)
    (position : e.position = ⟨core.currentTerm, core.log.length + 1⟩) (valid : e.validate = .ok ())
    (bounded : core.log.length + 1 ≤ u64Max) (room : (electorate first).members (core.log ++ [e]) ≤ k + 1) :
    ∃ tr', Extends n tr tr' ∧ (electorate first).Valid tr' ∧
      CoreInv first tr' n k { core with log := core.log ++ [e] } := by
  obtain ⟨v', sound⟩ := h.sound.propose v leads (x := e) (congrArg LogPosition.term position) room
  let tr' := tr ++ [.ack ⟨n, core.currentTerm, k, core.log ++ [e]⟩]
  have ext : Extends n tr tr' := .ack rfl
  have follows : Follows core.log.length [e] :=
    Follows.cons (congrArg LogPosition.index position) (Follows.nil _)
  -- what was acknowledged before lies below the new entry
  have grown : ∀ q m, MatchedOk tr core q m →
      MatchedOk tr' { core with log := core.log ++ [e] } q m := by
    intro q m matched
    have within := matched.within
    refine ⟨by simp only [length_append]; omega, fun i le own => ?_⟩
    rw [ofCurrentTerm_append (by omega)] at own
    show Acked tr' core.currentTerm q ((core.log ++ [e]).take i)
    rw [take_append_of_le_length (by omega)]
    exact (matched.acked i le own).mono ext
  refine ⟨_, ext, v', ?_⟩
  exact
    { name := h.name
      ordered := ⟨h.ordered.contiguous.append follows, h.ordered.applied, sound.within,
        by simp only [length_append, length_singleton]; exact bounded⟩
      valid := ValidEntries.append h.valid fun x mem => by rw [mem_singleton.mp mem]; exact valid
      sound := sound
      votes := fun q mem => (h.votes q mem).mono ext
      matched := fun q m at_ => grown q m (h.matched q m at_)
      own := fun _ => by
        refine ⟨le_rfl, fun i le own => ?_⟩
        exact ⟨_, mem_append_right _ (mem_singleton.mpr rfl), rfl, rfl, take_prefix ..⟩
      history := fun epoch digest boundary found => (h.history epoch digest boundary found).mono ext v' }

variable {position : LogPosition} {append : List LogEntry} {truncateFrom : Option Nat}
  {action : AfterPersistence}

theorem finishProposal_handles (v : (electorate first).Valid tr) (h : CoreInv first tr n k core)
    (proposalId : Nat) (last : position.index = core.log.length) :
    Handles first tr n k (core.finishProposal proposalId position) := by
  unfold finishProposal
  split
  · rename_i state role
    have leads := standing_leader role
    have self : ∀ s : LeaderState, s.matched = state.matched.insert core.config.localNodeId position.index →
        CoreInv first tr n k { core with role := .leader s } := by
      intro s eq
      refine h.rematch leads fun q m at_ => ?_
      rw [eq, OrdMap.get?_insert] at at_
      split at at_
      · rename_i mine
        cases at_
        rw [mine, h.name, last]
        exact h.own leads
      · exact h.matched q m (by rw [role]; exact at_)
    dsimp only
    split
    · exact .error v (self _ rfl) _
    rename_i following _
    have replicated := Handles.withEffects
      (.one v (self { state with
        matched := state.matched.insert core.config.localNodeId position.index
        next := state.next.insert core.config.localNodeId following } rfl)
        (show EffectOk first tr n (.proposalAppended proposalId position) from trivial))
      (fun tr' _ v' inv => replicateAll_handles v' inv)
    split
    · rename_i core₁ err result
      rw [result] at replicated
      exact replicated
    · rename_i core₁ sends result
      rw [result] at replicated
      exact replicated.withEffects fun tr' _ v' inv => advanceLeaderCommit_handles v' inv
  · exact .error v h _

/-! ## Acknowledged mutations -/

theorem CoreInv.steppedDown (h : CoreInv first tr n k core) {t : Nat} (higher : core.currentTerm < t)
    (leader : Option NodeId) :
    CoreInv first tr n k ((core.acknowledged { voteState := some (t, none) }).followLeader leader) := by
  rw [acknowledged_higher _ higher]
  exact (h.bump higher).congr ⟨rfl, rfl, rfl, rfl, rfl, rfl, rfl, rfl, rfl, rfl⟩ h.ordered.applied

theorem applied_le_acknowledged (h : core.LocalInv) (m : DurableMutation) :
    (core.acknowledged m).appliedIndex ≤ (core.acknowledged m).commitIndex := by
  obtain ⟨commit, applied, -⟩ := acknowledged_indices core m
  rw [commit, applied]
  exact h.applied

section

variable (v : (electorate first).Valid tr) (h : CoreInv first tr n k core)

include v h

theorem acceptedAppend_handles (ok : AppendOk first tr request)
    (wellFormed : validateAppendEntries request = .ok ())
    (plan : core.validatePlan request.membershipEpoch request.planDigest)
    (term : core.currentTerm ≤ request.term)
    (holds : core.positionMatches request.previous request.previousDigest)
    (delta : core.logDelta request.entries = .ok (truncateFrom, append)) : let following := (core.acknowledged
      { voteState := core.observe request.term, truncateFrom, append }).followLeader (some sender)
    let reply := core.appendReply request true
    Handles first tr n k (ConsensusCore.thenReply (·.appendReplyEffect sender reply)
      (following.advanceFollowerCommit (min request.leaderCommitIndex reply.matchedIndex))) := by
  intro following reply
  obtain ⟨tr', X, ext, v', inv, length, acked, inL, inLed⟩ := h.appended v ok wellFormed plan term holds delta
  have same := acknowledged_observing core request.term truncateFrom append (some sender)
  refine Handles.after ext (accepted_handles v' (inv.congr same (applied_le_acknowledged h.ordered _)) rfl
    (show MessageOk first tr' sender n (.appendRequest request) from MessageOk.mono ext v' ok) ?_ acked ?_ inLed
    ((appendReply_matched wellFormed).trans length.symm))
  · rw [same.term]
    exact observing_term term
  · rw [same.log]
    exact inL

theorem acceptedRange_handles {range : CommittedPrefix}
    (ok : RangeOk first tr (committed tr) range.previous range.previousDigest range.entries range.planDigest)
    (wellFormed : validateCommittedPrefix range = .ok ())
    (plan : core.validatePlan range.membershipEpoch range.planDigest)
    (holds : core.positionMatches range.previous range.previousDigest)
    (delta : core.logDelta range.entries = .ok (truncateFrom, append)) :
    Handles first tr n k ((core.acknowledged
      { voteState := core.observe (observedTerm range), truncateFrom, append }).finishCommittedPrefix sender
        range.committedIndex) := by
  obtain ⟨inv, X, length, inL, inCommitted⟩ := h.installed v ok wellFormed plan holds delta
  have same := acknowledged_observing core (observedTerm range) truncateFrom append none
  rw [← length]
  refine finishCommittedPrefix_handles v (inv.congr same (applied_le_acknowledged h.ordered _)) ?_ inCommitted
    sender
  exact same.log ▸ inL

theorem acknowledgedProposal_handles (leads : core.roleKind = .leader) {index : Nat}
    (next : checkedAdd core.lastPosition.index 1 = some index) {operationId : OperationId}
    {version : Nat} {command : List Nat}
    (new : LogEntry.new ⟨core.currentTerm, index⟩ operationId version command = .ok e)
    (gate : version = membershipCommandVersion → (electorate first).members core.log ≤ k)
    (proposalId : Nat) :
    Handles first tr n k ((core.acknowledged { append := [e] }).finishProposal proposalId
      ⟨core.currentTerm, index⟩) := by
  rw [lastPosition_of_contiguous h.ordered.contiguous] at next
  obtain ⟨rfl, bounded⟩ := checkedAdd_some next
  obtain ⟨position, -, versionE, -, valid⟩ := LogEntry.new_spec new
  have standing : core.role.standing = .leader := by
    unfold roleKind at leads
    split at leads
    · cases leads
    · cases leads
    · rename_i role
      rw [role]
      rfl
  have room : (electorate first).members (core.log ++ [e]) ≤ k + 1 := by
    have held : (electorate first).members core.log ≤ k + 1 := h.sound.room
    unfold Electorate.members at held ⊢
    rw [countP_append, countP_singleton]
    split
    · rename_i member
      have := gate (versionE ▸ of_decide_eq_true member)
      unfold Electorate.members at this
      omega
    · exact held
  obtain ⟨tr', ext, v', inv⟩ := h.propose v standing position valid bounded room
  refine Handles.after ext (finishProposal_handles v' ?_ proposalId ?_)
  · exact inv.congr ⟨rfl, rfl, rfl, rfl, rfl, rfl, rfl, rfl, rfl, rfl⟩ h.ordered.applied
  · simp [acknowledged, installed, keptLog]

end

variable {m : DurableMutation}

/-- The result of an acknowledged mutation is accounted for, unless it enters a plan. -/
theorem finish_handles (v : (electorate first).Valid tr) (h : CoreInv first tr n k core)
    (begins : core.Begins input m action) (ok : InputOk first tr n input)
    (gate : ∀ proposalId operationId version command,
      proposalOf input = some (proposalId, operationId, version, command) →
      version = membershipCommandVersion → (electorate first).members core.log ≤ k)
    (steady : m.quorumPlan = none) (id : Nat) :
    Handles first tr n k ((core.acknowledged m).finishAction { id, mutation := m, action }) := by
  cases begins with
  | campaign role eligible next => exact finishCampaign_handles v h (by have := (checkedAdd_some next).1; omega)
  | voteReply plan candidate pos term voter grants new => exact voteReply_handles v h ok plan term grants new
  | voteStepDown higher => exact .one v (h.steppedDown higher none) trivial
  | appendStepDown higher => exact .one v (h.steppedDown higher none) trivial
  | appendRefused wellFormed leader plan higher =>
    exact .one v (h.steppedDown higher _) (nomatch ·)
  | appendAccepted wellFormed leader plan term holds delta new =>
    exact acceptedAppend_handles v h ok wellFormed plan term holds delta
  | committedPrefix wellFormed voter plan applied holds delta new =>
    exact acceptedRange_handles v h ok wellFormed plan holds delta
  | proposal asked leads next new =>
    exact acknowledgedProposal_handles v h leads next new (gate _ _ _ _ asked) _
  | activateJoint => cases steady
  | activateStable => cases steady

/-! ## Activation -/

section Activation

variable (first)

/-- Index `a + 1` of a log holds the membership command that ends phase `k`. -/
structure NextPhase (k a : Nat) (log : List LogEntry) (e : LogEntry) (command : MembershipTransitionCommand) :
    Prop where
  entry : log[a]? = some e
  member : e.isMembership = true
  decodes : MembershipTransitionCommand.decode e.command = .ok command
  count : (electorate first).members (log.take a) = k

variable {first} {a : Nat} {e : LogEntry} {command : MembershipTransitionCommand}

theorem NextPhase.take (next : NextPhase first k a core.log e command) :
    core.log.take (a + 1) = core.log.take a ++ [e] := by
  rw [take_add_one, next.entry, Option.toList_some]

theorem members_snoc {A : List LogEntry} (member : e.isMembership) :
    (electorate first).members (A ++ [e]) = (electorate first).members A + 1 := by
  unfold Electorate.members
  rw [countP_append, countP_singleton]
  exact congrArg (_ + ·) (if_pos member)

theorem NextPhase.members (next : NextPhase first k a core.log e command) :
    (electorate first).members (core.log.take (a + 1)) = k + 1 := by
  rw [next.take, members_snoc next.member, next.count]

/-- The commands of a membership entry in reach are committed. -/
theorem CoreInv.next_committed (h : CoreInv first tr n k core) (within : a + 1 ≤ core.commitIndex) :
    core.log.take (a + 1) <+: committed tr :=
  (take_prefix_take_left within).trans h.known

theorem find_record {history : MembershipHistory} {plan : ActiveQuorumPlan} {epoch : Nat}
    {digest : Digest} {boundary : PhaseBoundary}
    (found : (history.record plan position).find epoch digest = some boundary) :
    (boundary = ⟨plan, position⟩ ∧ digest = plan.proofDigest) ∨ history.find epoch digest = some boundary := by
  unfold MembershipHistory.find MembershipHistory.record at found
  obtain ⟨b, found, same⟩ := Option.map_eq_some_iff.mp found
  rw [find?_cons] at found
  split at found
  · rename_i key
    obtain rfl := Option.some.inj found
    simp only [decide_eq_true_eq, Prod.mk.injEq] at key
    exact .inl ⟨same.symm, key.2.symm⟩
  · rename_i other
    have other : (plan.membershipEpoch, plan.proofDigest) ≠ (epoch, digest) := by simpa using other
    rw [find?_filter] at found
    refine .inr (Option.map_eq_some_iff.mpr ⟨b, ?_, same⟩)
    rw [← found]
    congr 1
    funext b
    by_cases is : b.1 = (epoch, digest)
    · simp [is, other.symm]
    · simp [is]

theorem NextPhase.boundary (next : NextPhase first k a core.log e command) (h : CoreInv first tr n k core)
    (within : a + 1 ≤ core.commitIndex) :
    BoundaryOk first tr core.activePlan.proofDigest ⟨core.activePlan, e.position⟩ := by
  have index := h.ordered.contiguous a e next.entry
  obtain ⟨D, grown⟩ := h.next_committed within
  have length : (core.log.take (a + 1)).length = a + 1 := by
    have := (List.getElem?_eq_some_iff.mp next.entry).1
    rw [length_take]
    omega
  refine ⟨rfl, ?_, k, h.phase, ?_⟩
  · show e.position.index ≤ _
    rw [← grown, length_append, length, index]
    exact Nat.le_add_right ..
  · show (electorate first).members ((committed tr).take e.position.index) ≤ k + 1
    rw [← grown, index, take_append_of_le_length (by omega), take_of_length_le (by omega)]
    exact next.members.le

theorem CoreInv.enter (h : CoreInv first tr n k core) (next : NextPhase first k a core.log e command)
    (within : a + 1 ≤ core.commitIndex) (succeeds : core.activePlan.Succeeds command.target)
    (incarnations : MemberIncarnations) :
    CoreInv first tr n (k + 1) (core.enterPlan command.target incarnations e.position) := by
  have committed := h.next_committed within
  have present : (electorate first).planAt (Ledger.committed tr) k = some core.activePlan := h.sound.plan
  have plan : (electorate first).planAt (Ledger.committed tr) (k + 1) = some command.target := by
    rw [Electorate.planAt_succ (next.take ▸ committed) next.count next.member, present]
    show nextPlan core.activePlan e = some command.target
    unfold nextPlan
    rw [next.decodes]
    exact if_pos succeeds
  have seen : k + 1 ≤ (electorate first).members (core.log.take core.commitIndex) :=
    next.members ▸ Electorate.members_mono (take_prefix_take_left within)
  exact
    { name := h.name
      ordered := { h.ordered with }
      valid := h.valid
      sound := h.sound.activate seen plan
      votes := h.votes
      matched := fun q m at_ => (h.matched q m at_).congr (by rfl) (by rfl)
      own := fun leads => (h.own leads).congr (by rfl) (by rfl)
      history := fun epoch digest boundary found => by
        rcases find_record found with ⟨rfl, rfl⟩ | old
        · exact next.boundary h within
        · exact h.history epoch digest boundary old }

/-- A leader keeps what it knows about the members that stay, and nothing about new ones. -/
theorem CoreInv.rebase (h : CoreInv first tr n k core) (nextIndex : Nat) :
    CoreInv first tr n k (core.rebaseLeader nextIndex) := by
  unfold rebaseLeader
  split
  · rename_i state role
    refine h.rematch (standing_leader role) fun q m at_ => ?_
    rcases OrdMap.get?_foldl_orInsert _ _ _ at_ with kept | rfl
    · obtain ⟨old, -⟩ := OrdMap.get?_retain_some.mp kept
      exact h.matched q m (by rw [role]; exact old)
    · split
      · rename_i self
        rw [self, h.name, lastPosition_of_contiguous h.ordered.contiguous]
        exact h.own (standing_leader role)
      · refine ⟨Nat.zero_le _, fun i le own => ?_⟩
        obtain rfl : i = 0 := by omega
        cases own
  · exact h

section

variable (v : (electorate first).Valid tr) (h : CoreInv first tr n k core)

include v h

theorem settlePlan_handles : Handles first tr n k core.settlePlan := by
  unfold settlePlan
  simp only
  split
  · exact replicateAll_handles v h
  split
  · exact .none v h
  · split
    · exact .none v (h.retire none)
    · exact .one v (h.retire none) trivial

theorem finishPlanActivation_handles (next : NextPhase first k a core.log e command)
    (within : a + 1 ≤ core.commitIndex) (succeeds : core.activePlan.Succeeds command.target)
    (incarnations : MemberIncarnations) :
    Handles first tr n (k + 1) (core.finishPlanActivation command.target incarnations e.position) := by
  have entered := h.enter next within succeeds incarnations
  unfold finishPlanActivation
  simp only
  split
  · exact .error v entered _
  · exact settlePlan_handles v (entered.rebase _)

omit v h in
/-- A mutation that only activates a plan leaves the ledger's fields as they are. -/
theorem CoreInv.activating (h : CoreInv first tr n k core) (vote : m.voteState = none)
    (truncate : m.truncateFrom = none) (append : m.append = []) :
    CoreInv first tr n k (core.acknowledged m) ∧ (core.acknowledged m).log = core.log ∧
      (core.acknowledged m).commitIndex = core.commitIndex ∧
      (core.acknowledged m).activePlan = core.activePlan := by
  have eq : core.acknowledged m = { core with nextPersistenceId := core.nextPersistenceId + 1 } := by
    simp [acknowledged, ConsensusCore.installed, installVote, keptLog, vote, truncate, append]
  rw [eq]
  exact ⟨h.congr ⟨rfl, rfl, rfl, rfl, rfl, rfl, rfl, rfl, rfl, rfl⟩ h.ordered.applied, rfl, rfl, rfl⟩

/-- The acknowledged activation of the next membership command enters the next phase. -/
theorem activation_handles {incarnations : MemberIncarnations}
    (next : NextPhase first k a core.log e command)
    (begins : core.Begins (Cluster.activation command incarnations e.position) m action) (id : Nat) :
    Handles first tr n (k + 1) ((core.acknowledged m).finishAction { id, mutation := m, action }) := by
  have reached (valid : core.validAppliedTransitionPosition e.position = true) : a + 1 ≤ core.commitIndex := by
    obtain ⟨-, -, -, le⟩ := validAppliedTransitionPosition_spec valid
    have index := h.ordered.contiguous a e next.entry
    have := h.ordered.applied
    omega
  have enters (vote : m.voteState = none) (truncate : m.truncateFrom = none) (append : m.append = [])
      (valid : core.validAppliedTransitionPosition e.position = true)
      (succeeds : core.activePlan.Succeeds command.target) :
      Handles first tr n (k + 1)
        ((core.acknowledged m).finishPlanActivation command.target incarnations e.position) := by
    obtain ⟨inv, log, commit, plan⟩ := h.activating vote truncate append
    exact finishPlanActivation_handles v inv (log ▸ next) (commit ▸ reached valid) (plan ▸ succeeds) _
  cases command with
  | finaliseStable plan =>
    cases begins with
    | proposal asked => cases asked
    | activateStable active digest epoch incs preserves valid =>
      exact enters rfl rfl rfl valid (by rw [active]; exact digest)
  | _ =>
    cases begins with
    | proposal asked => cases asked
    | activateJoint active digest epoch incs preserves valid =>
      exact enters rfl rfl rfl valid (by rw [active]; exact digest)

end

end Activation

end MeshSpan
