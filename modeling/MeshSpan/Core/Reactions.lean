import MeshSpan.Core.Frame

/- What a core can do with one input.

   `Begins` lists the durable mutations that the handlers ask for, one constructor
   a call site of `begin_persistence`; `Reacts` lists the ways out of a handler.
   Each constructor carries what the handler has checked on the way.

   What is proved:
     1. `step_reacts`: every step of a core that waits for nothing is listed.

   Only this module follows the branches of the handlers. What later modules say
   about whole steps is a case analysis over `Reacts`. -/

namespace MeshSpan

open Ordered

namespace ConsensusCore

variable {core : ConsensusCore}

/-! ## Mutations -/

/-- What an input proposes, if it is a proposal. -/
def proposalOf : CoreInput → Option (Nat × OperationId × Nat × List Nat)
  | .propose proposalId operationId version command => some (proposalId, operationId, version, command)
  | .confirmTerm proposalId operationId =>
    some (proposalId, operationId, termConfirmationVersion, termConfirmationBytes)
  | _ => none

/-- The term a committed range proves, that of its last entry. -/
def observedTerm (range : CommittedPrefix) : Nat :=
  (range.entries.getLast?.map (·.position.term)).getD range.previous.term

/-- The vote state that observing a term asks for, none unless the term is new. -/
def observe (core : ConsensusCore) (term : Nat) : Option (Nat × Option NodeId) :=
  if term > core.currentTerm then some (term, none) else none

/-- The durable mutations the handlers ask for, each with what its handler has checked. -/
inductive Begins (core : ConsensusCore) : CoreInput → DurableMutation → AfterPersistence → Prop
  | campaign {term : Nat} (hrole : core.roleKind ≠ .leader)
      (heligible : core.localIsEligibleLeader = true) (hterm : checkedAdd core.currentTerm 1 = some term) :
      Begins core .electionTimeout { voteState := some (term, some core.config.localNodeId) } .campaign
  | voteReply {sender : NodeId} {incarnation : Nat} {request : VoteRequest} {granted : Bool}
      (hplan : core.validatePlan request.membershipEpoch request.planDigest = true)
      (hcandidate : request.candidate = sender) (hpos : request.term ≠ 0)
      (hterm : core.currentTerm ≤ request.term) (hvoter : core.isLocalVoter = true)
      (hgranted : granted = ((core.lastPosition ≤ request.lastLog) &&
        (request.term > core.currentTerm ∨ core.votedFor = none ∨ core.votedFor = some sender)))
      (hnew : request.term > core.currentTerm ∨ (granted = true ∧ core.votedFor ≠ some sender)) :
      Begins core (.message sender incarnation (.voteRequest request))
        { voteState := some (request.term, if granted then some sender else none) }
        (.voteReply sender granted)
  | voteStepDown {sender : NodeId} {incarnation : Nat} {response : VoteResponse}
      (hterm : core.currentTerm < response.term) :
      Begins core (.message sender incarnation (.voteResponse response))
        { voteState := some (response.term, none) } .stepDown
  | appendStepDown {sender : NodeId} {incarnation : Nat} {response : AppendResponse}
      (hterm : core.currentTerm < response.term) :
      Begins core (.message sender incarnation (.appendResponse response))
        { voteState := some (response.term, none) } .stepDown
  | appendRefused {sender : NodeId} {incarnation : Nat} {request : AppendRequest}
      (hvalid : validateAppendEntries request = .ok ()) (hleader : request.leader = sender)
      (hplan : core.validatePlan request.membershipEpoch request.planDigest = true)
      (hterm : core.currentTerm < request.term) :
      Begins core (.message sender incarnation (.appendRequest request))
        { voteState := some (request.term, none) }
        (.appendReply sender sender 0 (core.appendReply request false))
  | appendAccepted {sender : NodeId} {incarnation : Nat} {request : AppendRequest}
      {truncateFrom : Option Nat} {append : List LogEntry}
      (hvalid : validateAppendEntries request = .ok ()) (hleader : request.leader = sender)
      (hplan : core.validatePlan request.membershipEpoch request.planDigest = true)
      (hterm : core.currentTerm ≤ request.term)
      (hmatch : core.positionMatches request.previous request.previousDigest = true)
      (hdelta : core.logDelta request.entries = .ok (truncateFrom, append))
      (hnew : request.term > core.currentTerm ∨ truncateFrom.isSome = true ∨ append ≠ []) :
      Begins core (.message sender incarnation (.appendRequest request))
        { voteState := core.observe request.term, truncateFrom, append }
        (.appendReply sender sender request.leaderCommitIndex (core.appendReply request true))
  | committedPrefix {sender : NodeId} {incarnation : Nat} {range : CommittedPrefix}
      {truncateFrom : Option Nat} {append : List LogEntry}
      (hvalid : validateCommittedPrefix range = .ok ()) (hsender : sender ∈ core.activePlan.voters)
      (hplan : core.validatePlan range.membershipEpoch range.planDigest = true)
      (happlied : core.appliedIndex < range.committedIndex)
      (hmatch : core.positionMatches range.previous range.previousDigest = true)
      (hdelta : core.logDelta range.entries = .ok (truncateFrom, append))
      (hnew : truncateFrom.isSome = true ∨ append ≠ [] ∨ observedTerm range > core.currentTerm) :
      Begins core (.message sender incarnation (.committedPrefix range))
        { voteState := core.observe (observedTerm range), truncateFrom, append }
        (.committedPrefix sender range.committedIndex)
  | proposal {input : CoreInput} {proposalId : Nat} {operationId : OperationId} {version : Nat}
      {command : List Nat} {index : Nat} {e : LogEntry}
      (hinput : proposalOf input = some (proposalId, operationId, version, command))
      (hrole : core.roleKind = .leader) (hindex : checkedAdd core.lastPosition.index 1 = some index)
      (hnew : LogEntry.new ⟨core.currentTerm, index⟩ operationId version command = .ok e) :
      Begins core input { append := [e] } (.proposal proposalId ⟨core.currentTerm, index⟩)
  | activateJoint {current : CompiledQuorumPlan} {joint : JointQuorumPlan}
      {incarnations : MemberIncarnations} {position : LogPosition}
      (hactive : core.activePlan = .stable current)
      (hdigest : current.proofDigest = joint.old.proofDigest)
      (hepoch : current.spec.membershipEpoch = joint.old.spec.membershipEpoch)
      (hincarnations : incarnations.matchesMembers joint.members = true)
      (hpreserves : incarnations.preserves core.config.memberIncarnations core.members = true)
      (hposition : core.validAppliedTransitionPosition position = true) :
      Begins core (.activateJointPlan joint incarnations position)
        { membershipEpoch := some joint.membershipEpoch
          quorumPlan := some { activePlan := .joint joint, activatedPosition := position } }
        (.activateJoint joint incarnations)
  | activateStable {joint : JointQuorumPlan} {plan : CompiledQuorumPlan}
      {incarnations : MemberIncarnations} {position : LogPosition}
      (hactive : core.activePlan = .joint joint)
      (hdigest : plan.proofDigest = joint.new.proofDigest)
      (hepoch : plan.spec.membershipEpoch = joint.membershipEpoch)
      (hincarnations : incarnations.matchesMembers plan.members = true)
      (hpreserves : incarnations.preserves core.config.memberIncarnations
        (core.members.inter plan.members) = true)
      (hposition : core.validAppliedTransitionPosition position = true) :
      Begins core (.activateStablePlan plan incarnations position)
        { membershipEpoch := some plan.spec.membershipEpoch
          quorumPlan := some { activePlan := .stable plan, activatedPosition := position } }
        (.activateStable plan incarnations)

def awaiting (core : ConsensusCore) (mutation : DurableMutation) (action : AfterPersistence) :
    ConsensusCore :=
  { core with
    nextPersistenceId := core.nextPersistenceId + 1
    pending := some { id := core.nextPersistenceId, mutation, action } }

/-- The step asks for a mutation that `input` begins and now waits for it. -/
def Waits (core : ConsensusCore) (input : CoreInput) (result : StepResult) : Prop :=
  ∃ mutation action, core.Begins input mutation action ∧
    result = (core.awaiting mutation action, .ok [.persist core.nextPersistenceId mutation])

/-! ## Reactions -/

/-- What a leader does with the proof that a response carries, once its probe is consumed. -/
def proofTaken (core : ConsensusCore) (state : LeaderState) (sender : NodeId)
    (response : AppendResponse) (probes : AppendProbes) (proof : ProbeResult) : StepResult :=
  let state := { state with probes := state.probes.insert sender probes }
  let core := { core with role := .leader state }
  if proof = .contact then core.acknowledgeReadBarrier sender response.readBarrierId
  else
    match core.absorbProof state sender response proof with
    | (core, .error err) => (core, .error err)
    | (core, .ok ()) => core.finishResponse sender response

/-- A candidate that has counted the answer of a peer. -/
def counted (core : ConsensusCore) (votes : OrdSet NodeId) (sender : NodeId) (granted : Bool) :
    ConsensusCore :=
  { core with role := .candidate (countVote votes sender granted) }

/-- The answer to an append whose entries the log already holds. -/
def heldAppend (core : ConsensusCore) (sender : NodeId) (request : AppendRequest) : StepResult :=
  let core := core.followLeader (some sender)
  let reply := core.appendReply request true
  thenReply (·.appendReplyEffect sender reply)
    (core.advanceFollowerCommit (min request.leaderCommitIndex reply.matchedIndex))

/-- The ways a core that waits for nothing can end an input. -/
inductive Reacts (core : ConsensusCore) : CoreInput → StepResult → Prop
  | refuses {input : CoreInput} (err : CoreError) : Reacts core input (core, .error err)
  | ignores {input : CoreInput} : Reacts core input (core, .ok [])
  | begins {input : CoreInput} {mutation : DurableMutation} {action : AfterPersistence}
      (h : core.Begins input mutation action) :
      Reacts core input (core.beginPersistence mutation action)
  | probes {input : CoreInput} (hrole : core.roleKind = .leader)
      (probes : List (NodeId × ProbeKind × Option Nat)) : Reacts core input (core.probeAll probes)
  | notices {input : CoreInput} (peer : NodeId) (hint : Nat) :
      Reacts core input (core, .ok [.send peer (.appendResponse
        { core.membershipNotice with nextIndexHint := hint })])
  | replays {input : CoreInput} (peer : NodeId) (response : AppendResponse) :
      Reacts core input (core, core.replayMembershipPrefix peer response)
  /-- A vote that is refused, or granted once more. -/
  | votes {sender : NodeId} {incarnation : Nat} {request : VoteRequest} (granted : Bool)
      (hgranted : granted = true →
        core.validatePlan request.membershipEpoch request.planDigest = true ∧
        core.lastPosition ≤ request.lastLog ∧ request.term = core.currentTerm ∧
        core.votedFor = some sender) :
      Reacts core (.message sender incarnation (.voteRequest request))
        (core, .ok [core.voteEffect sender granted])
  | counts {sender : NodeId} {incarnation : Nat} {response : VoteResponse} {votes : OrdSet NodeId}
      (hterm : response.term = core.currentTerm) (hrole : core.role = .candidate votes) :
      Reacts core (.message sender incarnation (.voteResponse response))
        (core.counted votes sender response.granted, .ok [])
  | wins {sender : NodeId} {incarnation : Nat} {response : VoteResponse} {votes : OrdSet NodeId}
      (hterm : response.term = core.currentTerm) (hrole : core.role = .candidate votes)
      (hquorum : core.activePlan.satisfies .election (countVote votes sender response.granted) = true) :
      Reacts core (.message sender incarnation (.voteResponse response))
        (core.counted votes sender response.granted).becomeLeader
  /-- An append of an older term. -/
  | declines {sender : NodeId} {incarnation : Nat} {request : AppendRequest} :
      Reacts core (.message sender incarnation (.appendRequest request))
        (core, .ok [core.appendReplyEffect sender (core.appendReply request false)])
  /-- An append of this term that does not attach to the log. -/
  | follows {sender : NodeId} {incarnation : Nat} {request : AppendRequest} :
      Reacts core (.message sender incarnation (.appendRequest request))
        (core.followLeader (some sender),
          .ok [core.appendReplyEffect sender (core.appendReply request false)])
  | holds {sender : NodeId} {incarnation : Nat} {request : AppendRequest}
      (hvalid : validateAppendEntries request = .ok ())
      (hplan : core.validatePlan request.membershipEpoch request.planDigest = true)
      (hterm : core.currentTerm = request.term)
      (hmatch : core.positionMatches request.previous request.previousDigest = true)
      (hdelta : core.logDelta request.entries = .ok (none, [])) :
      Reacts core (.message sender incarnation (.appendRequest request))
        (core.heldAppend sender request)
  | answers {sender : NodeId} {incarnation : Nat} {response : AppendResponse} {state : LeaderState}
      {before after : AppendProbes} {proof : ProbeResult}
      (hwell : malformedResponse response = false) (hterm : response.term = core.currentTerm)
      (hrole : core.role = .leader state) (hfound : state.probes.get? sender = some before)
      (hreceive : before.receive response = (after, .ok (some proof))) :
      Reacts core (.message sender incarnation (.appendResponse response))
        (core.proofTaken state sender response after proof)
  | finishes {sender : NodeId} {incarnation : Nat} {range : CommittedPrefix}
      (hvalid : validateCommittedPrefix range = .ok ())
      (hplan : core.validatePlan range.membershipEpoch range.planDigest = true)
      (hmatch : core.positionMatches range.previous range.previousDigest = true)
      (hdelta : core.logDelta range.entries = .ok (none, [])) :
      Reacts core (.message sender incarnation (.committedPrefix range))
        (core.finishCommittedPrefix sender range.committedIndex)
  | reads (id : Nat) : Reacts core (.beginReadBarrier id) (core.beginReadBarrier id)
  | cancels (id : Nat) : Reacts core (.cancelReadBarrier id) (core.cancelReadBarrier id)
  | applies (index : Nat) : Reacts core (.appliedThrough index) (core.appliedThrough index)

/-! ## Handlers -/

theorem startElection_reacts (core : ConsensusCore) :
    core.Reacts .electionTimeout core.startElection := by
  unfold startElection
  split
  · exact .refuses _
  rename_i hrole
  split
  · exact .refuses _
  rename_i heligible
  split
  · exact .refuses _
  rename_i term hterm
  refine .begins (.campaign ?_ (by simpa using heligible) hterm)
  intro hleader
  unfold roleKind at hleader
  split at hleader
  · cases hleader
  · cases hleader
  · rename_i state hstate
    exact hrole state hstate

theorem propose_reacts {input : CoreInput} {proposalId : Nat} {operationId : OperationId}
    {version : Nat} {command : List Nat}
    (hinput : proposalOf input = some (proposalId, operationId, version, command)) :
    core.Reacts input (core.propose proposalId operationId version command) := by
  unfold propose
  split
  · exact .refuses _
  rename_i hrole
  split
  · exact .refuses _
  split
  · exact .refuses _
  rename_i index hindex
  simp only
  split
  · exact .refuses _
  · rename_i e hnew
    exact .begins (.proposal hinput (by simpa using hrole) hindex hnew)

theorem activateJointPlan_reacts (core : ConsensusCore) (joint : JointQuorumPlan)
    (incarnations : MemberIncarnations) (position : LogPosition) :
    core.Reacts (.activateJointPlan joint incarnations position)
      (core.activateJointPlan joint incarnations position) := by
  unfold activateJointPlan
  split
  · rename_i current hactive
    split
    · exact .refuses _
    rename_i hchecks
    simp only [not_or, not_not, Bool.not_eq_false] at hchecks
    obtain ⟨hdigest, hepoch, -, hincarnations, hpreserves⟩ := hchecks
    split
    · exact .refuses _
    · rename_i hposition
      exact .begins (.activateJoint hactive hdigest hepoch hincarnations hpreserves
        (by simpa using hposition))
  · exact .refuses _

theorem activateStablePlan_reacts (core : ConsensusCore) (plan : CompiledQuorumPlan)
    (incarnations : MemberIncarnations) (position : LogPosition) :
    core.Reacts (.activateStablePlan plan incarnations position)
      (core.activateStablePlan plan incarnations position) := by
  unfold activateStablePlan
  split
  · rename_i joint hactive
    simp only
    split
    · exact .refuses _
    rename_i hchecks
    simp only [not_or, not_not, Bool.not_eq_false] at hchecks
    obtain ⟨hdigest, hepoch, hincarnations, hpreserves⟩ := hchecks
    split
    · exact .refuses _
    · rename_i hposition
      exact .begins (.activateStable hactive hdigest hepoch hincarnations hpreserves
        (by simpa using hposition))
  · exact .refuses _

section

variable (core : ConsensusCore) (sender : NodeId) (incarnation : Nat)

theorem voteRequest_reacts (request : VoteRequest) :
    core.Reacts (.message sender incarnation (.voteRequest request))
      (core.voteRequest sender request) := by
  unfold voteRequest
  split
  · split
    · split <;> exact .refuses _
    split
    · exact .refuses _
    split
    · exact .notices _ _
    · split
      · exact .refuses _
      · exact .replays _ _
  · rename_i hplan
    split
    · split <;> exact .refuses _
    split
    · exact .refuses _
    rename_i hchecks
    simp only [not_or, not_not] at hchecks
    obtain ⟨hcandidate, -, hpos, -, -⟩ := hchecks
    split
    · exact .votes false nofun
    rename_i hterm
    simp only [not_or, not_lt, Bool.not_eq_false] at hterm
    simp only
    split
    · rename_i hnew
      exact .begins (.voteReply (by simpa using hplan) hcandidate hpos hterm.1 hterm.2 rfl hnew)
    · rename_i hold
      rw [not_or] at hold
      refine .votes _ fun hgranted => ?_
      have hvoted : core.votedFor = some sender := by
        rw [hgranted] at hold
        simpa using hold.2
      rw [Bool.and_eq_true, decide_eq_true_eq] at hgranted
      exact ⟨by simpa using hplan, hgranted.1, by omega, hvoted⟩

theorem voteResponse_reacts (response : VoteResponse) :
    core.Reacts (.message sender incarnation (.voteResponse response))
      (core.voteResponse sender response) := by
  unfold voteResponse
  split
  · exact .refuses _
  split
  · exact .refuses _
  split
  · rename_i hterm
    exact .begins (.voteStepDown hterm)
  · split
    · exact .ignores
    split
    · rename_i votes hrole
      simp only
      split
      · rename_i hquorum
        exact .wins (by omega) hrole hquorum
      · exact .counts (by omega) hrole
    · exact .ignores

theorem appendRequest_reacts (request : AppendRequest) :
    core.Reacts (.message sender incarnation (.appendRequest request))
      (core.appendRequest sender request) := by
  unfold appendRequest
  split
  · exact .refuses _
  rename_i hvalid
  split
  · exact .refuses _
  rename_i hleader
  rw [not_not] at hleader
  split
  · exact .refuses _
  split
  · exact .refuses _
  split
  · exact .notices _ _
  rename_i hplan
  rw [Bool.not_eq_false] at hplan
  split
  · exact .declines
  rename_i hterm
  split
  · split
    · rename_i hnew
      exact .begins (.appendRefused hvalid hleader hplan hnew)
    · exact .follows
  · rename_i hmatch
    rw [Bool.not_eq_false] at hmatch
    split
    · exact .refuses _
    rename_i truncateFrom append hdelta
    split
    · rename_i hnew
      exact .begins
        (.appendAccepted hvalid hleader hplan (by omega) hmatch hdelta hnew)
    · rename_i hold
      simp only [not_or, Bool.not_eq_true, Option.isSome_eq_false_iff, not_not,
        Option.isNone_iff_eq_none] at hold
      obtain ⟨hsame, rfl, rfl⟩ := hold
      exact .holds hvalid hplan (by omega) hmatch hdelta

theorem appendResponse_reacts (response : AppendResponse) :
    core.Reacts (.message sender incarnation (.appendResponse response))
      (core.appendResponse sender response) := by
  unfold appendResponse
  split
  · exact .replays _ _
  split
  · exact .refuses _
  rename_i hwell
  split
  · rename_i hterm
    exact .begins (.appendStepDown hterm)
  · split
    · exact .ignores
    split
    · rename_i state hrole
      split
      · exact .ignores
      rename_i before hfound
      split
      · exact .refuses _
      · split
        · exact .probes (by simp [roleKind, hrole]) _
        · exact .ignores
      · rename_i after proof hreceive
        exact .answers (by simpa using hwell) (by omega) hrole hfound hreceive
    · exact .ignores

theorem receiveCommittedPrefix_reacts (range : CommittedPrefix) :
    core.Reacts (.message sender incarnation (.committedPrefix range))
      (core.receiveCommittedPrefix sender range) := by
  unfold receiveCommittedPrefix
  split
  · exact .refuses _
  rename_i hvalid
  split
  · exact .refuses _
  rename_i hsender
  rw [not_not] at hsender
  split
  · exact .notices _ _
  rename_i hphase
  simp only [not_or, Bool.not_eq_false, not_le] at hphase
  split
  · exact .notices _ _
  rename_i hmatch
  rw [Bool.not_eq_false] at hmatch
  split
  · exact .refuses _
  rename_i truncateFrom append hdelta
  simp only
  split
  · rename_i hnew
    exact .begins (.committedPrefix hvalid hsender hphase.1 hphase.2 hmatch hdelta hnew)
  · rename_i hold
    simp only [not_or, Bool.not_eq_true, Option.isSome_eq_false_iff, not_not,
      Option.isNone_iff_eq_none] at hold
    obtain ⟨rfl, rfl, -⟩ := hold
    exact .finishes hvalid hphase.1 hmatch hdelta

end

/-- Every step of a core that waits for nothing is one of its reactions. -/
theorem step_reacts (hpending : core.pending = none) (input : CoreInput) :
    core.Reacts input (core.step input) := by
  unfold step
  rw [hpending]
  cases input with
  | electionTimeout => exact startElection_reacts core
  | heartbeat =>
    show core.Reacts .heartbeat core.heartbeat
    unfold heartbeat
    split
    · exact .refuses _
    · rename_i hrole
      exact .probes (by simpa using hrole) _
  | message sender incarnation message =>
    show core.Reacts _ (core.receive sender incarnation message)
    unfold receive
    split
    · exact .refuses _
    cases message with
    | voteRequest request => exact voteRequest_reacts _ _ _ _
    | voteResponse response => exact voteResponse_reacts _ _ _ _
    | appendRequest request => exact appendRequest_reacts _ _ _ _
    | appendResponse response => exact appendResponse_reacts _ _ _ _
    | committedPrefix range => exact receiveCommittedPrefix_reacts _ _ _ _
  | propose proposalId operationId version command => exact propose_reacts rfl
  | beginReadBarrier id => exact .reads id
  | cancelReadBarrier id => exact .cancels id
  | confirmTerm proposalId operationId => exact propose_reacts rfl
  | activateJointPlan joint incarnations position => exact activateJointPlan_reacts _ _ _ _
  | activateStablePlan plan incarnations position => exact activateStablePlan_reacts _ _ _ _
  | appliedThrough index => exact .applies index
  | persisted id =>
    show core.Reacts _ (core.finishPersistence id)
    unfold finishPersistence
    rw [hpending]
    exact .refuses _

/-- A core that waits takes an acknowledgement and refuses every other input. -/
theorem step_waiting {pending : PendingPersistence} (hpending : core.pending = some pending)
    (input : CoreInput) : (∃ id, input = .persisted id ∧ core.step input = core.finishPersistence id) ∨
      core.step input = (core, .error .persistencePending) := by
  unfold step
  rw [hpending]
  cases input with
  | persisted id => exact .inl ⟨id, rfl, rfl⟩
  | _ => exact .inr rfl

end ConsensusCore

end MeshSpan
