import MeshSpan.Quorum.Command

/- The deterministic consensus core (crates/meshspan-consensus/src/core/state.rs,
   state/membership_replay.rs, append_probes.rs and membership_history.rs).

   A method that takes `&mut self` and returns a `Result` is a function to the
   core it leaves behind and the result: a rejected input keeps whatever the
   method had already changed, and drops the effects it had collected.

   Correspondence (Rust ↔ Lean)
     ConsensusCore::restore / restore_active   ↔  `ConsensusCore.restore` / `.restoreActive`
     ConsensusCore::step                       ↔  `ConsensusCore.step`
     AppendProbes::{replication_id,sent,receive} ↔ `AppendProbes.{replicationId,sent,receive}`
     MembershipHistory::{record,find,restore}  ↔  `MembershipHistory.{record,find,restore}`
     BTreeMap, BTreeSet                        ↔  `OrdMap`, `OrdSet`

   `log` indices: entry `i` is `log[i - 1]`, and its stored index must agree. -/

namespace MeshSpan

open Ordered

def maximumPendingReadBarriers : Nat := 1024

def maximumProbesPerLane : Nat := 64

/-! ## Append probes -/

inductive ProbeKind where
  | replication
  | contact
deriving DecidableEq

/-- What one outstanding append claims to prove. -/
structure AppendProbe where
  previous : LogPosition
  previousDigest : Digest
  through : LogPosition
  digest : Digest
  readBarrierId : Option Nat
deriving DecidableEq

def AppendProbe.fromRequest (request : AppendRequest) : AppendProbe :=
  match request.entries.getLast? with
  | some e => { previous := request.previous, previousDigest := request.previousDigest
                through := e.position, digest := e.entryDigest
                readBarrierId := request.readBarrierId }
  | none => { previous := request.previous, previousDigest := request.previousDigest
              through := request.previous, digest := request.previousDigest
              readBarrierId := request.readBarrierId }

inductive ProbeResult where
  | matched (index : Nat)
  | conflict (previousIndex : Nat) (latest : Bool)
  | contact
deriving DecidableEq

structure AppendProbes where
  replication : OrdMap Nat AppendProbe := .empty
  contacts : OrdMap Nat AppendProbe := .empty
  latestReplication : Option Nat := none
deriving DecidableEq

namespace AppendProbes

variable (probes : AppendProbes) (request : AppendRequest)

/-- The smallest outstanding replication probe that claims the same proof. -/
def replicationId : Option Nat :=
  (probes.replication.entries.find? (fun e => e.2 = AppendProbe.fromRequest request)).map
    Prod.fst

/-- Adds a probe to a lane, forgetting the oldest one past the lane bound. -/
def outstanding (lane : OrdMap Nat AppendProbe) (request : AppendRequest) : OrdMap Nat AppendProbe :=
  let lane := lane.insert request.probeId (AppendProbe.fromRequest request)
  if lane.size > maximumProbesPerLane then lane.popFirst else lane

def sent : ProbeKind → AppendProbes
  | .replication =>
    { probes with
      latestReplication := some request.probeId
      replication := outstanding probes.replication request }
  | .contact => { probes with contacts := outstanding probes.contacts request }

/-- Matches a response with an outstanding probe and consumes it. -/
def receive (response : AppendResponse) : AppendProbes × Except CoreError (Option ProbeResult) :=
  match response.probeId with
  | none => (probes, .ok none)
  | some id =>
    let found : Option (ProbeKind × AppendProbe) :=
      match probes.replication.get? id with
      | some probe => some (.replication, probe)
      | none => (probes.contacts.get? id).map fun probe => (.contact, probe)
    match found with
    | none => (probes, .ok none)
    | some (kind, probe) =>
      if response.readBarrierId ≠ probe.readBarrierId then (probes, .error .invalidInput)
      else if response.accepted = true ∧
          (response.matchedIndex ≠ probe.through.index ∨ response.matchedDigest ≠ probe.digest) then
        (probes, .error .invalidInput)
      else if response.accepted = false ∧
          (response.matchedIndex ≠ 0 ∨ response.matchedDigest ≠ zeroDigest) then
        (probes, .error .invalidInput)
      else
        match kind with
        | .contact => ({ probes with contacts := probes.contacts.erase id }, .ok (some .contact))
        | .replication =>
          ({ probes with replication := probes.replication.erase id },
            .ok (some (if response.accepted then .matched probe.through.index
              else .conflict probe.previous.index ((probes.latestReplication = some id)))))

end AppendProbes

/-! ## Membership history -/

structure PhaseBoundary where
  plan : ActiveQuorumPlan
  committedPosition : LogPosition
deriving DecidableEq

/-- Phases this node has left, by epoch and digest, with the position that ended each. -/
structure MembershipHistory where
  boundaries : List ((Nat × Digest) × PhaseBoundary) := []
deriving DecidableEq

/-- The phase a membership command leaves and the one it enters. -/
def phaseChange (command : MembershipTransitionCommand) (previousSuccessor : Option ActiveQuorumPlan) :
    Except CoreError (ActiveQuorumPlan × ActiveQuorumPlan) :=
  match command with
  | .admitLearner joint _ _ | .promoteLearner joint _ | .removeMember joint _ _ =>
    let previous := ActiveQuorumPlan.stable joint.old
    match previousSuccessor with
    | none => .ok (previous, .joint joint)
    | some plan => if plan ≠ previous then .error .invalidConfiguration
      else .ok (previous, .joint joint)
  | .finaliseStable plan =>
    match previousSuccessor with
    | some (.joint joint) =>
      if joint.new ≠ plan then .error .invalidConfiguration
      else .ok (.joint joint, .stable plan)
    | _ => .error .invalidConfiguration

namespace MembershipHistory

def find (history : MembershipHistory) (epoch : Nat) (digest : Digest) : Option PhaseBoundary :=
  (history.boundaries.find? (fun b => b.1 = (epoch, digest))).map Prod.snd

/-- Records the phase being left, replacing an older boundary of the same phase. -/
def record (history : MembershipHistory) (plan : ActiveQuorumPlan) (position : LogPosition) :
    MembershipHistory :=
  let key := (plan.membershipEpoch, plan.proofDigest)
  ⟨(key, ⟨plan, position⟩) :: history.boundaries.filter fun b => decide (b.1 ≠ key)⟩

/-- Replays the applied membership entries of a log. -/
def restoreFrom (appliedIndex : Nat) : MembershipHistory → Option ActiveQuorumPlan → List LogEntry →
    Except CoreError (MembershipHistory × Option ActiveQuorumPlan)
  | history, previousSuccessor, [] => .ok (history, previousSuccessor)
  | history, previousSuccessor, e :: es =>
    if e.position.index ≤ appliedIndex then
      if e.commandVersion ≠ membershipCommandVersion then
        restoreFrom appliedIndex history previousSuccessor es
      else
        match MembershipTransitionCommand.decode e.command with
        | .error _ => .error .invalidConfiguration
        | .ok command =>
          match phaseChange command previousSuccessor with
          | .error err => .error err
          | .ok (previous, successor) =>
            restoreFrom appliedIndex (history.record previous e.position) (some successor) es
    else .ok (history, previousSuccessor)

def restore (log : List LogEntry) (appliedIndex : Nat) (active : ActiveQuorumPlan) :
    Except CoreError MembershipHistory :=
  match restoreFrom appliedIndex {} none log with
  | .error err => .error err
  | .ok (history, none) => .ok history
  | .ok (history, some plan) => if plan ≠ active then .error .invalidConfiguration else .ok history

end MembershipHistory

/-! ## The core -/

structure ReadBarrierState where
  acknowledgements : OrdSet NodeId
  requiredAppliedIndex : Option Nat
  quorumConfirmed : Bool
deriving DecidableEq

structure LeaderState where
  probes : OrdMap NodeId AppendProbes
  (matched next : OrdMap NodeId Nat)
  readBarriers : OrdMap Nat ReadBarrierState
deriving DecidableEq

inductive RoleState where
  | follower
  | candidate (votes : OrdSet NodeId)
  | leader (state : LeaderState)
deriving DecidableEq

/-- What to do once a mutation is durable. -/
inductive AfterPersistence where
  | campaign
  | voteReply (recipient : NodeId) (granted : Bool)
  | appendReply (recipient leader : NodeId) (leaderCommitIndex : Nat) (reply : AppendResponse)
  | proposal (proposalId : Nat) (position : LogPosition)
  | stepDown
  | committedPrefix (sender : NodeId) (committedIndex : Nat)
  | activateJoint (joint : JointQuorumPlan) (incarnations : MemberIncarnations)
  | activateStable (plan : CompiledQuorumPlan) (incarnations : MemberIncarnations)
deriving DecidableEq

structure PendingPersistence where
  id : Nat
  mutation : DurableMutation
  action : AfterPersistence
deriving DecidableEq

structure ConsensusCore where
  config : CoreConfig
  activePlan : ActiveQuorumPlan
  membershipHistory : MembershipHistory
  currentTerm : Nat
  votedFor : Option NodeId
  log : List LogEntry
  (commitIndex appliedIndex : Nat)
  leaderId : Option NodeId
  role : RoleState
  pending : Option PendingPersistence
  (nextPersistenceId nextAppendProbeId : Nat)
  replicationDefault : ReplicationBatchBudget
  replicationPeers : OrdMap NodeId ReplicationBatchBudget
deriving DecidableEq

/-- The core a step leaves behind, and what it returned. -/
abbrev StepResult := ConsensusCore × Except CoreError (List CoreEffect)

/-- Walks a durable log, which must be valid, contiguous from `expected`, and of terms that
neither fall below the previous one nor exceed the current one. -/
def validateDurableLog (currentTerm : Nat) : Nat → Nat → List LogEntry → Except CoreError Unit
  | _, _, [] => .ok ()
  | expected, previousTerm, e :: es =>
    match e.validate with
    | .error err => .error err
    | .ok () =>
      if e.position.index ≠ expected ∨ e.position.term > currentTerm ∨
          (expected > 1 ∧ e.position.term < previousTerm) then .error .invalidInput
      else
        match checkedAdd expected 1 with
        | none => .error .exhausted
        | some next => validateDurableLog currentTerm next e.position.term es

def lastIndexOf (log : List LogEntry) : Nat := (log.getLast?.map (·.position.index)).getD 0

def validateDurableState (durable : DurableCoreState) : Except CoreError Unit :=
  match validateDurableLog durable.currentTerm 1 0 durable.log with
  | .error err => .error err
  | .ok () => if durable.appliedIndex > lastIndexOf durable.log then .error .invalidInput else .ok ()

namespace ConsensusCore

variable (config : CoreConfig)

/-- Restores a follower from independently verified durable vote, log and apply state. -/
def restore (durable : DurableCoreState) : Except CoreError ConsensusCore :=
  let voters := config.plan.spec.voters
  let localIsMember := config.localNodeId ∈ voters ∨ config.localNodeId ∈ config.plan.spec.learners
  if config.localIncarnation = 0 ∨ ¬ localIsMember ∨
      config.memberIncarnations.incarnation config.localNodeId ≠ some config.localIncarnation ∨
      (durable.currentTerm = 0 ∧ durable.votedFor.isSome) ∨
      (durable.votedFor.any fun voter => decide (voter ∉ voters)) then
    .error .invalidConfiguration
  else
    match validateDurableState durable with
    | .error err => .error err
    | .ok () => .ok
        { config, activePlan := .stable config.plan, membershipHistory := {}
          currentTerm := durable.currentTerm, votedFor := durable.votedFor, log := durable.log
          commitIndex := durable.appliedIndex, appliedIndex := durable.appliedIndex
          leaderId := none, role := .follower, pending := none
          nextPersistenceId := 1, nextAppendProbeId := 1
          replicationDefault := .default, replicationPeers := .empty }

def restoreActive (durable : DurableCoreState)
    (activePlan : ActiveQuorumPlan) : Except CoreError ConsensusCore :=
  if config.memberIncarnations.matchesMembers activePlan.members = false then
    .error .invalidConfiguration
  else
    match restore config durable with
    | .error err => .error err
    | .ok core =>
      match MembershipHistory.restore core.log core.appliedIndex activePlan with
      | .error err => .error err
      | .ok history => .ok { core with membershipHistory := history, activePlan }

variable (core : ConsensusCore)

def setReplicationBudgets (default : ReplicationBatchBudget)
    (peers : OrdMap NodeId ReplicationBatchBudget) : ConsensusCore × Except CoreError Unit :=
  if peers.keys.elems.any (fun peer => peer ∉ core.activePlan.members) then
    (core, .error .invalidConfiguration)
  else ({ core with replicationDefault := default, replicationPeers := peers }, .ok ())

def clearReplicationBudgetOverrides : ConsensusCore :=
  { core with replicationPeers := .empty }

/-! ### Reading the core -/

def roleKind : Role :=
  match core.role with
  | .follower => .follower
  | .candidate _ => .candidate
  | .leader _ => .leader

def activeEpoch : Nat := core.activePlan.membershipEpoch

def activeDigest : Digest := core.activePlan.proofDigest

def members (core : ConsensusCore) : OrdSet NodeId := core.activePlan.members

def peers : OrdSet NodeId :=
  core.members.filter fun node => decide (node ≠ core.config.localNodeId)

def isLocalVoter : Bool :=
  (core.config.localNodeId ∈ core.activePlan.voters)

def localIsEligibleLeader : Bool :=
  (core.config.localNodeId ∈ core.activePlan.eligibleLeaders)

def lastPosition : LogPosition :=
  (core.log.getLast?.map (·.position)).getD .genesis

variable (index : Nat)

def entry : Option LogEntry :=
  if index = 0 then none
  else (core.log[index - 1]?).filter fun e => decide (e.position.index = index)

def peerMatchedIndex (node : NodeId) : Option Nat :=
  match core.role with
  | .leader state => state.matched.get? node
  | _ => none

def ofCurrentTerm : Bool :=
  (core.entry index).any fun e => decide (e.position.term = core.currentTerm)

def validateSender (node : NodeId) (incarnation : Nat) : Bool :=
  (core.config.memberIncarnations.incarnation node = some incarnation)

def validatePlan (epoch : Nat) (digest : Digest) : Bool :=
  (epoch = core.activeEpoch ∧ digest = core.activeDigest)

variable (position : LogPosition)

def positionMatches (digest : Digest) : Bool :=
  if position = .genesis then (digest = zeroDigest)
  else (core.entry position.index).any
    (fun e => e.position.term = position.term ∧ e.entryDigest = digest)

/-- First divergence of incoming entries from the log: where to truncate and what to append. -/
def logDelta (core : ConsensusCore) : List LogEntry → Except CoreError (Option Nat × List LogEntry)
  | [] => .ok (none, [])
  | e :: es =>
    match core.entry e.position.index with
    | some existing =>
      if existing.position.term = e.position.term ∧ existing.entryDigest = e.entryDigest then
        core.logDelta es
      else if e.position.index ≤ core.commitIndex then .error .invalidInput
      else .ok (some e.position.index, e :: es)
    | none => .ok (none, e :: es)

/-- The longest initial part of a batch within the byte limits, in `usize` arithmetic. -/
def takeWithinBudget (overhead : Nat) : Nat → Nat → List LogEntry → List LogEntry
  | _, _, [] => []
  | commandBytes, framedBytes, e :: es =>
    match checkedAdd e.command.length overhead with
    | none => []
    | some framed =>
      if e.command.length ≤ commandBytes ∧ framed ≤ framedBytes then
        e :: takeWithinBudget overhead (commandBytes - e.command.length) (framedBytes - framed) es
      else []

variable (peer : NodeId)

def replicationEntries (start stop : Nat) : List LogEntry :=
  let budget := (core.replicationPeers.get? peer).getD core.replicationDefault
  let range := core.log.filter
    (fun e => e.position.index ≥ start ∧ e.position.index ≤ stop)
  takeWithinBudget budget.entryOverhead maximumAppendCommandBytes budget.maxBytes
    (range.take maximumAppendEntries)

/-! ### Messages the core builds -/

variable (recipient : NodeId)

def voteEffect (granted : Bool) : CoreEffect :=
  .send recipient (.voteResponse
    { term := core.currentTerm, granted, membershipEpoch := core.activeEpoch
      planDigest := core.activeDigest })

def appendReply (request : AppendRequest) (accepted : Bool) : AppendResponse :=
  let provenIndex := (request.entries.getLast?.map (·.position.index)).getD request.previous.index
  { probeId := some request.probeId
    matchedDigest :=
      if accepted then (request.entries.getLast?.map (·.entryDigest)).getD request.previousDigest
      else zeroDigest
    term := core.currentTerm
    accepted
    matchedIndex := if accepted then provenIndex else 0
    nextIndexHint :=
      if accepted then max (saturatingAdd provenIndex 1) 1
      else max (min request.previous.index (saturatingAdd core.lastPosition.index 1)) 1
    readBarrierId := request.readBarrierId
    membershipEpoch := core.activeEpoch
    planDigest := core.activeDigest }

/-- A higher term is only visible after its durable mutation has been confirmed. -/
def appendReplyEffect (reply : AppendResponse) : CoreEffect :=
  .send recipient (.appendResponse { reply with term := core.currentTerm })

/-- The reply that only names this node's phase and the next index it lacks. -/
def membershipNotice : AppendResponse :=
  { probeId := none, matchedDigest := zeroDigest, term := core.currentTerm, accepted := false
    matchedIndex := 0, nextIndexHint := max (saturatingAdd core.lastPosition.index 1) 1
    readBarrierId := none, membershipEpoch := core.activeEpoch, planDigest := core.activeDigest }

def membershipNoticeEffect : CoreEffect :=
  .send recipient (.appendResponse core.membershipNotice)

/-! ### Local state changes -/

def followLeader (leader : Option NodeId) : ConsensusCore :=
  { core with role := .follower, leaderId := leader }

variable (mutation : DurableMutation)

def beginPersistence (action : AfterPersistence) : StepResult :=
  match checkedAdd core.nextPersistenceId 1 with
  | none => (core, .error .exhausted)
  | some next =>
    ({ core with
        nextPersistenceId := next
        pending := some { id := core.nextPersistenceId, mutation, action } },
      .ok [.persist core.nextPersistenceId mutation])

def persistStepDown (term : Nat) : StepResult :=
  core.beginPersistence { voteState := some (term, none) } .stepDown

/-- Entries that moved below the commit index, as the one effect that reports them. -/
def commitEffects (oldCommit : Nat) : Except CoreError (List CoreEffect) :=
  if core.commitIndex ≤ oldCommit then .ok []
  else
    match (List.range' (oldCommit + 1) (core.commitIndex - oldCommit)).mapM core.entry with
    | none => .error .invalidInput
    | some entries => .ok [.commitReady entries]

/-- Highest index of the list, tried in order, that the matched indices commit in this term. -/
def quorumIndex (core : ConsensusCore) (matched : OrdMap NodeId Nat) :
    List Nat → Except CoreError (Option Nat)
  | [] => .ok none
  | index :: rest =>
    match core.entry index with
    | none => .error .invalidInput
    | some e =>
      if e.position.term ≠ core.currentTerm then core.quorumIndex matched rest
      else if core.activePlan.satisfies .commit
          (matched.retain fun _ m => decide (m ≥ index)).keys then .ok (some index)
      else core.quorumIndex matched rest

def advanceLeaderCommit : StepResult :=
  match core.role with
  | .leader state =>
    let candidates :=
      (List.range' (core.commitIndex + 1) (core.lastPosition.index - core.commitIndex)).reverse
    match core.quorumIndex state.matched candidates with
    | .error err => (core, .error err)
    | .ok none => (core, core.commitEffects core.commitIndex)
    | .ok (some index) =>
      let advanced := { core with commitIndex := index }
      (advanced, advanced.commitEffects core.commitIndex)
  | _ => (core, .ok [])

def advanceFollowerCommit (leaderCommitIndex : Nat) : StepResult :=
  let advanced :=
    { core with commitIndex := max (min leaderCommitIndex core.lastPosition.index) core.commitIndex }
  (advanced, advanced.commitEffects core.commitIndex)

/-- Position and digest of the entry at an index, genesis below the first entry. -/
def positionAt : Option (LogPosition × Digest) :=
  if index = 0 then some (.genesis, zeroDigest)
  else (core.entry index).map fun e => (e.position, e.entryDigest)

variable (state : LeaderState)

/-- Where an append towards a peer attaches: below its next index, or at its matched one. -/
def previousIndex (peer : NodeId) : ProbeKind → Nat
  | .replication => max ((state.next.get? peer).getD 1) 1 - 1
  | .contact => (state.matched.get? peer).getD 0

/-- The append towards a peer under the next unused probe id. -/
def probeRequest (peer : NodeId) (kind : ProbeKind)
    (readBarrierId : Option Nat) : Except CoreError AppendRequest :=
  match core.positionAt (previousIndex state peer kind) with
  | none => .error .invalidInput
  | some (previous, previousDigest) =>
    let entries : Option (List LogEntry) := match kind with
      | .replication => (checkedAdd (previousIndex state peer kind) 1).map
          (core.replicationEntries peer · u64Max)
      | .contact => some []
    match entries with
    | none => .error .exhausted
    | some entries => .ok
        { probeId := core.nextAppendProbeId, term := core.currentTerm
          leader := core.config.localNodeId, leaderIncarnation := core.config.localIncarnation
          previous, previousDigest, entries, leaderCommitIndex := core.commitIndex, readBarrierId
          membershipEpoch := core.activeEpoch, planDigest := core.activeDigest }

/-- The probe id an append goes out under, and the counter afterwards: a replication append that
claims what an outstanding one claims reuses its id. -/
def probeNumber (peer : NodeId) (kind : ProbeKind)
    (request : AppendRequest) : Except CoreError (Nat × Nat) :=
  let existing := match kind with
    | .replication => (state.probes.get? peer).bind (·.replicationId request)
    | .contact => none
  match existing with
  | some id => .ok (id, core.nextAppendProbeId)
  | none =>
    match checkedAdd core.nextAppendProbeId 1 with
    | none => .error .exhausted
    | some counter => .ok (core.nextAppendProbeId, counter)

def recordProbe (peer : NodeId) (kind : ProbeKind)
    (counter : Nat) (request : AppendRequest) : ConsensusCore :=
  let probes := ((state.probes.get? peer).getD {}).sent request kind
  { core with
    nextAppendProbeId := counter
    role := .leader { state with probes := state.probes.insert peer probes } }

def probeEffect (kind : ProbeKind)
    (readBarrierId : Option Nat) : ConsensusCore × Except CoreError CoreEffect :=
  match core.role with
  | .leader state =>
    match core.probeRequest state peer kind readBarrierId with
    | .error err => (core, .error err)
    | .ok unnumbered =>
      match core.probeNumber state peer kind unnumbered with
      | .error err => (core, .error err)
      | .ok (id, counter) =>
        let request := { unnumbered with probeId := id }
        (core.recordProbe state peer kind counter request, .ok (.send peer (.appendRequest request)))
  | _ => (core, .error .notLeader)

/-- Probes the listed peers in order, stopping at the first failure. -/
def probeAll (core : ConsensusCore) : List (NodeId × ProbeKind × Option Nat) → StepResult
  | [] => (core, .ok [])
  | (peer, kind, barrier) :: rest =>
    match core.probeEffect peer kind barrier with
    | (core, .error err) => (core, .error err)
    | (core, .ok effect) =>
      match core.probeAll rest with
      | (core, .error err) => (core, .error err)
      | (core, .ok effects) => (core, .ok (effect :: effects))

def replicateAll : StepResult :=
  core.probeAll (core.peers.elems.map fun peer => (peer, ProbeKind.replication, none))

/-- Appends one last effect, built from the core a successful result leaves. -/
def thenReply (reply : ConsensusCore → CoreEffect) : StepResult → StepResult
  | (core, .error err) => (core, .error err)
  | (core, .ok effects) => (core, .ok (effects ++ [reply core]))

def withEffects (effects : List CoreEffect) : StepResult → StepResult
  | (core, .error err) => (core, .error err)
  | (core, .ok more) => (core, .ok (effects ++ more))

/-! ### Read barriers -/

variable (barrier : ReadBarrierState)

/-- Fixes the frontier of a barrier once this term has committed an entry. -/
def ReadBarrierState.fix (commitIndex : Nat) : ReadBarrierState :=
  { barrier with requiredAppliedIndex := some (barrier.requiredAppliedIndex.getD commitIndex) }

def ReadBarrierState.complete (appliedIndex : Nat) : Bool :=
  barrier.quorumConfirmed && barrier.requiredAppliedIndex.any fun r => decide (r ≤ appliedIndex)

/-- Election proves possession of committed history, not knowledge of its frontier: until this
term commits an entry, even a fresh read quorum cannot identify it. -/
def completeReadBarriers : ConsensusCore × List CoreEffect :=
  if core.ofCurrentTerm core.commitIndex then
    match core.role with
    | .leader state =>
      let fixed := state.readBarriers.mapValues fun _ b => ReadBarrierState.fix b core.commitIndex
      let completed := fixed.retain fun _ b => ReadBarrierState.complete b core.appliedIndex
      let remaining := fixed.retain fun _ b => !ReadBarrierState.complete b core.appliedIndex
      ({ core with role := .leader { state with readBarriers := remaining } },
        completed.entries.map fun e => .readBarrierReady e.1 (e.2.requiredAppliedIndex.getD 0))
    | _ => (core, [])
  else (core, [])

variable (sender : NodeId)

def acknowledgeReadBarrier (readBarrierId : Option Nat) : StepResult :=
  match readBarrierId with
  | none => (core, .ok [])
  | some id =>
    if id = 0 then (core, .error .invalidInput)
    else
      match core.role with
      | .leader state =>
        match state.readBarriers.get? id with
        | none => (core, .ok [])
        | some barrier =>
          let acknowledgements := barrier.acknowledgements.insert sender
          let confirmed := core.activePlan.satisfies .read acknowledgements
          let barriers := state.readBarriers.insert id
            { barrier with acknowledgements, quorumConfirmed := confirmed }
          let (core, effects) :=
            completeReadBarriers { core with role := .leader { state with readBarriers := barriers } }
          (core, .ok effects)
      | _ => (core, .ok [])

variable (id : Nat)

def beginReadBarrier : StepResult :=
  if id = 0 then (core, .error .invalidInput)
  else
    let required := if core.ofCurrentTerm core.commitIndex then some core.commitIndex else none
    let self := OrdSet.singleton core.config.localNodeId
    let confirmed := core.activePlan.satisfies .read self
    match core.role with
    | .leader state =>
      if state.readBarriers.size ≥ maximumPendingReadBarriers ∨ state.readBarriers.contains id then
        (core, .error .invalidInput)
      else
        let barriers := state.readBarriers.insert id
          { acknowledgements := self, requiredAppliedIndex := required, quorumConfirmed := confirmed }
        let opened := { core with role := .leader { state with readBarriers := barriers } }
        if confirmed then
          let (core, effects) := completeReadBarriers opened
          (core, .ok effects)
        else opened.probeAll (opened.peers.elems.map fun peer => (peer, ProbeKind.contact, some id))
    | _ => (core, .error .notLeader)

def cancelReadBarrier : StepResult :=
  if id = 0 then (core, .error .invalidInput)
  else
    match core.role with
    | .leader state =>
      ({ core with role := .leader { state with readBarriers := state.readBarriers.erase id } }, .ok [])
    | _ => (core, .ok [])

def appliedThrough : StepResult :=
  if index < core.appliedIndex ∨ index > core.commitIndex then (core, .error .invalidInput)
  else
    let (core, effects) := completeReadBarriers { core with appliedIndex := index }
    (core, .ok effects)

/-! ### Elections -/

def startElection : StepResult :=
  match core.role with
  | .leader _ => (core, .error .invalidInput)
  | _ =>
    if core.localIsEligibleLeader = false then (core, .error .notLeader)
    else
      match checkedAdd core.currentTerm 1 with
      | none => (core, .error .exhausted)
      | some term =>
        core.beginPersistence { voteState := some (term, some core.config.localNodeId) } .campaign

def becomeLeader : StepResult :=
  let last := core.lastPosition.index
  match checkedAdd last 1 with
  | none => (core, .error .exhausted)
  | some nextIndex =>
    let self := core.config.localNodeId
    let matched := core.members.elems.foldl (fun m member => m.orInsert member 0)
      (OrdMap.empty.insert self last)
    let next := core.members.elems.foldl (fun m member => m.insert member nextIndex) OrdMap.empty
    let led := { core with
      role := .leader { probes := .empty, matched, next, readBarriers := .empty }
      leaderId := some self }
    withEffects [.roleChanged .leader core.currentTerm] led.replicateAll

def finishCampaign : StepResult :=
  let self := OrdSet.singleton core.config.localNodeId
  let core := { core with leaderId := none, role := .candidate self }
  let announced := CoreEffect.roleChanged .candidate core.currentTerm
  if core.activePlan.satisfies .election self then withEffects [announced] core.becomeLeader
  else
    let request : VoteRequest :=
      { term := core.currentTerm, candidate := core.config.localNodeId
        candidateIncarnation := core.config.localIncarnation, lastLog := core.lastPosition
        membershipEpoch := core.activeEpoch, planDigest := core.activeDigest }
    let others := core.activePlan.voters.filter (fun v => decide (v ≠ core.config.localNodeId))
    (core, .ok (announced :: others.elems.map (.send · (.voteRequest request))))

/-! ### Membership replay -/

variable (response : AppendResponse)

/-- Sends the committed range that ends the phase a lagging peer is still in. -/
def replayMembershipPrefix : Except CoreError (List CoreEffect) :=
  if response.term = 0 ∨ response.nextIndexHint = 0 then .error .staleMember
  else
    match core.membershipHistory.find response.membershipEpoch response.planDigest with
    | none => .error .staleMember
    | some boundary =>
      if core.config.localNodeId ∉ boundary.plan.voters ∨ peer ∉ boundary.plan.members ∨
          boundary.committedPosition.index > core.appliedIndex then .error .staleMember
      else
        let stop := boundary.committedPosition.index
        let next := min response.nextIndexHint (saturatingAdd stop 1)
        match core.positionAt (next - 1) with
        | none => .error .invalidInput
        | some (previous, previousDigest) =>
          let entries := core.replicationEntries peer next stop
          let sentThrough := (entries.getLast?.map (·.position.index)).getD previous.index
          .ok [.send peer (.committedPrefix
            { previous, previousDigest, entries, committedIndex := min sentThrough stop
              membershipEpoch := boundary.plan.membershipEpoch
              planDigest := boundary.plan.proofDigest })]

/-- Historical evidence does not elect its supplier or erase a newer durable vote. -/
def finishCommittedPrefix (committedIndex : Nat) : StepResult :=
  let core := core.followLeader none
  thenReply (·.membershipNoticeEffect sender)
    (core.advanceFollowerCommit (max committedIndex core.commitIndex))

def receiveCommittedPrefix (range : CommittedPrefix) : StepResult :=
  match validateCommittedPrefix range with
  | .error err => (core, .error err)
  | .ok () =>
    if sender ∉ core.activePlan.voters then (core, .error .staleMember)
    else if core.validatePlan range.membershipEpoch range.planDigest = false ∨
        range.committedIndex ≤ core.appliedIndex then
      (core, .ok [core.membershipNoticeEffect sender])
    else if core.positionMatches range.previous range.previousDigest = false then
      let notice := core.membershipNotice
      let hint := min notice.nextIndexHint (max range.previous.index 1)
      (core, .ok [.send sender (.appendResponse { notice with nextIndexHint := hint })])
    else
      match core.logDelta range.entries with
      | .error err => (core, .error err)
      | .ok (truncateFrom, append) =>
        let observedTerm :=
          (range.entries.getLast?.map (·.position.term)).getD range.previous.term
        if truncateFrom.isSome ∨ append ≠ [] ∨ observedTerm > core.currentTerm then
          core.beginPersistence
            { voteState := if observedTerm > core.currentTerm then some (observedTerm, none) else none
              truncateFrom, append }
            (.committedPrefix sender range.committedIndex)
        else core.finishCommittedPrefix sender range.committedIndex

/-! ### Messages -/

def voteRequest (request : VoteRequest) : StepResult :=
  if core.validatePlan request.membershipEpoch request.planDigest = false then
    match core.config.memberIncarnations.incarnation sender with
    | none =>
      if request.term = 0 ∨ request.candidate ≠ sender then (core, .error .invalidInput)
      else (core, .error .staleMember)
    | some incarnation =>
      if request.term = 0 ∨ request.candidate ≠ sender ∨
          request.candidateIncarnation ≠ incarnation ∨ request.lastLog.isValid = false then
        (core, .error .invalidInput)
      else
        match core.membershipHistory.find request.membershipEpoch request.planDigest with
        | none => (core, .ok [core.membershipNoticeEffect sender])
        | some _ =>
          match checkedAdd request.lastLog.index 1 with
          | none => (core, .error .exhausted)
          | some hint =>
            (core, core.replayMembershipPrefix sender
              { probeId := none, matchedDigest := zeroDigest, term := request.term
                accepted := false, matchedIndex := 0, nextIndexHint := hint, readBarrierId := none
                membershipEpoch := request.membershipEpoch, planDigest := request.planDigest })
  else
    match core.config.memberIncarnations.incarnation sender with
    | none =>
      if request.candidate ≠ sender then (core, .error .invalidInput) else (core, .error .staleMember)
    | some incarnation =>
      if request.candidate ≠ sender ∨ request.candidateIncarnation ≠ incarnation ∨
          request.term = 0 ∨ request.lastLog.isValid = false ∨
          sender ∉ core.activePlan.eligibleLeaders then (core, .error .invalidInput)
      else if request.term < core.currentTerm ∨ core.isLocalVoter = false then
        (core, .ok [core.voteEffect sender false])
      else
        let logIsCurrent := decide (core.lastPosition ≤ request.lastLog)
        let canVote := decide (request.term > core.currentTerm ∨ core.votedFor = none ∨
          core.votedFor = some sender)
        let granted := logIsCurrent && canVote
        if request.term > core.currentTerm ∨ (granted = true ∧ core.votedFor ≠ some sender) then
          core.beginPersistence
            { voteState := some (request.term, if granted then some sender else none) }
            (.voteReply sender granted)
        else (core, .ok [core.voteEffect sender granted])

def countVote (votes : OrdSet NodeId) (sender : NodeId) (granted : Bool) : OrdSet NodeId :=
  if granted then votes.insert sender else votes

def voteResponse (response : VoteResponse) : StepResult :=
  if core.validatePlan response.membershipEpoch response.planDigest = false then
    (core, .error .staleMember)
  else if response.term = 0 then (core, .error .invalidInput)
  else if response.term > core.currentTerm then core.persistStepDown response.term
  else if response.term < core.currentTerm then (core, .ok [])
  else
    match core.role with
    | .candidate votes =>
      let votes := countVote votes sender response.granted
      let core := { core with role := .candidate votes }
      if core.activePlan.satisfies .election votes then core.becomeLeader else (core, .ok [])
    | _ => (core, .ok [])

def appendRequest (request : AppendRequest) : StepResult :=
  match validateAppendEntries request with
  | .error err => (core, .error err)
  | .ok () =>
    if request.leader ≠ sender then (core, .error .invalidInput)
    else
    match core.config.memberIncarnations.incarnation sender with
    | none => (core, .error .staleMember)
    | some incarnation =>
      if request.leaderIncarnation ≠ incarnation ∨ sender ∉ core.activePlan.eligibleLeaders then
        (core, .error .invalidInput)
      else if core.validatePlan request.membershipEpoch request.planDigest = false then
        -- a mismatch carries no term, leadership, commit or read authority
        (core, .ok [core.membershipNoticeEffect sender])
      else if request.term < core.currentTerm then
        (core, .ok [core.appendReplyEffect sender (core.appendReply request false)])
      else if core.positionMatches request.previous request.previousDigest = false then
        if request.term > core.currentTerm then
          core.beginPersistence { voteState := some (request.term, none) }
            (.appendReply sender sender 0 (core.appendReply request false))
        else
          let core := core.followLeader (some sender)
          (core, .ok [core.appendReplyEffect sender (core.appendReply request false)])
      else
        match core.logDelta request.entries with
        | .error err => (core, .error err)
        | .ok (truncateFrom, append) =>
          if request.term > core.currentTerm ∨ truncateFrom.isSome ∨ append ≠ [] then
            core.beginPersistence
              { voteState := if request.term > core.currentTerm then some (request.term, none) else none
                truncateFrom, append }
              (.appendReply sender sender request.leaderCommitIndex (core.appendReply request true))
          else
            let core := core.followLeader (some sender)
            let reply := core.appendReply request true
            thenReply (·.appendReplyEffect sender reply)
              (core.advanceFollowerCommit (min request.leaderCommitIndex reply.matchedIndex))

def malformedResponse : Bool :=
  (response.term = 0 ∨ response.probeId = some 0 ∨
    (response.probeId = none ∧ (response.accepted = true ∨ response.readBarrierId.isSome)) ∨
    (response.accepted = false ∧
      (response.matchedIndex ≠ 0 ∨ response.matchedDigest ≠ zeroDigest)) ∨
    response.nextIndexHint = 0 ∨ response.readBarrierId = some 0)

/-- Records what a replication result proves about a peer: a match raises its matched and next
index, a conflict of the latest probe lowers its next index. -/
def absorbProof (sender : NodeId)
    (response : AppendResponse) : ProbeResult → ConsensusCore × Except CoreError Unit
  | .contact => (core, .ok ())
  | .matched index =>
    if index > core.lastPosition.index then (core, .error .invalidInput)
    else
      let matched := max ((state.matched.get? sender).getD 0) index
      let state := { state with matched := state.matched.insert sender matched }
      match checkedAdd matched 1 with
      | none => ({ core with role := .leader state }, .error .exhausted)
      | some following =>
        let next := max ((state.next.get? sender).getD 1) following
        ({ core with role := .leader { state with next := state.next.insert sender next } }, .ok ())
  | .conflict previousIndex latest =>
    let matched := (state.matched.get? sender).getD 0
    if latest = true ∧ previousIndex ≥ matched then
      match checkedAdd matched 1 with
      | none => (core, .error .exhausted)
      | some floor =>
        let next := (state.next.get? sender).getD 1
        let lowered := max (min (min response.nextIndexHint previousIndex) (next - 1)) floor
        ({ core with role := .leader { state with next := state.next.insert sender lowered } }, .ok ())
    else (core, .ok ())

def peerNext : Nat :=
  match core.role with
  | .leader state => (state.next.get? peer).getD 1
  | _ => 1

/-- Commits what the new match allows, counts the read contact and keeps replicating. -/
def finishResponse : StepResult :=
  let peerNext := core.peerNext sender
  match core.advanceLeaderCommit with
  | (core, .error err) => (core, .error err)
  | (core, .ok committed) =>
    match core.acknowledgeReadBarrier sender response.readBarrierId with
    | (core, .error err) => (core, .error err)
    | (core, .ok ready) =>
      if peerNext ≤ core.lastPosition.index then
        withEffects (committed ++ ready) (core.probeAll [(sender, .replication, none)])
      else (core, .ok (committed ++ ready))

def appendResponse : StepResult :=
  if core.validatePlan response.membershipEpoch response.planDigest = false then
    (core, core.replayMembershipPrefix sender response)
  else if malformedResponse response then (core, .error .invalidInput)
  else if response.term > core.currentTerm then core.persistStepDown response.term
  else if response.term < core.currentTerm then (core, .ok [])
  else
    match core.role with
    | .leader state =>
      match state.probes.get? sender with
      | none => (core, .ok [])
      | some probes =>
        match probes.receive response with
        | (_, .error err) => (core, .error err)
        | (_, .ok none) =>
          -- a phase notice can request a fresh probe but supplies no write or read evidence
          if response.probeId = none ∧ response.accepted = false then
            core.probeAll [(sender, .replication, none)]
          else (core, .ok [])
        | (probes, .ok (some proof)) =>
          let state := { state with probes := state.probes.insert sender probes }
          let core := { core with role := .leader state }
          -- contact may confirm a read but supplies no replication progress
          if proof = .contact then core.acknowledgeReadBarrier sender response.readBarrierId
          else
            match core.absorbProof state sender response proof with
            | (core, .error err) => (core, .error err)
            | (core, .ok ()) => core.finishResponse sender response
    | _ => (core, .ok [])

def receive (senderIncarnation : Nat) (message : CoreMessage) : StepResult :=
  if core.validateSender sender senderIncarnation = false then (core, .error .staleMember)
  else
    match message with
    | .voteRequest request => core.voteRequest sender request
    | .voteResponse response => core.voteResponse sender response
    | .appendRequest request => core.appendRequest sender request
    | .appendResponse response => core.appendResponse sender response
    | .committedPrefix range => core.receiveCommittedPrefix sender range

/-! ### Proposals, heartbeats and activation -/

def propose (proposalId : Nat) (operationId : OperationId)
    (commandVersion : Nat) (command : List Nat) : StepResult :=
  if core.roleKind ≠ .leader then (core, .error .notLeader)
  else if proposalId = 0 then (core, .error .invalidInput)
  else
    match checkedAdd core.lastPosition.index 1 with
    | none => (core, .error .exhausted)
    | some index =>
      let position : LogPosition := ⟨core.currentTerm, index⟩
      match LogEntry.new position operationId commandVersion command with
      | .error err => (core, .error err)
      | .ok e => core.beginPersistence { append := [e] } (.proposal proposalId position)

def finishProposal (proposalId : Nat) (position : LogPosition) : StepResult :=
  match core.role with
  | .leader state =>
    let self := core.config.localNodeId
    let state := { state with matched := state.matched.insert self position.index }
    match checkedAdd position.index 1 with
    | none => ({ core with role := .leader state }, .error .exhausted)
    | some following =>
      let state := { state with next := state.next.insert self following }
      match ({ core with role := .leader state } : ConsensusCore).replicateAll with
      | (core, .error err) => (core, .error err)
      | (core, .ok sends) =>
        withEffects (.proposalAppended proposalId position :: sends) core.advanceLeaderCommit
  | _ => (core, .error .notLeader)

/-- The probes of one heartbeat: a replication probe for each peer that is not known to match
the last entry, and a contact probe for every peer. -/
def heartbeatProbes : List (NodeId × ProbeKind × Option Nat) :=
  core.peers.elems.flatMap fun peer =>
    let behind := match core.peerMatchedIndex peer with
      | none => true
      | some matched => decide (matched < core.lastPosition.index)
    (if behind then [(peer, ProbeKind.replication, none)] else []) ++ [(peer, ProbeKind.contact, none)]

def heartbeat : StepResult :=
  if core.roleKind ≠ .leader then (core, .error .notLeader) else core.probeAll core.heartbeatProbes

def validAppliedTransitionPosition : Bool :=
  (position ≠ .genesis ∧ position.index ≤ core.appliedIndex) &&
    (core.entry position.index).any fun e => decide (e.position.term = position.term)

def activateJointPlan (joint : JointQuorumPlan)
    (incarnations : MemberIncarnations) (committedPosition : LogPosition) : StepResult :=
  match core.activePlan with
  | .stable current =>
    if current.proofDigest ≠ joint.old.proofDigest ∨
        current.spec.membershipEpoch ≠ joint.old.spec.membershipEpoch ∨
        joint.old.members ≠ core.members ∨
        incarnations.matchesMembers joint.members = false ∨
        incarnations.preserves core.config.memberIncarnations core.members = false then
      (core, .error .invalidInput)
    else if core.validAppliedTransitionPosition committedPosition = false then
      (core, .error .invalidInput)
    else
      core.beginPersistence
        { membershipEpoch := some joint.membershipEpoch
          quorumPlan := some { activePlan := .joint joint, activatedPosition := committedPosition } }
        (.activateJoint joint incarnations)
  | .joint _ => (core, .error .invalidInput)

def activateStablePlan (plan : CompiledQuorumPlan)
    (incarnations : MemberIncarnations) (committedPosition : LogPosition) : StepResult :=
  match core.activePlan with
  | .joint joint =>
    let retained := core.members.inter plan.members
    if plan.proofDigest ≠ joint.new.proofDigest ∨
        plan.spec.membershipEpoch ≠ joint.membershipEpoch ∨
        incarnations.matchesMembers plan.members = false ∨
        incarnations.preserves core.config.memberIncarnations retained = false then
      (core, .error .invalidInput)
    else if core.validAppliedTransitionPosition committedPosition = false then
      (core, .error .invalidInput)
    else
      core.beginPersistence
        { membershipEpoch := some plan.spec.membershipEpoch
          quorumPlan := some { activePlan := .stable plan, activatedPosition := committedPosition } }
        (.activateStable plan incarnations)
  | .stable _ => (core, .error .invalidInput)

/-- What a leader keeps of its replication state across an activation: matches of the members
that stay, no outstanding probe and no read barrier. -/
def rebasedLeader (nextIndex : Nat) : LeaderState :=
  let members := core.members
  let matched := state.matched.retain fun member _ => decide (member ∈ members)
  let next := state.next.retain fun member _ => decide (member ∈ members)
  { probes := .empty
    matched := members.elems.foldl (fun m member => m.orInsert member
      (if member = core.config.localNodeId then core.lastPosition.index else 0)) matched
    next := members.elems.foldl (fun m member => m.orInsert member nextIndex) next
    readBarriers := .empty }

def rebaseLeader (nextIndex : Nat) : ConsensusCore :=
  match core.role with
  | .leader state => { core with role := .leader (core.rebasedLeader state nextIndex) }
  | _ => core

variable (activePlan : ActiveQuorumPlan)

def enterPlan
    (incarnations : MemberIncarnations) (committedPosition : LogPosition) : ConsensusCore :=
  { core with
    membershipHistory := core.membershipHistory.record core.activePlan committedPosition
    activePlan
    config := { core.config with memberIncarnations := incarnations }
    replicationPeers := .empty }

/-- A leader that may lead the entered phase goes on replicating; a node that may not steps down. -/
def settlePlan : StepResult :=
  let mayLead := core.localIsEligibleLeader && core.isLocalVoter
  if core.roleKind = .leader ∧ mayLead then core.replicateAll
  else if mayLead then (core, .ok [])
  else if core.roleKind = .follower then (core.followLeader none, .ok [])
  else (core.followLeader none, .ok [.roleChanged .follower core.currentTerm])

def finishPlanActivation
    (incarnations : MemberIncarnations) (committedPosition : LogPosition) : StepResult :=
  let entered := core.enterPlan activePlan incarnations committedPosition
  match checkedAdd entered.lastPosition.index 1 with
  | none => (entered, .error .exhausted)
  | some nextIndex => (entered.rebaseLeader nextIndex).settlePlan

/-! ### Persistence -/

/-- Appends entries one by one, each at the next index. -/
def appendDurable (core : ConsensusCore) : List LogEntry → ConsensusCore × Except CoreError Unit
  | [] => (core, .ok ())
  | e :: es =>
    match e.validate with
    | .error err => (core, .error err)
    | .ok () =>
      match checkedAdd core.lastPosition.index 1 with
      | none => (core, .error .exhausted)
      | some expected =>
        if e.position.index ≠ expected then (core, .error .invalidInput)
        else appendDurable { core with log := core.log ++ [e] } es

/-- Installs a new term and vote, if any; a higher term ends any leadership. -/
def installVote : Option (Nat × Option NodeId) → ConsensusCore
  | none => core
  | some (term, votedFor) =>
    if term > core.currentTerm then
      { core with role := .follower, leaderId := none, currentTerm := term, votedFor }
    else { core with currentTerm := term, votedFor }

def truncateLog : Option Nat → ConsensusCore
  | none => core
  | some index => { core with log := core.log.filter (fun e => e.position.index < index) }

def applyDurableMutation : ConsensusCore × Except CoreError Unit :=
  if mutation.membershipEpoch.any (fun epoch =>
      (epoch ≠ core.activeEpoch ∧ epoch ≠ saturatingAdd core.activeEpoch 1)) then
    (core, .error .invalidInput)
  else if mutation.voteState.any (fun v => v.1 < core.currentTerm ∨ v.1 = 0) then
    (core, .error .invalidInput)
  else
    let voted := core.installVote mutation.voteState
    if mutation.truncateFrom.any (fun index => index ≤ voted.commitIndex ∨ index = 0) then
      (voted, .error .invalidInput)
    else (voted.truncateLog mutation.truncateFrom).appendDurable mutation.append

def finishAction (pending : PendingPersistence) : StepResult :=
  match pending.action with
  | .campaign => core.finishCampaign
  | .voteReply recipient granted =>
    let core := core.followLeader none
    (core, .ok [core.voteEffect recipient granted])
  | .appendReply recipient leader leaderCommitIndex reply =>
    let core := core.followLeader (some leader)
    if reply.accepted then
      thenReply (·.appendReplyEffect recipient reply)
        (core.advanceFollowerCommit (min leaderCommitIndex reply.matchedIndex))
    else (core, .ok [core.appendReplyEffect recipient reply])
  | .proposal proposalId position => core.finishProposal proposalId position
  | .stepDown =>
    let core := core.followLeader none
    (core, .ok [.roleChanged .follower core.currentTerm])
  | .committedPrefix sender committedIndex => core.finishCommittedPrefix sender committedIndex
  | .activateJoint joint incarnations =>
    match pending.mutation.quorumPlan with
    | none => (core, .error .invalidInput)
    | some plan => core.finishPlanActivation (.joint joint) incarnations plan.activatedPosition
  | .activateStable stable incarnations =>
    match pending.mutation.quorumPlan with
    | none => (core, .error .invalidInput)
    | some plan => core.finishPlanActivation (.stable stable) incarnations plan.activatedPosition

def finishPersistence : StepResult :=
  match core.pending with
  | none => (core, .error .stalePersistence)
  | some pending =>
    if pending.id ≠ id then (core, .error .stalePersistence)
    else
      match applyDurableMutation { core with pending := none } pending.mutation with
      | (core, .error err) => (core, .error err)
      | (core, .ok ()) => core.finishAction pending

/-- Consumes one deterministic input and returns ordered side effects. -/
def step (input : CoreInput) : StepResult :=
  match core.pending, input with
  | _, .persisted id => core.finishPersistence id
  | some _, _ => (core, .error .persistencePending)
  | none, .electionTimeout => core.startElection
  | none, .heartbeat => core.heartbeat
  | none, .message sender senderIncarnation message => core.receive sender senderIncarnation message
  | none, .propose proposalId operationId version command =>
    core.propose proposalId operationId version command
  | none, .beginReadBarrier id => core.beginReadBarrier id
  | none, .cancelReadBarrier id => core.cancelReadBarrier id
  | none, .confirmTerm proposalId operationId =>
    core.propose proposalId operationId termConfirmationVersion termConfirmationBytes
  | none, .activateJointPlan joint incarnations position =>
    core.activateJointPlan joint incarnations position
  | none, .activateStablePlan plan incarnations position =>
    core.activateStablePlan plan incarnations position
  | none, .appliedThrough index => core.appliedThrough index

end ConsensusCore

/-! ## Process lifetimes -/

/-- One call of the core's mutable interface. -/
inductive CoreCall where
  | step (input : CoreInput)
  | setReplicationBudgets (default : ReplicationBatchBudget)
      (peers : OrdMap NodeId ReplicationBatchBudget)
  | clearReplicationBudgetOverrides

namespace ConsensusCore

def call (core : ConsensusCore) : CoreCall → StepResult
  | .step input => core.step input
  | .setReplicationBudgets default peers =>
    match core.setReplicationBudgets default peers with
    | (core, .error err) => (core, .error err)
    | (core, .ok ()) => (core, .ok [])
  | .clearReplicationBudgetOverrides => (core.clearReplicationBudgetOverrides, .ok [])

/-- Effects of a result; a rejected call has none. -/
def effectsOf : Except CoreError (List CoreEffect) → List CoreEffect
  | .ok effects => effects
  | .error _ => []

/-- Runs the calls of one process lifetime; returns the last core and all effects in order. -/
def run (core : ConsensusCore) : List CoreCall → ConsensusCore × List CoreEffect
  | [] => (core, [])
  | c :: cs =>
    let (core, result) := core.call c
    let (core, effects) := core.run cs
    (core, effectsOf result ++ effects)

end ConsensusCore

end MeshSpan
