import MeshSpan.Quorum.Plan

/- Consensus inputs, messages, persistence mutations and effects
   (crates/meshspan-consensus/src/core/types.rs and replication_budget.rs).

   Every `u64` of a message is a `Nat`: a peer may send any value, and the
   functions that add to one check the 64-bit bound themselves.

   Left out: `CoreConfig.partition_id` and `CoreEffect::Rejected`, which the core
   neither reads nor emits. -/

namespace MeshSpan

open Ordered

def maximumLogEntryBytes : Nat := 16777216

def maximumAppendEntries : Nat := 64

def maximumAppendCommandBytes : Nat := 16777216

def termConfirmationVersion : Nat := 65535

/-- `b"MSCT\x01"`. -/
def termConfirmationBytes : List Nat := [77, 83, 67, 84, 1]

inductive CoreError where
  | invalidConfiguration
  | invalidInput
  | staleMember
  | persistencePending
  | stalePersistence
  | notLeader
  | exhausted
deriving DecidableEq

/-! ## Log entries -/

/-- Term/index pair inside exactly one metadata partition, ordered by term first. -/
@[ext]
structure LogPosition where
  (term index : Nat)
deriving DecidableEq

namespace LogPosition

/-- The position before the first log entry. -/
def genesis : LogPosition := ⟨0, 0⟩

def isValid (p : LogPosition) : Bool := p.index = 0 ↔ p.term = 0

instance : LE LogPosition := ⟨fun a b => a.term < b.term ∨ a.term = b.term ∧ a.index ≤ b.index⟩

instance (a b : LogPosition) : Decidable (a ≤ b) :=
  inferInstanceAs (Decidable (a.term < b.term ∨ a.term = b.term ∧ a.index ≤ b.index))

theorem le_iff {a b : LogPosition} :
    a ≤ b ↔ a.term < b.term ∨ a.term = b.term ∧ a.index ≤ b.index := Iff.rfl

end LogPosition

structure LogEntry where
  position : LogPosition
  operationId : OperationId
  commandVersion : Nat
  command : List Nat
  commandDigest : Digest
deriving DecidableEq

namespace LogEntry

def new (position : LogPosition) (operationId : OperationId) (commandVersion : Nat)
    (command : List Nat) : Except CoreError LogEntry :=
  if position.isValid = false ∨ position = .genesis ∨ commandVersion = 0 ∨
      (commandVersion = termConfirmationVersion ∧ command ≠ termConfirmationBytes) ∨
      command.length > maximumLogEntryBytes then .error .invalidInput
  else .ok { position, operationId, commandVersion, command,
             commandDigest := .command commandVersion command }

def validate (e : LogEntry) : Except CoreError Unit :=
  if e.position.isValid = false ∨ e.position = .genesis ∨ e.commandVersion = 0 ∨
      (e.commandVersion = termConfirmationVersion ∧ e.command ≠ termConfirmationBytes) ∨
      e.command.length > maximumLogEntryBytes ∨
      e.commandDigest ≠ .command e.commandVersion e.command then .error .invalidInput
  else .ok ()

/-- The digest chaining this complete log record to its successor. -/
def entryDigest (e : LogEntry) : Digest :=
  .logEntry e.position.term e.position.index e.operationId e.commandVersion e.commandDigest

end LogEntry

/-! ## Membership and configuration -/

structure MemberIncarnations where
  values : OrdMap NodeId Nat
  positive : ∀ v ∈ values.values, 0 < v
deriving DecidableEq

namespace MemberIncarnations

def firstTwo : MemberIncarnations := ⟨(OrdMap.empty.insert 1 1).insert 2 1, by decide⟩

def incarnation (m : MemberIncarnations) (node : NodeId) : Option Nat := m.values.get? node

def matchesMembers (m : MemberIncarnations) (members : OrdSet NodeId) : Bool :=
  (m.values.keys = members) && m.values.values.all fun v => decide (v > 0)

def preserves (m previous : MemberIncarnations) (incumbents : OrdSet NodeId) : Bool :=
  incumbents.elems.all fun member => decide (m.incarnation member = previous.incarnation member)

end MemberIncarnations

structure CoreConfig where
  localNodeId : NodeId
  localIncarnation : Nat
  plan : CompiledQuorumPlan
  memberIncarnations : MemberIncarnations
deriving DecidableEq

structure DurableCoreState where
  currentTerm : Nat
  votedFor : Option NodeId
  log : List LogEntry
  appliedIndex : Nat
deriving DecidableEq

/-- A peer's framed replication limit, able to carry at least one command byte. -/
structure ReplicationBatchBudget where
  (maxBytes entryOverhead : Nat)
  carries : entryOverhead < maxBytes
deriving DecidableEq

def ReplicationBatchBudget.default : ReplicationBatchBudget :=
  ⟨maximumAppendCommandBytes, 0, by decide⟩

/-! ## Messages -/

structure VoteRequest where
  term : Nat
  candidate : NodeId
  candidateIncarnation : Nat
  lastLog : LogPosition
  membershipEpoch : Nat
  planDigest : Digest
deriving DecidableEq

structure VoteResponse where
  term : Nat
  granted : Bool
  membershipEpoch : Nat
  planDigest : Digest
deriving DecidableEq

structure AppendRequest where
  (probeId term : Nat)
  leader : NodeId
  leaderIncarnation : Nat
  previous : LogPosition
  previousDigest : Digest
  entries : List LogEntry
  leaderCommitIndex : Nat
  readBarrierId : Option Nat
  membershipEpoch : Nat
  planDigest : Digest
deriving DecidableEq

/-- Follower replication response; the probe is absent only for a membership-phase notice. -/
structure AppendResponse where
  probeId : Option Nat
  matchedDigest : Digest
  term : Nat
  accepted : Bool
  (matchedIndex nextIndexHint : Nat)
  readBarrierId : Option Nat
  membershipEpoch : Nat
  planDigest : Digest
deriving DecidableEq

/-- Bounded historical committed range, without election or read authority. -/
structure CommittedPrefix where
  previous : LogPosition
  previousDigest : Digest
  entries : List LogEntry
  (committedIndex membershipEpoch : Nat)
  planDigest : Digest
deriving DecidableEq

inductive CoreMessage where
  | voteRequest (request : VoteRequest)
  | voteResponse (response : VoteResponse)
  | appendRequest (request : AppendRequest)
  | appendResponse (response : AppendResponse)
  | committedPrefix (committed : CommittedPrefix)
deriving DecidableEq

/-! ## Inputs and effects -/

inductive CoreInput where
  | electionTimeout
  | heartbeat
  | message (sender : NodeId) (senderIncarnation : Nat) (message : CoreMessage)
  | persisted (id : Nat)
  | propose (proposalId : Nat) (operationId : OperationId) (commandVersion : Nat)
      (command : List Nat)
  | beginReadBarrier (id : Nat)
  | cancelReadBarrier (id : Nat)
  | confirmTerm (proposalId : Nat) (operationId : OperationId)
  | activateJointPlan (joint : JointQuorumPlan) (incarnations : MemberIncarnations)
      (committedPosition : LogPosition)
  | activateStablePlan (plan : CompiledQuorumPlan) (incarnations : MemberIncarnations)
      (committedPosition : LogPosition)
  | appliedThrough (index : Nat)

/-- One atomic plan activation persisted with its membership epoch. -/
structure DurableQuorumPlan where
  activePlan : ActiveQuorumPlan
  activatedPosition : LogPosition
deriving DecidableEq

/-- One atomic persistence request that must complete before dependent effects are emitted. -/
structure DurableMutation where
  voteState : Option (Nat × Option NodeId) := none
  truncateFrom : Option Nat := none
  append : List LogEntry := []
  membershipEpoch : Option Nat := none
  quorumPlan : Option DurableQuorumPlan := none
deriving DecidableEq

inductive Role where
  | follower
  | candidate
  | leader
deriving DecidableEq

inductive CoreEffect where
  | persist (id : Nat) (mutation : DurableMutation)
  | send (recipient : NodeId) (message : CoreMessage)
  | roleChanged (role : Role) (term : Nat)
  | proposalAppended (proposalId : Nat) (position : LogPosition)
  | commitReady (entries : List LogEntry)
  | readBarrierReady (id appliedIndex : Nat)
deriving DecidableEq

/-! ## Validation of replicated ranges -/

/-- Charges each command against the remaining byte allowance. -/
def validateReplicationBytes : Nat → List LogEntry → Except CoreError Unit
  | _, [] => .ok ()
  | remaining, e :: es =>
    if e.command.length ≤ remaining then validateReplicationBytes (remaining - e.command.length) es
    else .error .invalidInput

/-- Walks the entries of an append, which must be valid, contiguous and not above its term. -/
def validateAppendFrom (term : Nat) : Nat → List LogEntry → Except CoreError Unit
  | _, [] => .ok ()
  | expected, e :: es =>
    match e.validate with
    | .error err => .error err
    | .ok () =>
      if e.position.index ≠ expected ∨ e.position.term > term then .error .invalidInput
      else
        match checkedAdd expected 1 with
        | none => .error .exhausted
        | some next => validateAppendFrom term next es

def validateAppendEntries (request : AppendRequest) : Except CoreError Unit :=
  if request.term = 0 ∨ request.probeId = 0 ∨ request.previous.isValid = false ∨
      request.entries.length > maximumAppendEntries ∨ request.readBarrierId = some 0 ∨
      (request.previous = .genesis ∧ request.previousDigest ≠ zeroDigest) then .error .invalidInput
  else
    match validateReplicationBytes maximumAppendCommandBytes request.entries with
    | .error err => .error err
    | .ok () =>
      match checkedAdd request.previous.index 1 with
      | none => .error .exhausted
      | some expected => validateAppendFrom request.term expected request.entries

/-- Walks the entries of a committed range; returns the last index. -/
def validateCommittedFrom : Nat → Nat → List LogEntry → Except CoreError Nat
  | index, _, [] => .ok index
  | index, term, e :: es =>
    match e.validate with
    | .error err => .error err
    | .ok () =>
      match checkedAdd index 1 with
      | none => .error .exhausted
      | some next =>
        if e.position.index ≠ next ∨ e.position.term < term then .error .invalidInput
        else validateCommittedFrom next e.position.term es

def validateCommittedPrefix (range : CommittedPrefix) : Except CoreError Unit :=
  if range.previous.isValid = false ∨ range.entries.length > maximumAppendEntries ∨
      range.membershipEpoch = 0 ∨ range.committedIndex = 0 ∨
      (range.previous = .genesis ∧ range.previousDigest ≠ zeroDigest) then .error .invalidInput
  else
    match validateReplicationBytes maximumAppendCommandBytes range.entries with
    | .error err => .error err
    | .ok () =>
      match validateCommittedFrom range.previous.index range.previous.term range.entries with
      | .error err => .error err
      | .ok index => if index ≠ range.committedIndex then .error .invalidInput else .ok ()

end MeshSpan
