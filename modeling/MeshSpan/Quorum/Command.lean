import MeshSpan.Core.Types

/- Canonical bytes of active plans and membership commands
   (crates/meshspan-consensus/src/plan_record/{encode,decode}.rs and
   membership_command.rs).

   A decoder is a function of the bytes still unread. A decoded plan is
   recompiled from its specification, so what a decoder returns is a proved plan.

   Correspondence (Rust ↔ Lean)
     Cursor                               ↔  the list of unread bytes
     predicate(cursor, depth, node_count) ↔  `readPredicate`, on the levels left below depth 8
     ActiveQuorumPlan::encode / decode    ↔  `ActiveQuorumPlan.encode` / `.decode`
     MembershipTransitionCommand::decode  ↔  `MembershipTransitionCommand.decode`

   Left out: `MembershipTransitionCommand::encode`, which writes a digest back as
   bytes; a digest read from bytes is `Digest.raw`. -/

namespace MeshSpan

open Ordered

def maximumRecordBytes : Nat := 65536

def maximumIdentifiers : Nat := 256

def membershipCommandVersion : Nat := 2

def maximumCommandBytes : Nat := 98304

inductive QuorumPlanRecordError where
  | malformed
  | notSafe
deriving DecidableEq

/-- Rejection categories for hostile membership command bytes or unsafe transitions. -/
inductive MembershipCommandError where
  | malformed
  | plan (error : QuorumPlanRecordError)
  | invalidTransition

/-! ## Encoding -/

namespace PlanRecord

/-- A sequence length as two bytes; longer sequences have no encoding. -/
def countedLength (length : Nat) : Except QuorumPlanRecordError (List Nat) :=
  if length < 65536 then .ok (beBytes 2 length) else .error .malformed

def encodeIdentifiers (values : OrdSet NodeId) : Except QuorumPlanRecordError (List Nat) := do
  let count ← countedLength values.card
  .ok (count ++ values.elems.flatMap (beBytes 16))

mutual

def encodePredicate : QuorumPredicate → Except QuorumPlanRecordError (List Nat)
  | .voter id => .ok (1 :: beBytes 16 id)
  | .atLeast threshold children => do
    let count ← countedLength children.length
    let body ← encodePredicates children
    .ok (2 :: threshold :: count ++ body)
  | .weightedAtLeast threshold voters => do
    let count ← countedLength voters.length
    .ok (3 :: beBytes 4 threshold ++ count ++
      voters.flatMap fun w => beBytes 16 w.voter ++ beBytes 2 w.weight)
  | .all children => do
    let count ← countedLength children.length
    let body ← encodePredicates children
    .ok (4 :: count ++ body)

def encodePredicates : List QuorumPredicate → Except QuorumPlanRecordError (List Nat)
  | [] => .ok []
  | c :: cs => do
    let head ← encodePredicate c
    let rest ← encodePredicates cs
    .ok (head ++ rest)

end

def encodeSpec (spec : QuorumPlanSpec) : Except QuorumPlanRecordError (List Nat) := do
  let voters ← encodeIdentifiers spec.voters
  let learners ← encodeIdentifiers spec.learners
  let eligible ← encodeIdentifiers spec.eligibleLeaders
  let election ← encodePredicate spec.election
  let commit ← encodePredicate spec.commit
  let read ← encodePredicate spec.read
  .ok (beBytes 16 spec.planId ++ beBytes 2 spec.formatVersion ++ beBytes 8 spec.membershipEpoch ++
    voters ++ learners ++ eligible ++ election ++ commit ++ read)

/-- `b"MSQP"` and record version 1. -/
def header : List Nat := [77, 83, 81, 80, 0, 1]

/-! ## Decoding -/

def take (n : Nat) (bytes : List Nat) : Except QuorumPlanRecordError (List Nat × List Nat) :=
  if n ≤ bytes.length then .ok (bytes.take n, bytes.drop n) else .error .malformed

def unsigned (n : Nat) (bytes : List Nat) : Except QuorumPlanRecordError (Nat × List Nat) :=
  (take n bytes).map fun r => (fromBeBytes r.1, r.2)

variable (bytes : List Nat)

/-- Reads a 16-byte identifier, refusing the nil one. -/
def identifier : Except QuorumPlanRecordError (Nat × List Nat) := do
  let (value, rest) ← unsigned 16 bytes
  if value = 0 then .error .malformed else .ok (value, rest)

def boundedCount (maximum : Nat) (bytes : List Nat) :
    Except QuorumPlanRecordError (Nat × List Nat) := do
  let (value, rest) ← unsigned 2 bytes
  if value > maximum then .error .malformed else .ok (value, rest)

/-- Reads `n` identifiers into a set, refusing a repeated one. -/
def readIdentifiersInto : Nat → OrdSet NodeId → List Nat →
    Except QuorumPlanRecordError (OrdSet NodeId × List Nat)
  | 0, values, bytes => .ok (values, bytes)
  | n + 1, values, bytes => do
    let (value, rest) ← identifier bytes
    if value ∈ values then .error .malformed
    else readIdentifiersInto n (values.insert value) rest

def readIdentifiers : Except QuorumPlanRecordError (OrdSet NodeId × List Nat) := do
  let (count, rest) ← boundedCount maximumIdentifiers bytes
  readIdentifiersInto count OrdSet.empty rest

def readWeighted : Nat → List Nat → Except QuorumPlanRecordError (List WeightedVoter × List Nat)
  | 0, bytes => .ok ([], bytes)
  | n + 1, bytes => do
    let (voter, rest) ← identifier bytes
    let (weight, rest) ← unsigned 2 rest
    let (others, rest) ← readWeighted n rest
    .ok ({ voter, weight } :: others, rest)

/-- Reads `n` values one after the other, threading the predicate node count. -/
def readMany (read : Nat → List Nat → Except QuorumPlanRecordError (QuorumPredicate × Nat × List Nat)) :
    Nat → Nat → List Nat → Except QuorumPlanRecordError (List QuorumPredicate × Nat × List Nat)
  | 0, nodeCount, bytes => .ok ([], nodeCount, bytes)
  | n + 1, nodeCount, bytes => do
    let (child, nodeCount, rest) ← read nodeCount bytes
    let (children, nodeCount, rest) ← readMany read n nodeCount rest
    .ok (child :: children, nodeCount, rest)

/-- Reads one predicate, `levels` levels above the depth bound. -/
def readPredicate : Nat → Nat → List Nat →
    Except QuorumPlanRecordError (QuorumPredicate × Nat × List Nat)
  | 0, _, _ => .error .malformed
  | levels + 1, nodeCount, bytes =>
    if nodeCount + 1 > maximumPredicateNodes then .error .malformed
    else do
      let (tag, rest) ← unsigned 1 bytes
      match tag with
      | 1 => do
        let (id, rest) ← identifier rest
        .ok (.voter id, nodeCount + 1, rest)
      | 2 => do
        let (threshold, rest) ← unsigned 1 rest
        let (count, rest) ← boundedCount maximumPredicateNodes rest
        let (children, nodes, rest) ← readMany (readPredicate levels) count (nodeCount + 1) rest
        .ok (.atLeast threshold children, nodes, rest)
      | 3 => do
        let (threshold, rest) ← unsigned 4 rest
        let (count, rest) ← boundedCount maximumIdentifiers rest
        let (voters, rest) ← readWeighted count rest
        .ok (.weightedAtLeast threshold voters, nodeCount + 1, rest)
      | 4 => do
        let (count, rest) ← boundedCount maximumPredicateNodes rest
        let (children, nodes, rest) ← readMany (readPredicate levels) count (nodeCount + 1) rest
        .ok (.all children, nodes, rest)
      | _ => .error .malformed

def readCompiledPlan : Except QuorumPlanRecordError (CompiledQuorumPlan × List Nat) := do
  let (planId, rest) ← identifier bytes
  let (formatVersion, rest) ← unsigned 2 rest
  let (membershipEpoch, rest) ← unsigned 8 rest
  let (voters, rest) ← readIdentifiers rest
  let (learners, rest) ← readIdentifiers rest
  let (eligibleLeaders, rest) ← readIdentifiers rest
  let (election, nodes, rest) ← readPredicate maximumPredicateDepth 0 rest
  let (commit, nodes, rest) ← readPredicate maximumPredicateDepth nodes rest
  let (read, _, rest) ← readPredicate maximumPredicateDepth nodes rest
  let spec : QuorumPlanSpec :=
    { planId, formatVersion, membershipEpoch, voters, learners, eligibleLeaders, election, commit, read }
  match compilePlan spec with
  | .ok plan => .ok (plan, rest)
  | .error _ => .error .notSafe

end PlanRecord

namespace ActiveQuorumPlan

open PlanRecord

/-- Encodes the source plan specifications, never cached proof output. -/
def encode (plan : ActiveQuorumPlan) : Except QuorumPlanRecordError (List Nat) := do
  let body ← match plan with
    | .stable p => do
      let spec ← encodeSpec p.spec
      .ok (1 :: spec)
    | .joint p => do
      let old ← encodeSpec p.old.spec
      let new ← encodeSpec p.new.spec
      .ok (2 :: old ++ new)
  if (header ++ body).length > maximumRecordBytes then .error .malformed else .ok (header ++ body)

/-- Decodes, validates and independently recompiles every proof from untrusted bytes. -/
def decode (bytes : List Nat) : Except QuorumPlanRecordError ActiveQuorumPlan :=
  if bytes.length > maximumRecordBytes then .error .malformed
  else do
    let (magic, rest) ← take header.length bytes
    if magic ≠ header then .error .malformed
    else
      let (phase, rest) ← unsigned 1 rest
      let (plan, rest) ← match phase with
        | 1 => do
          let (plan, rest) ← readCompiledPlan rest
          .ok (ActiveQuorumPlan.stable plan, rest)
        | 2 => do
          let (old, rest) ← readCompiledPlan rest
          let (new, rest) ← readCompiledPlan rest
          match JointQuorumPlan.new? old new with
          | some plan => .ok (ActiveQuorumPlan.joint plan, rest)
          | none => .error .notSafe
        | _ => .error .malformed
      if rest ≠ [] then .error .malformed else .ok plan

end ActiveQuorumPlan

/-! ## Membership commands -/

/-- Exact evidence that one learner contains the committed history it must preserve as a voter. -/
structure CatchUpEvidence where
  nodeId : NodeId
  incarnation : Nat
  committedPosition : LogPosition
  committedEntryDigest : Digest
  promotionEligible : Bool

/-- One independently validated membership transition carried by a committed log entry. -/
inductive MembershipTransitionCommand where
  | admitLearner (joint : JointQuorumPlan) (nodeId : NodeId) (incarnation : Nat)
  | promoteLearner (joint : JointQuorumPlan) (evidence : CatchUpEvidence)
  | removeMember (joint : JointQuorumPlan) (nodeId : NodeId) (incarnation : Nat)
  | finaliseStable (plan : CompiledQuorumPlan)

namespace MembershipTransitionCommand

open PlanRecord

variable (joint : JointQuorumPlan)

/-- Exactly one learner is added and the voters stay. -/
def validAdmission (nodeId : NodeId) (incarnation : Nat) : Bool :=
  let old := joint.old.spec
  let new := joint.new.spec
  (incarnation ≠ 0 ∧ nodeId ∉ old.learners ∧ old.voters = new.voters ∧
    old.learners.insert nodeId = new.learners)

/-- Exactly one learner becomes a voter, with positive evidence. -/
def validPromotion (evidence : CatchUpEvidence) : Bool :=
  let old := joint.old.spec
  let new := joint.new.spec
  (evidence.promotionEligible = true ∧ evidence.incarnation ≠ 0 ∧
    evidence.committedPosition ≠ .genesis ∧ evidence.nodeId ∈ old.learners ∧
    evidence.nodeId ∉ old.voters ∧ old.voters.insert evidence.nodeId = new.voters ∧
    old.learners.erase evidence.nodeId = new.learners)

/-- Exactly one member is dropped; a voter is dropped before a learner is looked for. -/
def validRemoval (nodeId : NodeId) (incarnation : Nat) : Bool :=
  let old := joint.old.spec
  let new := joint.new.spec
  let voters := old.voters.erase nodeId
  let learners := if nodeId ∈ old.voters then old.learners else old.learners.erase nodeId
  (incarnation ≠ 0 ∧ (nodeId ∈ old.voters ∨ nodeId ∈ old.learners) ∧
    voters.isEmpty = false ∧ voters = new.voters ∧ learners = new.learners)

def validate (command : MembershipTransitionCommand) : Except MembershipCommandError Unit :=
  let valid := match command with
    | .admitLearner joint nodeId incarnation => validAdmission joint nodeId incarnation
    | .promoteLearner joint evidence => validPromotion joint evidence
    | .removeMember joint nodeId incarnation => validRemoval joint nodeId incarnation
    | .finaliseStable _ => true
  if valid then .ok () else .error .invalidTransition

/-- `b"MSMC"` and format version 1. -/
def header : List Nat := [77, 83, 77, 67, 0, 1]

/-- A short read of the outer frame is a malformed command. -/
def framed {α : Type} : Except QuorumPlanRecordError α → Except MembershipCommandError α
  | .ok a => .ok a
  | .error _ => .error .malformed

def decodeEvidence (kind : Nat) (active : ActiveQuorumPlan) (bytes : List Nat) :
    Except MembershipCommandError (MembershipTransitionCommand × List Nat) :=
  match kind, active with
  | 1, .joint joint => do
    let (nodeId, rest) ← framed (identifier bytes)
    let (incarnation, rest) ← framed (unsigned 8 rest)
    .ok (.admitLearner joint nodeId incarnation, rest)
  | 2, .joint joint => do
    let (nodeId, rest) ← framed (identifier bytes)
    let (incarnation, rest) ← framed (unsigned 8 rest)
    let (term, rest) ← framed (unsigned 8 rest)
    let (index, rest) ← framed (unsigned 8 rest)
    let (digest, rest) ← framed (unsigned 32 rest)
    .ok (.promoteLearner joint ⟨nodeId, incarnation, ⟨term, index⟩, .raw digest, true⟩, rest)
  | 4, .joint joint => do
    let (nodeId, rest) ← framed (identifier bytes)
    let (incarnation, rest) ← framed (unsigned 8 rest)
    .ok (.removeMember joint nodeId incarnation, rest)
  | 3, .stable plan => .ok (.finaliseStable plan, bytes)
  | _, _ => .error .invalidTransition

/-- Decodes hostile bytes, recompiles the embedded plan and validates the transition shape. -/
def decode (bytes : List Nat) : Except MembershipCommandError MembershipTransitionCommand :=
  if bytes.length > maximumCommandBytes then .error .malformed
  else do
    let (magic, rest) ← framed (take header.length bytes)
    if magic ≠ header then .error .malformed
    else
      let (kind, rest) ← framed (unsigned 1 rest)
      let (reserved, rest) ← framed (unsigned 1 rest)
      if reserved ≠ 0 then .error .malformed
      else
        let (planLength, rest) ← framed (unsigned 4 rest)
        let (planBytes, rest) ← framed (take planLength rest)
        match ActiveQuorumPlan.decode planBytes with
        | .error error => .error (.plan error)
        | .ok active =>
          let (command, rest) ← decodeEvidence kind active rest
          if rest ≠ [] then .error .malformed
          else
            let _ ← command.validate
            .ok command

end MembershipTransitionCommand

end MeshSpan
