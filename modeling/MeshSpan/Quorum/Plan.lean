import MeshSpan.Ordered
import MeshSpan.Primitives

/- Flexible quorum plans: the predicate language, the exhaustive compiler and the
   joint old/new phase (crates/meshspan-consensus/src/quorum, membership.rs and
   plan_record.rs).

   A compiled plan and a joint plan carry the equation that they came out of
   their constructor, so an unproved plan is not a value of the type.

   Correspondence (Rust ↔ Lean)
     QuorumPredicate::validate / evaluate  ↔  `QuorumPredicate.validate` / `.evaluate`
     VoterSet(u16)                         ↔  `Nat` used as a bit set
     compile_plan                          ↔  `compilePlan` (through `compileParts`)
     prove_joint_transition                ↔  `proveJointTransition`
     JointQuorumPlan::new                  ↔  `JointQuorumPlan.new`
     ActiveQuorumPlan                      ↔  `ActiveQuorumPlan` -/

namespace MeshSpan

open Ordered

inductive QuorumPlanError where
  | invalidPlan
  | invalidMember
  | invalidPredicate
  | noQuorum
  | unsafeIntersection
  | unsafeTransition
deriving DecidableEq

def maximumVoters : Nat := 9

def maximumLearners : Nat := 256

def maximumPredicateDepth : Nat := 8

def maximumPredicateNodes : Nat := 256

/-! ## Predicates -/

structure WeightedVoter where
  voter : NodeId
  weight : Nat
deriving DecidableEq

/-- Bounded upward-closed expression over stable voter identities. -/
inductive QuorumPredicate where
  | voter (id : NodeId)
  | atLeast (threshold : Nat) (children : List QuorumPredicate)
  | weightedAtLeast (threshold : Nat) (voters : List WeightedVoter)
  | all (children : List QuorumPredicate)

namespace QuorumPredicate

mutual

def decEq : (a b : QuorumPredicate) → Decidable (a = b)
  | .voter a, .voter b =>
    if h : a = b then isTrue (by rw [h]) else isFalse (by intro e; cases e; exact h rfl)
  | .atLeast s as, .atLeast t bs =>
    match decEq_list as bs with
    | isTrue h => if hst : s = t then isTrue (by rw [h, hst]) else
        isFalse (by intro e; cases e; exact hst rfl)
    | isFalse h => isFalse (by intro e; cases e; exact h rfl)
  | .weightedAtLeast s as, .weightedAtLeast t bs =>
    if h : s = t ∧ as = bs then isTrue (by rw [h.1, h.2]) else
      isFalse (by intro e; cases e; exact h ⟨rfl, rfl⟩)
  | .all as, .all bs =>
    match decEq_list as bs with
    | isTrue h => isTrue (by rw [h])
    | isFalse h => isFalse (by intro e; cases e; exact h rfl)
  | .voter _, .atLeast _ _ => isFalse (by intro e; cases e)
  | .voter _, .weightedAtLeast _ _ => isFalse (by intro e; cases e)
  | .voter _, .all _ => isFalse (by intro e; cases e)
  | .atLeast _ _, .voter _ => isFalse (by intro e; cases e)
  | .atLeast _ _, .weightedAtLeast _ _ => isFalse (by intro e; cases e)
  | .atLeast _ _, .all _ => isFalse (by intro e; cases e)
  | .weightedAtLeast _ _, .voter _ => isFalse (by intro e; cases e)
  | .weightedAtLeast _ _, .atLeast _ _ => isFalse (by intro e; cases e)
  | .weightedAtLeast _ _, .all _ => isFalse (by intro e; cases e)
  | .all _, .voter _ => isFalse (by intro e; cases e)
  | .all _, .atLeast _ _ => isFalse (by intro e; cases e)
  | .all _, .weightedAtLeast _ _ => isFalse (by intro e; cases e)

def decEq_list : (as bs : List QuorumPredicate) → Decidable (as = bs)
  | [], [] => isTrue rfl
  | [], _ :: _ => isFalse (by intro e; cases e)
  | _ :: _, [] => isFalse (by intro e; cases e)
  | a :: as, b :: bs =>
    match decEq a b, decEq_list as bs with
    | isTrue h, isTrue hs => isTrue (by rw [h, hs])
    | isFalse h, _ => isFalse (by intro e; cases e; exact h rfl)
    | _, isFalse hs => isFalse (by intro e; cases e; exact hs rfl)

end

instance : DecidableEq QuorumPredicate := decEq

/-- Whether the voter's bit is set, for the voter-to-bit assignment of one plan. -/
def bitSet (acknowledged : Nat) (voterBits : List (NodeId × Nat)) (voter : NodeId) : Bool :=
  match lookup voter voterBits with
  | some bit => acknowledged.testBit bit
  | none => false

/-- Checked `u32` sum of the weights of the acknowledged voters. -/
def acknowledgedWeight (acknowledged : Nat) (voterBits : List (NodeId × Nat)) :
    Nat → List WeightedVoter → Option Nat
  | total, [] => some total
  | total, w :: ws =>
    if bitSet acknowledged voterBits w.voter then
      if total + w.weight ≤ u32Max then
        acknowledgedWeight acknowledged voterBits (total + w.weight) ws
      else none
    else acknowledgedWeight acknowledged voterBits total ws

mutual

def evaluate (acknowledged : Nat) (voterBits : List (NodeId × Nat)) : QuorumPredicate → Bool
  | .voter v => bitSet acknowledged voterBits v
  | .atLeast threshold children => threshold ≤ countQualified acknowledged voterBits children
  | .weightedAtLeast threshold voters =>
    match acknowledgedWeight acknowledged voterBits 0 voters with
    | some total => threshold ≤ total
    | none => false
  | .all children => allQualified acknowledged voterBits children

def countQualified (acknowledged : Nat) (voterBits : List (NodeId × Nat)) : List QuorumPredicate → Nat
  | [] => 0
  | c :: cs =>
    (if evaluate acknowledged voterBits c then 1 else 0) + countQualified acknowledged voterBits cs

def allQualified (acknowledged : Nat) (voterBits : List (NodeId × Nat)) : List QuorumPredicate → Bool
  | [] => true
  | c :: cs => evaluate acknowledged voterBits c && allQualified acknowledged voterBits cs

end

/-- Checks one weighted threshold, summing the weights in `u32` and refusing a repeated voter. -/
def validateWeighted (voters : OrdSet NodeId) :
    Nat → OrdSet NodeId → List WeightedVoter → Except QuorumPlanError (Nat × OrdSet NodeId)
  | total, referenced, [] => .ok (total, referenced)
  | total, referenced, w :: ws =>
    if w.weight = 0 ∨ w.voter ∉ voters ∨ w.voter ∈ referenced then .error .invalidPredicate
    else if total + w.weight ≤ u32Max then
      validateWeighted voters (total + w.weight) (referenced.insert w.voter) ws
    else .error .invalidPredicate

mutual

/-- Validates one node; returns the referenced voters and the running node count. -/
def validateNode (voters : OrdSet NodeId) (depth nodeCount : Nat) :
    QuorumPredicate → Except QuorumPlanError (OrdSet NodeId × Nat)
  | .voter v =>
    if depth > maximumPredicateDepth ∨ nodeCount + 1 > maximumPredicateNodes then
      .error .invalidPredicate
    else if v ∈ voters then .ok (OrdSet.singleton v, nodeCount + 1) else .error .invalidMember
  | .atLeast threshold children =>
    if depth > maximumPredicateDepth ∨ nodeCount + 1 > maximumPredicateNodes then
      .error .invalidPredicate
    else if threshold = 0 ∨ threshold > children.length then .error .invalidPredicate
    else if children.isEmpty then .error .invalidPredicate
    else validateDisjointChildren voters depth (nodeCount + 1) OrdSet.empty children
  | .all children =>
    if depth > maximumPredicateDepth ∨ nodeCount + 1 > maximumPredicateNodes then
      .error .invalidPredicate
    else if children.isEmpty then .error .invalidPredicate
    else validateDisjointChildren voters depth (nodeCount + 1) OrdSet.empty children
  | .weightedAtLeast threshold weighted =>
    if depth > maximumPredicateDepth ∨ nodeCount + 1 > maximumPredicateNodes then
      .error .invalidPredicate
    else if threshold = 0 ∨ weighted.isEmpty then .error .invalidPredicate
    else
      match validateWeighted voters 0 OrdSet.empty weighted with
      | .error e => .error e
      | .ok (total, referenced) =>
        if threshold > total then .error .invalidPredicate else .ok (referenced, nodeCount + 1)

/-- Validates children left to right, refusing a voter referenced by two of them. -/
def validateDisjointChildren (voters : OrdSet NodeId) (depth nodeCount : Nat)
    (referenced : OrdSet NodeId) : List QuorumPredicate → Except QuorumPlanError (OrdSet NodeId × Nat)
  | [] => .ok (referenced, nodeCount)
  | c :: cs =>
    match validateNode voters (depth + 1) nodeCount c with
    | .error e => .error e
    | .ok (childReferences, count) =>
      if referenced.isDisjoint childReferences then
        validateDisjointChildren voters depth count (referenced.union childReferences) cs
      else .error .invalidPredicate

end

def validate (predicate : QuorumPredicate) (voters : OrdSet NodeId) :
    Except QuorumPlanError (OrdSet NodeId) :=
  (validateNode voters 1 0 predicate).map Prod.fst

/-- Frames the sorted child encodings of a composite predicate. -/
def compositeBytes (tag threshold : Nat) (encoded : List (List Nat)) : List Nat :=
  let sorted := encoded.insertionSort fun a b => bytesLe a b = true
  tag :: beBytes 8 threshold ++ beBytes 8 sorted.length ++
    sorted.flatMap fun child => beBytes 8 child.length ++ child

def weightedBytes (threshold : Nat) (voters : List WeightedVoter) : List Nat :=
  let ordered := voters.insertionSort fun a b => a.voter ≤ b.voter
  3 :: beBytes 4 threshold ++ beBytes 8 ordered.length ++
    ordered.flatMap fun item => beBytes 16 item.voter ++ beBytes 2 item.weight

mutual

/-- Canonical predicate encoding, independent of the order children were written in. -/
def predicateBytes : QuorumPredicate → List Nat
  | .voter v => 1 :: beBytes 16 v
  | .atLeast threshold children => compositeBytes 2 threshold (predicatesBytes children)
  | .weightedAtLeast threshold voters => weightedBytes threshold voters
  | .all children => compositeBytes 4 children.length (predicatesBytes children)

def predicatesBytes : List QuorumPredicate → List (List Nat)
  | [] => []
  | c :: cs => predicateBytes c :: predicatesBytes cs

end

end QuorumPredicate

/-! ## Plans and the exhaustive compiler -/

structure QuorumPlanSpec where
  (planId formatVersion membershipEpoch : Nat)
  (voters learners eligibleLeaders : OrdSet NodeId)
  (election commit read : QuorumPredicate)
deriving DecidableEq

inductive QuorumFamily where
  | election
  | commit
  | read
deriving DecidableEq

namespace VoterSet

/-- Reports whether a set contains every voter in `required`. -/
def contains (set required : Nat) : Bool := set &&& required = required

def intersects (a b : Nat) : Bool := a &&& b ≠ 0

/-- The bits, from `index` on, of the ordered voters that are among `nodes`. -/
def fromNodesAt (nodes : OrdSet NodeId) : Nat → List NodeId → Nat
  | _, [] => 0
  | index, v :: vs =>
    (if v ∈ nodes then 1 <<< index else 0) ||| fromNodesAt nodes (index + 1) vs

def fromNodes (ordered : List NodeId) (nodes : OrdSet NodeId) : Nat := fromNodesAt nodes 0 ordered

def toNodesAt (set : Nat) : Nat → List NodeId → List NodeId
  | _, [] => []
  | index, v :: vs => (if set.testBit index then [v] else []) ++ toNodesAt set (index + 1) vs

def toNodes (set : Nat) (ordered : List NodeId) : OrdSet NodeId :=
  OrdSet.ofList (toNodesAt set 0 ordered)

end VoterSet

structure FamilyProof where
  (minimalQuorums minimalCutSets : List Nat)
deriving DecidableEq

def FamilyProof.satisfies (family : FamilyProof) (acknowledgements : Nat) : Bool :=
  family.minimalQuorums.any (VoterSet.contains acknowledgements ·)

def reduceMinimal (sets : List Nat) : List Nat :=
  sets.filter fun candidate =>
    !sets.any (fun other => decide (other ≠ candidate) && VoterSet.contains candidate other)

def compileFamily (predicate : QuorumPredicate) (voterBits : List (NodeId × Nat))
    (voterCount : Nat) : Except QuorumPlanError FamilyProof :=
  let setCount := 1 <<< voterCount
  let satisfying := (List.range' 1 (setCount - 1)).filter
    (predicate.evaluate · voterBits)
  if satisfying.isEmpty then .error .noQuorum
  else
    let minimalQuorums := reduceMinimal satisfying
    let full := setCount - 1
    let blocking := (List.range' 1 (setCount - 1)).filter fun removed =>
      !minimalQuorums.any (VoterSet.contains (full &&& (65535 ^^^ removed)) ·)
    .ok { minimalQuorums, minimalCutSets := reduceMinimal blocking }

def intersectsAll (left right : List Nat) : Bool :=
  left.all fun first => right.all (VoterSet.intersects first ·)

def proveIntersections (election commit read : FamilyProof) : Except QuorumPlanError Unit :=
  if intersectsAll election.minimalQuorums election.minimalQuorums &&
      intersectsAll election.minimalQuorums commit.minimalQuorums &&
      intersectsAll election.minimalQuorums read.minimalQuorums then .ok ()
  else .error .unsafeIntersection

def validateMembership (voters learners : OrdSet NodeId) : Except QuorumPlanError Unit :=
  if voters.isEmpty ∨ voters.card > maximumVoters ∨ learners.card > maximumLearners ∨
      ¬ voters.isDisjoint learners then .error .invalidPlan
  else .ok ()

variable (spec : QuorumPlanSpec)

def validateHeader : Except QuorumPlanError Unit := do
  validateMembership spec.voters spec.learners
  if spec.formatVersion = 0 ∨ spec.membershipEpoch = 0 ∨ spec.eligibleLeaders.isEmpty ∨
      ¬ spec.eligibleLeaders.isSubset spec.voters then .error .invalidPlan
  else .ok ()

structure PlanParts where
  spec : QuorumPlanSpec
  orderedVoters : List NodeId
  (election commit read : FamilyProof)
  proofDigest : Digest
deriving DecidableEq

def planDigest (orderedVoters : List NodeId) (election commit read : FamilyProof) : Digest :=
  .quorumPlan spec.planId spec.formatVersion spec.membershipEpoch orderedVoters
    spec.learners.elems spec.eligibleLeaders.elems
    [spec.election.predicateBytes, spec.commit.predicateBytes, spec.read.predicateBytes]
    [(election.minimalQuorums, election.minimalCutSets),
      (commit.minimalQuorums, commit.minimalCutSets), (read.minimalQuorums, read.minimalCutSets)]

def compileParts : Except QuorumPlanError PlanParts := do
  validateHeader spec
  let orderedVoters := spec.voters.elems
  let voterBits := orderedVoters.zipIdx
  let _ ← spec.election.validate spec.voters
  let _ ← spec.commit.validate spec.voters
  let _ ← spec.read.validate spec.voters
  let election ← compileFamily spec.election voterBits orderedVoters.length
  let commit ← compileFamily spec.commit voterBits orderedVoters.length
  let read ← compileFamily spec.read voterBits orderedVoters.length
  proveIntersections election commit read
  .ok { spec, orderedVoters, election, commit, read,
        proofDigest := planDigest spec orderedVoters election commit read }

/-- Fully verified canonical plan: the parts, and that the compiler accepted their source. -/
structure CompiledQuorumPlan extends PlanParts where
  compiled : compileParts spec = .ok toPlanParts
deriving DecidableEq

theorem compileParts_spec {spec : QuorumPlanSpec} {parts : PlanParts}
    (h : compileParts spec = .ok parts) : parts.spec = spec := by
  unfold compileParts at h
  simp only [bind, Except.bind] at h
  repeat' split at h
  all_goals first
    | cases h; rfl
    | cases h

def compilePlan : Except QuorumPlanError CompiledQuorumPlan :=
  match h : compileParts spec with
  | .error e => .error e
  | .ok parts => .ok ⟨parts, by rw [compileParts_spec h]; exact h⟩

namespace CompiledQuorumPlan

def members (plan : CompiledQuorumPlan) : OrdSet NodeId := plan.spec.voters.union plan.spec.learners

def family (plan : CompiledQuorumPlan) : QuorumFamily → FamilyProof
  | .election => plan.election
  | .commit => plan.commit
  | .read => plan.read

/-- Evaluates already-authenticated acknowledgements against one compiled family. -/
def satisfies (plan : CompiledQuorumPlan) (family : QuorumFamily)
    (acknowledgements : OrdSet NodeId) : Bool :=
  (plan.family family).satisfies (VoterSet.fromNodes plan.orderedVoters acknowledgements)

end CompiledQuorumPlan

/-! ## The joint phase -/

/-- Evidence that two compiled plans may enter joint membership. -/
structure JointTransitionProof where
  (oldEpoch newEpoch : Nat)
  proofDigest : Digest
deriving DecidableEq

def nodeSets (plan : CompiledQuorumPlan) (family : QuorumFamily) : List (OrdSet NodeId) :=
  (plan.family family).minimalQuorums.map (VoterSet.toNodes · plan.orderedVoters)

def setsIntersectAll (left right : List (OrdSet NodeId)) : Bool :=
  left.all fun first => right.all (!first.isDisjoint ·)

def composeJoint (old new : List (OrdSet NodeId)) : List (OrdSet NodeId) :=
  let candidates := old.flatMap fun oldSet => new.map (oldSet.union ·)
  candidates.filter fun candidate =>
    !candidates.any (fun other => decide (other ≠ candidate) && other.isSubset candidate)

def proveJointTransition (old new : CompiledQuorumPlan) : Except QuorumPlanError JointTransitionProof :=
  if new.spec.membershipEpoch ≤ old.spec.membershipEpoch then .error .unsafeTransition
  else
    let oldElection := nodeSets old .election
    let oldCommit := nodeSets old .commit
    let newElection := nodeSets new .election
    let newCommit := nodeSets new .commit
    let jointElection := composeJoint oldElection newElection
    let jointCommit := composeJoint oldCommit newCommit
    let jointRead := composeJoint (nodeSets old .read) (nodeSets new .read)
    let safe := setsIntersectAll oldElection jointCommit && setsIntersectAll jointElection oldCommit &&
      setsIntersectAll jointElection jointElection && setsIntersectAll jointElection jointCommit &&
      setsIntersectAll jointRead jointElection && setsIntersectAll jointElection newCommit &&
      setsIntersectAll newElection jointCommit
    if safe then
      .ok { oldEpoch := old.spec.membershipEpoch, newEpoch := new.spec.membershipEpoch
            proofDigest := .jointTransition old.proofDigest new.proofDigest
              old.spec.membershipEpoch new.spec.membershipEpoch }
    else .error .unsafeTransition

/-- Verified old+new joint phase; every decision must satisfy both plans. -/
structure JointQuorumPlan where
  (old new : CompiledQuorumPlan)
  proof : JointTransitionProof
  adjacent : new.spec.membershipEpoch = saturatingAdd old.spec.membershipEpoch 1
  proved : proveJointTransition old new = .ok proof
deriving DecidableEq

namespace JointQuorumPlan

def new? (old new : CompiledQuorumPlan) : Option JointQuorumPlan :=
  if adjacent : new.spec.membershipEpoch = saturatingAdd old.spec.membershipEpoch 1 then
    match proved : proveJointTransition old new with
    | .error _ => none
    | .ok proof => some { old, new, proof, adjacent, proved }
  else none

/-- A digest distinct from both stable plan digests. -/
def proofDigest (plan : JointQuorumPlan) : Digest :=
  .activeJoint plan.old.proofDigest plan.new.proofDigest plan.proof.proofDigest

/-- The new membership epoch used by joint-phase messages. -/
def membershipEpoch (plan : JointQuorumPlan) : Nat := plan.proof.newEpoch

def satisfies (plan : JointQuorumPlan) (family : QuorumFamily)
    (acknowledgements : OrdSet NodeId) : Bool :=
  plan.old.satisfies family acknowledgements && plan.new.satisfies family acknowledgements

def members (plan : JointQuorumPlan) : OrdSet NodeId := plan.old.members.union plan.new.members

/-- Only nodes eligible under both plans may lead during transition. -/
def eligibleLeaders (plan : JointQuorumPlan) : OrdSet NodeId :=
  plan.old.spec.eligibleLeaders.inter plan.new.spec.eligibleLeaders

end JointQuorumPlan

/-- Stable or joint quorum phase that must survive process and host restart exactly. -/
inductive ActiveQuorumPlan where
  | stable (plan : CompiledQuorumPlan)
  | joint (plan : JointQuorumPlan)
deriving DecidableEq

namespace ActiveQuorumPlan

def membershipEpoch : ActiveQuorumPlan → Nat
  | .stable plan => plan.spec.membershipEpoch
  | .joint plan => plan.membershipEpoch

def proofDigest : ActiveQuorumPlan → Digest
  | .stable plan => plan.proofDigest
  | .joint plan => plan.proofDigest

def members : ActiveQuorumPlan → OrdSet NodeId
  | .stable plan => plan.members
  | .joint plan => plan.members

def voters : ActiveQuorumPlan → OrdSet NodeId
  | .stable plan => plan.spec.voters
  | .joint plan => plan.old.spec.voters.union plan.new.spec.voters

def satisfies : ActiveQuorumPlan → QuorumFamily → OrdSet NodeId → Bool
  | .stable plan => plan.satisfies
  | .joint plan => plan.satisfies

def eligibleLeaders : ActiveQuorumPlan → OrdSet NodeId
  | .stable plan => plan.spec.eligibleLeaders
  | .joint plan => plan.eligibleLeaders

/-- The stable plan used to validate construction identities during recovery. -/
def recoveryConfigurationPlan : ActiveQuorumPlan → CompiledQuorumPlan
  | .stable plan => plan
  | .joint plan => plan.old

end ActiveQuorumPlan

end MeshSpan
