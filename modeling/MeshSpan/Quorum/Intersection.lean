import MeshSpan.Quorum.Plan

/- What the compiled intersections give: an election quorum meets every election,
   commit and read quorum of the same phase and of the neighbouring phase.

   What is proved:
     1. `CompiledQuorumPlan.election_meets`: inside one compiled plan.
     2. `satisfies_congr_of_digest`: plans with one proof digest decide alike.
     3. `ActiveQuorumPlan.election_meets`: inside one active phase.
     4. `ActiveQuorumPlan.successor_meets`: across one activation, in both directions.

   The cross-phase facts rest only on each plan's own intersections, since a
   joint decision satisfies both of its plans. -/

namespace MeshSpan

open Ordered CompiledQuorumPlan

/-! ## Bit sets -/

namespace VoterSet

theorem testBit_fromNodesAt (nodes : OrdSet NodeId) (b : Nat) : ∀ (l : List NodeId) (i : Nat),
    (fromNodesAt nodes i l).testBit b = true ↔ ∃ j v, b = i + j ∧ l[j]? = some v ∧ v ∈ nodes
  | [], i => by simp [fromNodesAt]
  | v :: vs, i => by
    rw [fromNodesAt, Nat.testBit_or, Bool.or_eq_true, testBit_fromNodesAt nodes b vs (i + 1)]
    constructor
    · rintro (h | ⟨j, w, hb, hw, hmem⟩)
      · split at h
        · rename_i hv
          rw [Nat.one_shiftLeft, Nat.testBit_two_pow, decide_eq_true_eq] at h
          exact ⟨0, v, by omega, rfl, hv⟩
        · simp at h
      · exact ⟨j + 1, w, by omega, by simpa using hw, hmem⟩
    · rintro ⟨j, w, hb, hw, hmem⟩
      cases j with
      | zero =>
        left
        have hvw : v = w := by simpa using hw
        subst hvw
        rw [if_pos hmem, Nat.one_shiftLeft, Nat.testBit_two_pow, decide_eq_true_eq]
        omega
      | succ j => exact .inr ⟨j, w, by omega, by simpa using hw, hmem⟩

variable {b : Nat}

theorem testBit_fromNodes {ordered : List NodeId} {nodes : OrdSet NodeId} :
    (fromNodes ordered nodes).testBit b = true ↔ ∃ v, ordered[b]? = some v ∧ v ∈ nodes := by
  rw [fromNodes, testBit_fromNodesAt]
  constructor
  · rintro ⟨j, v, hb, hv, hmem⟩
    have hbj : b = j := by omega
    exact ⟨v, by rw [hbj]; exact hv, hmem⟩
  · rintro ⟨v, hv, hmem⟩
    exact ⟨b, v, by omega, hv, hmem⟩

theorem testBit_of_contains {set required : Nat} (h : contains set required)
    (hb : required.testBit b) : set.testBit b = true := by
  have heq : set &&& required = required := by simpa [contains] using h
  have hand : (set &&& required).testBit b = true := by rw [heq]; exact hb
  rw [Nat.testBit_and, Bool.and_eq_true] at hand
  exact hand.1

theorem exists_testBit_of_intersects {a : Nat} (h : intersects a b) :
    ∃ i, a.testBit i = true ∧ b.testBit i = true := by
  have hne : a &&& b ≠ 0 := by simpa [intersects] using h
  obtain ⟨i, hi⟩ := Nat.exists_testBit_of_ne_zero hne
  rw [Nat.testBit_and, Bool.and_eq_true] at hi
  exact ⟨i, hi⟩

end VoterSet

/-! ## One compiled plan -/

/-- Everything the compiler established about the parts it returned. -/
structure PlanFacts (parts : PlanParts) : Prop where
  ordered : parts.orderedVoters = parts.spec.voters.elems
  digest : parts.proofDigest =
    planDigest parts.spec parts.orderedVoters parts.election parts.commit parts.read
  electionElection : intersectsAll parts.election.minimalQuorums parts.election.minimalQuorums = true
  electionCommit : intersectsAll parts.election.minimalQuorums parts.commit.minimalQuorums = true
  electionRead : intersectsAll parts.election.minimalQuorums parts.read.minimalQuorums = true
  epochPositive : parts.spec.membershipEpoch ≠ 0
  eligible : parts.spec.eligibleLeaders.isSubset parts.spec.voters = true

theorem proveIntersections_ok {election commit read : FamilyProof} {u : Unit}
    (h : proveIntersections election commit read = .ok u) :
    intersectsAll election.minimalQuorums election.minimalQuorums = true ∧
    intersectsAll election.minimalQuorums commit.minimalQuorums = true ∧
    intersectsAll election.minimalQuorums read.minimalQuorums = true := by
  obtain ⟨hsafe, h⟩ := admit_ok.mp h
  simpa [Bool.and_eq_true, and_assoc] using hsafe

variable {spec : QuorumPlanSpec} {p q : CompiledQuorumPlan}

theorem validateHeader_ok {u : Unit} (h : validateHeader spec = .ok u) :
    spec.membershipEpoch ≠ 0 ∧ spec.eligibleLeaders.isSubset spec.voters = true := by
  unfold validateHeader at h
  simp only [bind, Except.bind] at h
  split at h
  · cases h
  split at h
  · cases h
  · rename_i hok
    simp only [not_or, not_not] at hok
    exact ⟨hok.2.1, hok.2.2.2⟩

theorem compileParts_facts {parts : PlanParts} (h : compileParts spec = .ok parts) : PlanFacts parts := by
  unfold compileParts at h
  simp only [bind, Except.bind] at h
  split at h
  · cases h
  rename_i hheader
  repeat' split at h
  all_goals first
    | cases h; done
    | skip
  rename_i hsafe
  cases h
  obtain ⟨hepoch, heligible⟩ := validateHeader_ok hheader
  obtain ⟨hee, hec, her⟩ := proveIntersections_ok hsafe
  exact ⟨rfl, rfl, hee, hec, her, hepoch, heligible⟩

namespace CompiledQuorumPlan

variable (plan : CompiledQuorumPlan)

theorem facts : PlanFacts plan.toPlanParts :=
  compileParts_facts plan.compiled

theorem election_meets {family : QuorumFamily} {a b : OrdSet NodeId}
    (ha : plan.satisfies .election a) (hb : plan.satisfies family b) :
    ∃ v, v ∈ a ∧ v ∈ b := by
  obtain ⟨p, hp, hap⟩ := List.any_eq_true.mp ha
  obtain ⟨q, hq, hbq⟩ := List.any_eq_true.mp hb
  have hall : intersectsAll plan.election.minimalQuorums (plan.family family).minimalQuorums = true := by
    cases family
    · exact plan.facts.electionElection
    · exact plan.facts.electionCommit
    · exact plan.facts.electionRead
  have hpq : VoterSet.intersects p q = true :=
    List.all_eq_true.mp (List.all_eq_true.mp hall p hp) q hq
  obtain ⟨i, hpi, hqi⟩ := VoterSet.exists_testBit_of_intersects hpq
  obtain ⟨v, hv, hva⟩ := VoterSet.testBit_fromNodes.mp (VoterSet.testBit_of_contains hap hpi)
  obtain ⟨w, hw, hwb⟩ := VoterSet.testBit_fromNodes.mp (VoterSet.testBit_of_contains hbq hqi)
  have hvw : v = w := Option.some.inj (hv.symm.trans hw)
  exact ⟨v, hva, hvw ▸ hwb⟩

/-- Plans with one proof digest decide alike and have the same epoch. -/
theorem satisfies_congr_of_digest (h : p.proofDigest = q.proofDigest) (family : QuorumFamily)
    (a : OrdSet NodeId) : p.satisfies family a = q.satisfies family a := by
  have hd := p.facts.digest.symm.trans (h.trans q.facts.digest)
  simp only [planDigest, Digest.quorumPlan.injEq, List.cons.injEq, Prod.mk.injEq] at hd
  obtain ⟨_, _, _, hvoters, _, _, _, ⟨he, _⟩, ⟨hc, _⟩, ⟨hr, _⟩, _⟩ := hd
  unfold satisfies FamilyProof.satisfies
  cases family <;> simp only [family, hvoters, he, hc, hr]

theorem epoch_eq_of_digest (h : p.proofDigest = q.proofDigest) :
    p.spec.membershipEpoch = q.spec.membershipEpoch := by
  have hd := p.facts.digest.symm.trans (h.trans q.facts.digest)
  simp only [planDigest, Digest.quorumPlan.injEq] at hd
  exact hd.2.2.1

end CompiledQuorumPlan

/-! ## Active phases -/

theorem proveJointTransition_ok {old new : CompiledQuorumPlan} {proof : JointTransitionProof}
    (h : proveJointTransition old new = .ok proof) :
    old.spec.membershipEpoch < new.spec.membershipEpoch ∧
    proof.newEpoch = new.spec.membershipEpoch := by
  obtain ⟨hlt, h⟩ := guard_ok.mp h
  obtain ⟨-, h⟩ := admit_ok.mp h
  cases h
  exact ⟨by omega, rfl⟩

namespace JointQuorumPlan

variable (joint : JointQuorumPlan)

theorem epoch_eq : joint.membershipEpoch = joint.new.spec.membershipEpoch :=
  (proveJointTransition_ok joint.proved).2

theorem epoch_succ :
    joint.new.spec.membershipEpoch = joint.old.spec.membershipEpoch + 1 := by
  have hlt := (proveJointTransition_ok joint.proved).1
  have hadj := joint.adjacent
  unfold saturatingAdd at hadj
  omega

end JointQuorumPlan

namespace ActiveQuorumPlan

/-- The phase that activating a successor of `p` leads to: a joint plan over `p`, or the stable
plan a joint `p` announced. Plans are compared by proof digest, as activation does. -/
def Succeeds : ActiveQuorumPlan → ActiveQuorumPlan → Prop
  | .stable plan, .joint j => plan.proofDigest = j.old.proofDigest
  | .joint j, .stable plan => plan.proofDigest = j.new.proofDigest
  | .stable _, .stable _ => False
  | .joint _, .joint _ => False

/-- Position of a phase in the sequence stable, j, stable, … of one partition. -/
def phaseNumber : ActiveQuorumPlan → Nat
  | .stable plan => 2 * plan.spec.membershipEpoch
  | .joint j => 2 * j.membershipEpoch - 1

variable {p q : ActiveQuorumPlan}

theorem succeeds_phaseNumber (h : p.Succeeds q) : q.phaseNumber = p.phaseNumber + 1 := by
  cases p with
  | stable plan =>
    cases q with
    | stable plan' => exact h.elim
    | joint j =>
      have hepoch := epoch_eq_of_digest h
      have hsucc := j.epoch_succ
      have heq := j.epoch_eq
      simp only [phaseNumber]
      omega
  | joint j =>
    cases q with
    | joint j' => exact h.elim
    | stable plan =>
      have hepoch := epoch_eq_of_digest h
      have hsucc := j.epoch_succ
      have heq := j.epoch_eq
      simp only [phaseNumber]
      omega

/-- The digest carried by messages identifies the phase. -/
theorem phaseNumber_eq_of_digest (h : p.proofDigest = q.proofDigest) :
    p.phaseNumber = q.phaseNumber := by
  cases p with
  | stable plan =>
    cases q with
    | stable plan' =>
      have hepoch := epoch_eq_of_digest h
      simp only [phaseNumber, hepoch]
    | joint j =>
      have hd := plan.facts.digest.symm.trans h
      simp [planDigest, proofDigest, JointQuorumPlan.proofDigest] at hd
  | joint j =>
    cases q with
    | stable plan =>
      have hd := plan.facts.digest.symm.trans h.symm
      simp [planDigest, proofDigest, JointQuorumPlan.proofDigest] at hd
    | joint j' =>
      simp only [proofDigest, JointQuorumPlan.proofDigest, Digest.activeJoint.injEq] at h
      have hepoch := epoch_eq_of_digest h.2.1
      simp only [phaseNumber, j.epoch_eq, j'.epoch_eq, hepoch]

variable {family : QuorumFamily} {a b : OrdSet NodeId}

theorem election_meets (p : ActiveQuorumPlan)
    (ha : p.satisfies .election a) (hb : p.satisfies family b) : ∃ v, v ∈ a ∧ v ∈ b := by
  cases p with
  | stable plan => exact plan.election_meets ha hb
  | joint j =>
    simp only [satisfies, JointQuorumPlan.satisfies, Bool.and_eq_true] at ha hb
    exact j.old.election_meets ha.1 hb.1

/-- The stable plan that two consecutive phases share, up to its digest. -/
theorem succeeds_shared (h : p.Succeeds q) : ∃ plan : CompiledQuorumPlan, ∀ family (a : OrdSet NodeId),
      (p.satisfies family a = true → plan.satisfies family a = true) ∧
      (q.satisfies family a = true → plan.satisfies family a = true) := by
  cases p with
  | stable plan =>
    cases q with
    | stable plan' => exact h.elim
    | joint j =>
      refine ⟨plan, fun family a => ⟨id, fun hq => ?_⟩⟩
      simp only [satisfies, JointQuorumPlan.satisfies, Bool.and_eq_true] at hq
      rw [satisfies_congr_of_digest h]
      exact hq.1
  | joint j =>
    cases q with
    | joint j' => exact h.elim
    | stable plan =>
      refine ⟨plan, fun family a => ⟨fun hp => ?_, id⟩⟩
      simp only [satisfies, JointQuorumPlan.satisfies, Bool.and_eq_true] at hp
      rw [satisfies_congr_of_digest h]
      exact hp.2

/-- An election quorum of a phase meets every quorum of the next phase. -/
theorem successor_meets (h : p.Succeeds q)
    (ha : p.satisfies .election a) (hb : q.satisfies family b) : ∃ v, v ∈ a ∧ v ∈ b := by
  obtain ⟨plan, hplan⟩ := succeeds_shared h
  exact plan.election_meets ((hplan .election a).1 ha) ((hplan family b).2 hb)

theorem predecessor_meets (h : p.Succeeds q)
    (ha : q.satisfies .election a) (hb : p.satisfies family b) : ∃ v, v ∈ a ∧ v ∈ b := by
  obtain ⟨plan, hplan⟩ := succeeds_shared h
  exact plan.election_meets ((hplan .election a).2 ha) ((hplan family b).1 hb)

end ActiveQuorumPlan

end MeshSpan
