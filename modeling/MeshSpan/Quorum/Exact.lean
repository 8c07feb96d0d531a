import MeshSpan.Quorum.Intersection

/- Compiled quorum plans decide exactly what their predicates say.

   What is proved:
     1. `validateNode_closed`: a validated predicate is upward closed and fails on no
        acknowledgement at all; the checked weight sums never overflow.
     2. `compileFamily_satisfies`: the minimal quorums answer like the predicate.
     3. `compileFamily_cuts`: the minimal cut sets are the removals that block it.
     4. `compilation_exact`: all of this over acknowledging nodes.
     5. `joint_transition_exact`: a transition to a later epoch is always proved, and the
        composed minimal sets are those of the joint phase.

   Both reductions to minimal sets are `minimalMembers` of their inclusion order. -/

namespace MeshSpan

open Ordered VoterSet OrdSet

/-! ## Bit sets -/

namespace VoterSet

variable {set : Nat}

theorem contains_iff {required : Nat} :
    contains set required = true ↔ ∀ b, required.testBit b = true → set.testBit b = true := by
  constructor
  · exact fun h b hb => testBit_of_contains h hb
  · intro h
    refine decide_eq_true (Nat.eq_of_testBit_eq fun b => ?_)
    rw [Nat.testBit_and]
    cases hb : required.testBit b with
    | false => exact Bool.and_false _
    | true => rw [h b hb, Bool.and_self]

variable {a b : Nat} {voters : OrdSet NodeId}

theorem contains_trans {c : Nat} (h : contains a b) (h' : contains b c) :
    contains a c = true :=
  contains_iff.mpr fun i hi => contains_iff.mp h i (contains_iff.mp h' i hi)

theorem contains_refl (a : Nat) : contains a a = true := contains_iff.mpr fun _ h => h

theorem fromNodes_lt (ordered : List NodeId) (nodes : OrdSet NodeId) :
    fromNodes ordered nodes < 2 ^ ordered.length := by
  refine Nat.lt_pow_two_of_testBit _ (fun b hb => ?_)
  rw [← Bool.not_eq_true, testBit_fromNodes]
  rintro ⟨v, hv, -⟩
  rw [List.getElem?_eq_none hb] at hv
  cases hv

theorem mem_toNodesAt {v : NodeId} : ∀ {l : List NodeId} {i : Nat},
    v ∈ toNodesAt set i l ↔ ∃ j, l[j]? = some v ∧ set.testBit (i + j) = true
  | [], i => by simp [toNodesAt]
  | w :: ws, i => by
    rw [toNodesAt, List.mem_append, mem_toNodesAt]
    constructor
    · rintro (h | ⟨j, hj, hbit⟩)
      · split at h
        · rename_i hbit
          exact ⟨0, by rw [List.mem_singleton.mp h]; rfl, hbit⟩
        · cases h
      · exact ⟨j + 1, hj, by rwa [show i + (j + 1) = i + 1 + j by omega]⟩
    · rintro ⟨j, hj, hbit⟩
      cases j with
      | zero =>
        rw [add_zero] at hbit
        rw [if_pos hbit]
        exact .inl (List.mem_singleton.mpr (Option.some.inj hj).symm)
      | succ j => exact .inr ⟨j, hj, by rwa [show i + 1 + j = i + (j + 1) by omega]⟩

theorem toNodes_isSubset {ordered : List NodeId} {nodes : OrdSet NodeId} (h : set < 2 ^ ordered.length) :
    (toNodes set ordered).isSubset nodes = true ↔ contains (fromNodes ordered nodes) set = true := by
  rw [isSubset_iff, contains_iff]
  simp only [toNodes, mem_ofList, mem_toNodesAt, zero_add, testBit_fromNodes]
  constructor
  · intro sub b hb
    have hlt : b < ordered.length := by
      by_contra hge
      rw [Nat.testBit_lt_two_pow (lt_of_lt_of_le h (Nat.pow_le_pow_right (by omega) (by omega)))] at hb
      cases hb
    exact ⟨_, List.getElem?_eq_getElem hlt, sub _ ⟨b, List.getElem?_eq_getElem hlt, hb⟩⟩
  · rintro sub v ⟨b, hv, hb⟩
    obtain ⟨w, hw, mem⟩ := sub b hb
    rwa [Option.some.inj (hv.symm.trans hw)]

end VoterSet

/-- The reduction of the compiler keeps a set below every set it drops. -/
theorem exists_reduceMinimal_iff {sets : List Nat} {x : Nat} :
    (∃ m ∈ reduceMinimal sets, contains x m = true) ↔ ∃ m ∈ sets, contains x m = true :=
  exists_minimalMembers_iff (fun o c => contains c o) id (fun h h' => contains_trans h' h)
    (fun h ne => lt_of_le_of_ne ((decide_eq_true_iff.mp h) ▸ Nat.and_le_left) ne)

/-! ## Predicates -/

namespace QuorumPredicate

variable {bits : List (NodeId × Nat)}

/-- A predicate that more acknowledgements never falsify and that none at all never satisfies. -/
structure UpwardClosed (bits : List (NodeId × Nat)) (p : QuorumPredicate) : Prop where
  grows : ∀ {a b : Nat}, contains b a = true → p.evaluate a bits = true →
    p.evaluate b bits = true
  empty : p.evaluate 0 bits = false

theorem bitSet_grows {v : NodeId} (h : contains b a) (set : bitSet a bits v) :
    bitSet b bits v = true := by
  unfold bitSet at set ⊢
  split at set
  · exact contains_iff.mp h _ set
  · cases set

theorem bitSet_zero (v : NodeId) : bitSet 0 bits v = false := by
  unfold bitSet
  split
  · exact Nat.zero_testBit _
  · rfl

section

variable {children : List QuorumPredicate} (closed : ∀ c ∈ children, UpwardClosed bits c)

include closed

theorem countQualified_grows (h : contains b a) :
    countQualified a bits children ≤ countQualified b bits children := by
  induction children with
  | nil => exact le_rfl
  | cons c cs ih =>
    have rest := ih fun x hx => closed x (List.mem_cons_of_mem _ hx)
    have head := (closed c List.mem_cons_self).grows h
    simp only [countQualified]
    split
    · rename_i qualified
      rw [if_pos (head qualified)]
      omega
    · omega

theorem countQualified_zero : countQualified 0 bits children = 0 := by
  induction children with
  | nil => rfl
  | cons c cs ih =>
    simp [countQualified, (closed c List.mem_cons_self).empty,
      ih (fun x hx => closed x (List.mem_cons_of_mem _ hx))]

theorem allQualified_grows (h : contains b a)
    (all : allQualified a bits children) : allQualified b bits children = true := by
  induction children with
  | nil => rfl
  | cons c cs ih =>
    simp only [allQualified, Bool.and_eq_true] at all ⊢
    exact ⟨(closed c List.mem_cons_self).grows h all.1,
      ih (fun x hx => closed x (List.mem_cons_of_mem _ hx)) all.2⟩

end

variable (bits) in
/-- The checked sums of a validated threshold succeed, and more acknowledgements weigh no less. -/
theorem acknowledgedWeight_grows (h : contains b a) :
    ∀ {ws : List WeightedVoter} {total sum : Nat}
    {referenced seen : OrdSet NodeId}, validateWeighted voters total referenced ws = .ok (sum, seen) →
    ∀ {ta tb : Nat}, ta ≤ tb → tb ≤ total → ∃ ra rb, acknowledgedWeight a bits ta ws = some ra ∧
      acknowledgedWeight b bits tb ws = some rb ∧ ra ≤ rb
  | [], _, _, _, _, _, ta, tb, le, _ => ⟨ta, tb, rfl, rfl, le⟩
  | w :: ws, total, sum, referenced, seen, valid, ta, tb, le, within => by
    obtain ⟨-, valid⟩ := guard_ok.mp valid
    obtain ⟨fits, valid⟩ := admit_ok.mp valid
    have fitsA : ta + w.weight ≤ u32Max := by omega
    have fitsB : tb + w.weight ≤ u32Max := by omega
    unfold acknowledgedWeight
    rw [if_pos fitsA, if_pos fitsB]
    by_cases inA : bitSet a bits w.voter = true
    · rw [if_pos inA, if_pos (bitSet_grows h inA)]
      exact acknowledgedWeight_grows h valid (by omega) (by omega)
    · rw [if_neg inA]
      split
      · exact acknowledgedWeight_grows h valid (by omega) (by omega)
      · exact acknowledgedWeight_grows h valid le (by omega)

theorem acknowledgedWeight_zero : ∀ (ws : List WeightedVoter) (total : Nat),
    acknowledgedWeight 0 bits total ws = some total
  | [], _ => rfl
  | w :: ws, total => by simp [acknowledgedWeight, bitSet_zero, acknowledgedWeight_zero ws]

mutual

/-- Every validated predicate is upward closed. -/
theorem validateNode_closed : ∀ {p : QuorumPredicate} {depth count : Nat}
    {r : OrdSet NodeId × Nat}, validateNode voters depth count p = .ok r → UpwardClosed bits p
  | .voter v, _, _, _, _ => ⟨fun h set => bitSet_grows h set, bitSet_zero v⟩
  | .atLeast threshold children, _, _, _, valid => by
    obtain ⟨-, valid⟩ := guard_ok.mp valid
    obtain ⟨positive, valid⟩ := guard_ok.mp valid
    obtain ⟨-, valid⟩ := guard_ok.mp valid
    have closed := validateChildren_closed valid
    refine ⟨fun h qualified => ?_, ?_⟩
    · simp only [evaluate, decide_eq_true_eq] at qualified ⊢
      exact qualified.trans (countQualified_grows closed h)
    · simp only [evaluate, countQualified_zero closed, decide_eq_false_iff_not]
      omega
  | .weightedAtLeast threshold voters', _, _, _, valid => by
    obtain ⟨-, valid⟩ := guard_ok.mp valid
    obtain ⟨positive, valid⟩ := guard_ok.mp valid
    cases weighed : validateWeighted voters 0 empty voters' with
    | error err =>
      rw [weighed] at valid
      cases valid
    | ok sum =>
      refine ⟨fun h qualified => ?_, ?_⟩
      · obtain ⟨ra, rb, isA, isB, le⟩ :=
          acknowledgedWeight_grows bits h weighed (le_refl 0) (le_refl 0)
        simp only [evaluate, isA, isB, decide_eq_true_eq] at qualified ⊢
        exact qualified.trans le
      · simp only [evaluate, acknowledgedWeight_zero, decide_eq_false_iff_not]
        simp only [not_or] at positive
        omega
  | .all children, _, _, _, valid => by
    obtain ⟨-, valid⟩ := guard_ok.mp valid
    obtain ⟨nonempty, valid⟩ := guard_ok.mp valid
    have closed := validateChildren_closed valid
    refine ⟨fun h all => allQualified_grows closed h all, ?_⟩
    cases children with
    | nil => simp at nonempty
    | cons c cs => simp [evaluate, allQualified, (closed c List.mem_cons_self).empty]

theorem validateChildren_closed : ∀ {children : List QuorumPredicate}
    {depth count : Nat} {referenced : OrdSet NodeId} {r : OrdSet NodeId × Nat},
    validateDisjointChildren voters depth count referenced children = .ok r →
    ∀ c ∈ children, UpwardClosed bits c
  | [], _, _, _, _, _, _, mem => nomatch mem
  | c :: cs, depth, count, referenced, r, valid, x, mem => by
    unfold validateDisjointChildren at valid
    cases head : validateNode voters (depth + 1) count c with
    | error err =>
      rw [head] at valid
      cases valid
    | ok found =>
      rw [head] at valid
      obtain ⟨-, valid⟩ := admit_ok.mp valid
      rcases List.mem_cons.mp mem with same | inRest
      · rw [same]
        exact validateNode_closed head
      · exact validateChildren_closed valid x inRest

end

end QuorumPredicate

/-! ## One family -/

section

variable {p : QuorumPredicate} {bits : List (NodeId × Nat)} {n : Nat} {family : FamilyProof}

theorem mem_nonempty_sets {n set : Nat} : set ∈ List.range' 1 (1 <<< n - 1) ↔ set ≠ 0 ∧ set < 2 ^ n := by
  have := Nat.two_pow_pos n
  rw [List.mem_range'_1, Nat.one_shiftLeft]
  omega

theorem FamilyProof.satisfies_iff {x : Nat} :
    family.satisfies x = true ↔ ∃ m ∈ family.minimalQuorums, contains x m = true :=
  List.any_eq_true

theorem FamilyProof.satisfies_grows {a b : Nat} (h : contains b a)
    (quorum : family.satisfies a) : family.satisfies b = true := by
  obtain ⟨m, mem, inside⟩ := satisfies_iff.mp quorum
  exact satisfies_iff.mpr ⟨m, mem, contains_trans h inside⟩

/-- What is left of `n` voters without the removed ones. -/
def remaining (n removed : Nat) : Nat := (1 <<< n - 1) &&& (65535 ^^^ removed)

theorem testBit_remaining {removed b : Nat} (small : n ≤ 16) :
    (remaining n removed).testBit b = true ↔ b < n ∧ removed.testBit b = false := by
  rw [remaining, Nat.one_shiftLeft, Nat.testBit_and, Nat.testBit_two_pow_sub_one,
    show 65535 = 2 ^ 16 - 1 from rfl, Nat.testBit_xor, Nat.testBit_two_pow_sub_one]
  by_cases lt : b < n
  · simp [lt, show b < 16 by omega]
  · simp [lt]

section

variable (compiled : compileFamily p bits n = .ok family)

include compiled

theorem compileFamily_ok : ∃ full, p.evaluate full bits = true ∧ full ≠ 0 ∧ full < 2 ^ n ∧
    family.minimalQuorums = reduceMinimal
      ((List.range' 1 (1 <<< n - 1)).filter (p.evaluate · bits)) ∧
    family.minimalCutSets = reduceMinimal
      ((List.range' 1 (1 <<< n - 1)).filter fun removed => !family.satisfies (remaining n removed)) := by
  obtain ⟨some', compiled⟩ := guard_ok.mp compiled
  cases compiled
  obtain ⟨set, mem⟩ := List.exists_mem_of_ne_nil _ fun nil => some' (List.isEmpty_iff.mpr nil)
  obtain ⟨inRange, qualified⟩ := List.mem_filter.mp mem
  obtain ⟨ne, lt⟩ := mem_nonempty_sets.mp inRange
  exact ⟨set, qualified, ne, lt, rfl, rfl⟩

theorem compileFamily_bounded {m : Nat} (mem : m ∈ family.minimalQuorums) : m < 2 ^ n := by
  obtain ⟨-, -, -, -, quorums, -⟩ := compileFamily_ok compiled
  rw [quorums] at mem
  exact (mem_nonempty_sets.mp (List.mem_of_mem_filter (List.mem_of_mem_filter mem))).2

variable (closed : p.UpwardClosed bits)

include closed

/-- The minimal quorums of a family answer like its predicate. -/
theorem compileFamily_satisfies {x : Nat} (small : x < 2 ^ n) :
    family.satisfies x = p.evaluate x bits := by
  obtain ⟨-, -, -, -, quorums, -⟩ := compileFamily_ok compiled
  rw [Bool.eq_iff_iff, FamilyProof.satisfies_iff, quorums, exists_reduceMinimal_iff]
  constructor
  · rintro ⟨m, mem, inside⟩
    exact closed.grows inside (List.mem_filter.mp mem).2
  · intro qualified
    refine ⟨x, List.mem_filter.mpr ⟨mem_nonempty_sets.mpr ⟨?_, small⟩, qualified⟩, contains_refl x⟩
    rintro rfl
    rw [closed.empty] at qualified
    cases qualified

/-- The removals that contain a minimal cut set are those that leave no quorum. -/
theorem compileFamily_cuts (few : n ≤ 16) {removed : Nat} (small : removed < 2 ^ n) :
    (∃ cut ∈ family.minimalCutSets, contains removed cut = true) ↔
      family.satisfies (remaining n removed) = false := by
  obtain ⟨full, qualified, -, fits, -, cuts⟩ := compileFamily_ok compiled
  rw [cuts, exists_reduceMinimal_iff]
  constructor
  · rintro ⟨cut, mem, inside⟩
    rw [← Bool.not_eq_true]
    intro quorum
    refine absurd (FamilyProof.satisfies_grows ?_ quorum) (by simpa using (List.mem_filter.mp mem).2)
    refine contains_iff.mpr fun b hb => ?_
    obtain ⟨lt, kept⟩ := (testBit_remaining few).mp hb
    refine (testBit_remaining few).mpr ⟨lt, ?_⟩
    by_contra present
    rw [contains_iff.mp inside b (by simpa using present)] at kept
    cases kept
  · intro blocked
    refine ⟨removed, List.mem_filter.mpr ⟨mem_nonempty_sets.mpr ⟨?_, small⟩, by simp [blocked]⟩,
      contains_refl _⟩
    -- with nothing removed, the set that the compiler found satisfying is still there
    rintro rfl
    rw [← Bool.not_eq_true] at blocked
    refine blocked (FamilyProof.satisfies_grows (contains_iff.mpr fun b hb => ?_)
      ((compileFamily_satisfies compiled closed fits).trans qualified))
    refine (testBit_remaining few).mpr ⟨?_, Nat.zero_testBit b⟩
    by_contra ge
    rw [Nat.testBit_lt_two_pow (lt_of_lt_of_le fits (Nat.pow_le_pow_right (by omega) (by omega)))] at hb
    cases hb

end

end

/-! ## Compiled plans -/

def QuorumPlanSpec.predicate (spec : QuorumPlanSpec) : QuorumFamily → QuorumPredicate
  | .election => spec.election
  | .commit => spec.commit
  | .read => spec.read

theorem validate_closed {p : QuorumPredicate} {voters referenced : OrdSet NodeId}
    {bits : List (NodeId × Nat)} (h : p.validate voters = .ok referenced) : p.UpwardClosed bits := by
  obtain ⟨r, valid, -⟩ := map_eq_ok.mp h
  exact QuorumPredicate.validateNode_closed valid

namespace CompiledQuorumPlan

variable (plan : CompiledQuorumPlan) (family : QuorumFamily)

theorem voters_few : plan.spec.voters.elems.length ≤ maximumVoters := by
  have h := plan.compiled
  obtain ⟨_, header, -⟩ := bind_eq_ok.mp h
  obtain ⟨_, membership, -⟩ := bind_eq_ok.mp header
  obtain ⟨valid, -⟩ := guard_ok.mp membership
  simp only [not_or, not_lt] at valid
  exact valid.2.1

/-- A family of a compiled plan is the compiled form of an upward closed predicate. -/
theorem family_compiled : (plan.spec.predicate family).UpwardClosed plan.spec.voters.elems.zipIdx ∧
    compileFamily (plan.spec.predicate family) plan.spec.voters.elems.zipIdx
      plan.spec.voters.elems.length = .ok (plan.family family) := by
  have h := plan.compiled
  obtain ⟨-, -, _, validE, _, validC, _, validR, h⟩ := bind₄_eq_ok.mp h
  obtain ⟨election, isE, commit, isC, read, isR, -, -, h⟩ := bind₄_eq_ok.mp h
  have parts := Except.ok.inj h
  cases family with
  | election => exact ⟨validate_closed validE, isE.trans (congrArg (Except.ok ·.election) parts)⟩
  | commit => exact ⟨validate_closed validC, isC.trans (congrArg (Except.ok ·.commit) parts)⟩
  | read => exact ⟨validate_closed validR, isR.trans (congrArg (Except.ok ·.read) parts)⟩

theorem fromNodes_kept (removed : OrdSet NodeId) : fromNodes plan.spec.voters.elems
      (plan.spec.voters.filter fun v => decide (v ∉ removed)) =
    remaining plan.spec.voters.elems.length (fromNodes plan.spec.voters.elems removed) := by
  have few : plan.spec.voters.elems.length ≤ 16 := plan.voters_few.trans (by decide)
  refine Nat.eq_of_testBit_eq fun b => Bool.eq_iff_iff.mpr ?_
  rw [testBit_fromNodes, testBit_remaining few, ← Bool.not_eq_true, testBit_fromNodes]
  constructor
  · rintro ⟨v, at', kept⟩
    refine ⟨(List.getElem?_eq_some_iff.mp at').1, fun ⟨w, atW, gone⟩ => ?_⟩
    rw [← Option.some.inj (at'.symm.trans atW)] at gone
    simp [gone] at kept
  · rintro ⟨lt, kept⟩
    have at' := List.getElem?_eq_getElem lt
    refine ⟨_, at', mem_filter.mpr ⟨List.mem_of_getElem? at', ?_⟩⟩
    exact decide_eq_true fun gone => kept ⟨_, at', gone⟩

/-- A compiled plan decides what its predicates say about the acknowledging voters; its election
quorums meet the quorums of every family; and a removal leaves no quorum exactly if it contains a
minimal cut set. -/
theorem compilation_exact (plan : CompiledQuorumPlan) (family : QuorumFamily) :
    (∀ nodes, plan.satisfies family nodes = (plan.spec.predicate family).evaluate
      (VoterSet.fromNodes plan.spec.voters.elems nodes) plan.spec.voters.elems.zipIdx) ∧
    (∀ a b, plan.satisfies .election a = true → plan.satisfies family b = true →
      ∃ v, v ∈ a ∧ v ∈ b) ∧
    ∀ removed, (∀ nodes : OrdSet NodeId, (∀ v ∈ nodes, v ∉ removed) → plan.satisfies family nodes = false) ↔
      ∃ cut ∈ (plan.family family).minimalCutSets,
        VoterSet.contains (VoterSet.fromNodes plan.orderedVoters removed) cut = true := by
  obtain ⟨closed, compiled⟩ := plan.family_compiled family
  have few : plan.spec.voters.elems.length ≤ 16 := plan.voters_few.trans (by decide)
  have ordered := plan.facts.ordered
  refine ⟨fun nodes => ?_, fun a b ha hb => plan.election_meets ha hb, fun removed => ?_⟩
  · rw [satisfies, ordered, compileFamily_satisfies compiled closed (fromNodes_lt _ _)]
  · rw [ordered, compileFamily_cuts compiled closed few (fromNodes_lt _ _), ← fromNodes_kept,
      ← ordered]
    constructor
    · intro none
      exact none _ fun v kept => by simpa using (mem_filter.mp kept).2
    · intro blocked nodes apart
      rw [← Bool.not_eq_true] at blocked ⊢
      refine fun quorum => blocked (FamilyProof.satisfies_grows (contains_iff.mpr ?_) quorum)
      intro b hb
      obtain ⟨v, at', mem⟩ := testBit_fromNodes.mp hb
      refine testBit_fromNodes.mpr ⟨v, at', mem_filter.mpr ⟨?_, by simp [apart v mem]⟩⟩
      exact List.mem_of_getElem? (ordered ▸ at')

/-- A plan is satisfied by the supersets of its minimal node sets. -/
theorem satisfies_iff_nodeSets {plan : CompiledQuorumPlan} {family : QuorumFamily} {nodes : OrdSet NodeId} :
    plan.satisfies family nodes = true ↔ ∃ m ∈ nodeSets plan family, m.isSubset nodes = true := by
  obtain ⟨-, compiled⟩ := plan.family_compiled family
  rw [satisfies, FamilyProof.satisfies_iff, nodeSets]
  simp only [List.mem_map, exists_exists_and_eq_and]
  refine exists_congr fun m => and_congr_right fun mem => (toNodes_isSubset ?_).symm
  rw [plan.facts.ordered]
  exact compileFamily_bounded compiled mem

end CompiledQuorumPlan

/-! ## Joint phases -/

/-- The composed sets are below the same sets as a pair of old and new ones. -/
theorem exists_composeJoint_iff {old new : List (OrdSet NodeId)} {nodes : OrdSet NodeId} :
    (∃ m ∈ composeJoint old new, m.isSubset nodes = true) ↔
      (∃ m ∈ old, m.isSubset nodes = true) ∧ ∃ m ∈ new, m.isSubset nodes = true := by
  have reduced := exists_minimalMembers_iff isSubset card
    (l := old.flatMap fun oldSet => new.map (oldSet.union ·)) (x := nodes)
    (fun h h' => isSubset_iff.mpr fun k hk =>
      isSubset_iff.mp h' k (isSubset_iff.mp h k hk))
    card_lt_of_isSubset
  refine Iff.trans reduced ?_
  simp only [List.mem_flatMap, List.mem_map, isSubset_iff]
  constructor
  · rintro ⟨_, ⟨o, inOld, m, inNew, rfl⟩, sub⟩
    exact ⟨⟨o, inOld, fun k hk => sub k (mem_union.mpr (.inl hk))⟩,
      m, inNew, fun k hk => sub k (mem_union.mpr (.inr hk))⟩
  · rintro ⟨⟨o, inOld, subO⟩, m, inNew, subM⟩
    exact ⟨_, ⟨o, inOld, m, inNew, rfl⟩, fun k hk => (mem_union.mp hk).elim (subO k) (subM k)⟩

theorem setsIntersectAll_of {left right : List (OrdSet NodeId)}
    (h : ∀ a ∈ left, ∀ b ∈ right, ∃ v, v ∈ a ∧ v ∈ b) : setsIntersectAll left right = true := by
  simp only [setsIntersectAll, List.all_eq_true, Bool.not_eq_true']
  exact fun a inL b inR => isDisjoint_eq_false.mpr (h a inL b inR)

section

variable {old new : CompiledQuorumPlan} {family : QuorumFamily} {m : OrdSet NodeId}

theorem satisfies_of_nodeSets (mem : m ∈ nodeSets old family) : old.satisfies family m = true :=
  CompiledQuorumPlan.satisfies_iff_nodeSets.mpr ⟨m, mem, isSubset_iff.mpr fun _ h => h⟩

theorem satisfies_of_composeJoint (mem : m ∈ composeJoint (nodeSets old family) (nodeSets new family)) :
    old.satisfies family m = true ∧ new.satisfies family m = true := by
  obtain ⟨inOld, inNew⟩ := exists_composeJoint_iff.mp ⟨m, mem, isSubset_iff.mpr fun _ h => h⟩
  exact ⟨CompiledQuorumPlan.satisfies_iff_nodeSets.mpr inOld,
    CompiledQuorumPlan.satisfies_iff_nodeSets.mpr inNew⟩

/-- Two compiled plans always pass the intersection checks of a transition. -/
theorem proveJointTransition_total (later : old.spec.membershipEpoch < new.spec.membershipEpoch) :
    ∃ proof, proveJointTransition old new = .ok proof := by
  have oldMeets : ∀ {f a b}, old.satisfies .election a = true → old.satisfies f b = true →
      ∃ v, v ∈ a ∧ v ∈ b := old.election_meets
  have newMeets : ∀ {f a b}, new.satisfies .election a = true → new.satisfies f b = true →
      ∃ v, v ∈ a ∧ v ∈ b := new.election_meets
  unfold proveJointTransition
  rw [if_neg (by omega)]
  refine ⟨_, if_pos ?_⟩
  simp only [Bool.and_eq_true]
  refine ⟨⟨⟨⟨⟨⟨?_, ?_⟩, ?_⟩, ?_⟩, ?_⟩, ?_⟩, ?_⟩
  · exact setsIntersectAll_of fun a ha b hb =>
      oldMeets (satisfies_of_nodeSets ha) (satisfies_of_composeJoint hb).1
  · exact setsIntersectAll_of fun a ha b hb =>
      oldMeets (satisfies_of_composeJoint ha).1 (satisfies_of_nodeSets hb)
  · exact setsIntersectAll_of fun a ha b hb =>
      oldMeets (satisfies_of_composeJoint ha).1 (satisfies_of_composeJoint hb).1
  · exact setsIntersectAll_of fun a ha b hb =>
      oldMeets (satisfies_of_composeJoint ha).1 (satisfies_of_composeJoint hb).1
  · exact setsIntersectAll_of fun a ha b hb =>
      (oldMeets (satisfies_of_composeJoint hb).1 (satisfies_of_composeJoint ha).1).imp fun _ h => h.symm
  · exact setsIntersectAll_of fun a ha b hb =>
      newMeets (satisfies_of_composeJoint ha).2 (satisfies_of_nodeSets hb)
  · exact setsIntersectAll_of fun a ha b hb =>
      newMeets (satisfies_of_nodeSets ha) (satisfies_of_composeJoint hb).2

end

/-- A transition to a later epoch is never refused; a joint phase accepts exactly the supersets of
the composed minimal sets; and its elections meet the commits of all three phases and its reads. -/
theorem joint_transition_exact :
    (∀ old new : CompiledQuorumPlan, old.spec.membershipEpoch < new.spec.membershipEpoch →
      ∃ proof, proveJointTransition old new = .ok proof) ∧
    ∀ joint : JointQuorumPlan,
      (∀ family nodes, joint.satisfies family nodes = true ↔
        ∃ m ∈ composeJoint (nodeSets joint.old family) (nodeSets joint.new family),
          m.isSubset nodes = true) ∧
      ∀ a b, joint.satisfies .election a = true →
        joint.old.satisfies .commit b = true ∨ joint.satisfies .commit b = true ∨
          joint.new.satisfies .commit b = true ∨ joint.satisfies .read b = true →
        ∃ v, v ∈ a ∧ v ∈ b := by
  refine ⟨fun _ _ => proveJointTransition_total, fun joint => ⟨fun family nodes => ?_, fun a b ha hb => ?_⟩⟩
  · rw [exists_composeJoint_iff, JointQuorumPlan.satisfies, Bool.and_eq_true,
      CompiledQuorumPlan.satisfies_iff_nodeSets, CompiledQuorumPlan.satisfies_iff_nodeSets]
  · simp only [JointQuorumPlan.satisfies, Bool.and_eq_true] at ha hb
    rcases hb with old | ⟨old, -⟩ | new | ⟨old, -⟩
    · exact joint.old.election_meets ha.1 old
    · exact joint.old.election_meets ha.1 old
    · exact joint.new.election_meets ha.2 new
    · exact joint.old.election_meets ha.1 old

end MeshSpan
