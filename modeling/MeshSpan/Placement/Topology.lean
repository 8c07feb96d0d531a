import MeshSpan.Combination
import MeshSpan.Ordered

/- Fault topology and the exhaustive proof of simultaneous-loss scenarios
   (meshspan-domain, topology.rs).

   Correspondence (Rust ↔ Lean)
     Topology, FaultGroup, FaultGroupMember, groups_in_class, targets_affected_by,
     group_loss_sets, combinations, build_combinations, cartesian_union, prove_protection
     FailureScenario, ProtectionLayout  ↔  structures that carry what their `new` checks
   A topology is any registered one: the set of hosts only decides what may be
   registered. The members of a fault group are a set that is only walked to collect targets,
   so a duplicate-free list stands for the BTreeSet. `usize` products stay far below
   2^64, because both factors are bounded by the proof-work bound.

   Over the model stands what a scenario means: `IsLossSet` (exactly the given number
   of groups fails in every class of the scenario), `remaining` and `Survives`. The
   main result is `proveProtection_exact`: a returned proof counts all loss sets,
   gives the least number of slices any of them leaves, and says `survives` exactly
   when that is enough to decode. -/

namespace MeshSpan

open List

namespace Placement

open Ordered Combination

abbrev HostId := Nat
abbrev TargetId := Nat
abbrev FaultGroupId := Nat
abbrev FaultGroupClassId := Nat

def maxScenarioTerms : Nat := 16
def maxSlicesPerStripe : Nat := 24

inductive ProtectionError where
  | unknownResource
  | invalidScenario
  | insufficientTopology
  | invalidProofBound
  | proofBoundExceeded
  | invalidLayout
deriving DecidableEq

/-! ## Topology -/

inductive FaultGroupMember where
  | host (hostId : HostId)
  | target (targetId : TargetId)
deriving DecidableEq

structure FaultGroup where
  classId : FaultGroupClassId
  members : List FaultGroupMember

structure Topology where
  targetHosts : OrdMap TargetId HostId
  faultGroups : OrdMap FaultGroupId FaultGroup

namespace Topology

variable (topology : Topology)

def targetHost (target : TargetId) : Option HostId := topology.targetHosts.get? target

def groupsInClass (classId : FaultGroupClassId) : List FaultGroupId :=
  topology.faultGroups.entries.filterMap
    (fun entry => if entry.2.classId = classId then some entry.1 else none)

def targetsOn (host : HostId) : List TargetId :=
  topology.targetHosts.entries.filterMap fun entry => if entry.2 = host then some entry.1 else none

/-- Adds the targets one group member takes down. -/
def affect (targets : OrdSet TargetId) : FaultGroupMember → OrdSet TargetId
  | .host host => (topology.targetsOn host).foldl OrdSet.insert targets
  | .target target => targets.insert target

def targetsAffectedBy (failed : List FaultGroupId) : OrdSet TargetId :=
  failed.foldl (fun targets group =>
    match topology.faultGroups.get? group with
    | none => targets
    | some found => found.members.foldl topology.affect targets) OrdSet.empty

end Topology

/-! ## Scenarios and layouts -/

/-- One simultaneous term such as any two groups of the machine class. -/
structure FailureTerm where
  classId : FaultGroupClassId
  failureCount : Nat
deriving DecidableEq

/-- One protection promise whose terms occur simultaneously. -/
structure FailureScenario where
  terms : List FailureTerm
  nonempty : terms ≠ []
  bounded : terms.length ≤ maxScenarioTerms
  positive : ∀ term ∈ terms, term.failureCount ≠ 0
  distinct : (terms.map FailureTerm.classId).Nodup
deriving DecidableEq

/-- Slice locations and the number of slices needed to decode. -/
structure ProtectionLayout where
  requiredSlices : Nat
  sliceTargets : List TargetId
  positive : requiredSlices ≠ 0
  decodable : requiredSlices ≤ sliceTargets.length
  bounded : sliceTargets.length ≤ maxSlicesPerStripe

def ProtectionLayout.new (requiredSlices : Nat) (sliceTargets : List TargetId) :
    Except ProtectionError ProtectionLayout :=
  if h : requiredSlices ≠ 0 ∧ requiredSlices ≤ sliceTargets.length ∧
      sliceTargets.length ≤ maxSlicesPerStripe then
    .ok ⟨requiredSlices, sliceTargets, h.1, h.2.1, h.2.2⟩
  else .error .invalidLayout

variable {d : Nat}

theorem ProtectionLayout.new_ok {targets : List TargetId} {layout : ProtectionLayout}
    (h : ProtectionLayout.new d targets = .ok layout) :
    layout.requiredSlices = d ∧ layout.sliceTargets = targets := by
  unfold ProtectionLayout.new at h
  split at h
  · cases h
    exact ⟨rfl, rfl⟩
  · cases h

/-- Result of enumerating a failure scenario against one layout. -/
structure ProtectionProof where
  survives : Bool
  (evaluatedLossSets minimumRemainingSlices : Nat)

/-! ## Enumeration -/

/-- Appends every selection that extends `current`, up to the bound. The caller has checked that
`remaining` values are left, so the subtraction does not wrap. -/
def buildCombinations {α : Type} (values : List α) (maximumSets : Nat) :
    Nat → Nat → List α → List (List α) → Except ProtectionError (List (List α))
  | 0, _, current, output =>
    if output.length = maximumSets then .error .proofBoundExceeded else .ok (output ++ [current])
  | remaining + 1, start, current, output =>
    (rounds values start (values.length - (remaining + 1))).foldlM
      (fun output round =>
        buildCombinations values maximumSets remaining (round.2 + 1) (current ++ [round.1]) output) output

def combinations {α : Type} (values : List α) (count maximumSets : Nat) :
    Except ProtectionError (List (List α)) := buildCombinations values maximumSets count 0 [] []

/-- Every selection of the left list joined with every selection of the right one. -/
def joinAll {α : Type} (left right : List (List α)) : List (List α) :=
  left.flatMap fun first => right.map (first ++ ·)

def cartesianUnion {α : Type} (left right : List (List α)) (maximumSets : Nat) :
    Except ProtectionError (List (List α)) :=
  if left.length * right.length ≤ maximumSets then .ok (joinAll left right) else .error .proofBoundExceeded

variable (topology : Topology)

/-- One term of a scenario extends the loss sets of the terms before it. -/
def FailureScenario.addTerm (maximumSets : Nat)
    (combined : List (List FaultGroupId)) (term : FailureTerm) :
    Except ProtectionError (List (List FaultGroupId)) := do
  let groups := topology.groupsInClass term.classId
  if groups.length < term.failureCount then .error .insufficientTopology
  else
    let selections ← combinations groups term.failureCount maximumSets
    cartesianUnion combined selections maximumSets

variable (scenario : FailureScenario)

def FailureScenario.groupLossSets (topology : Topology)
    (maximumSets : Nat) : Except ProtectionError (List (List FaultGroupId)) :=
  if maximumSets = 0 then .error .invalidProofBound
  else scenario.terms.foldlM (FailureScenario.addTerm topology maximumSets) [[]]

variable (layout : ProtectionLayout)

def remainingSlices (groups : List FaultGroupId) : Nat :=
  let lostTargets := topology.targetsAffectedBy groups
  (layout.sliceTargets.filter fun target => decide (target ∉ lostTargets)).length

def proveProtection
    (maximumLossSets : Nat) : Except ProtectionError ProtectionProof :=
  if layout.sliceTargets.any (!topology.targetHosts.contains ·) then
    .error .unknownResource
  else do
    let lossSets ← scenario.groupLossSets topology maximumLossSets
    match (lossSets.map (remainingSlices topology layout)).min? with
    | none => .error .invalidScenario
    | some least =>
      .ok {
        survives := layout.requiredSlices ≤ least
        evaluatedLossSets := lossSets.length
        minimumRemainingSlices := least }

/-! ## What a scenario means -/

namespace Topology

def classOf (topology : Topology) (group : FaultGroupId) : Option FaultGroupClassId :=
  (topology.faultGroups.get? group).map FaultGroup.classId

def Hits (topology : Topology) (group : FaultGroupId) (target : TargetId) : Prop :=
  ∃ found, topology.faultGroups.get? group = some found ∧
    (FaultGroupMember.target target ∈ found.members ∨
      ∃ host, FaultGroupMember.host host ∈ found.members ∧ topology.targetHost target = some host)

end Topology

/-- Exactly the given number of groups has failed in every class of the terms, and no other group. -/
structure IsLossSet (topology : Topology) (terms : List FailureTerm) (lost : Finset FaultGroupId) :
    Prop where
  covered : ∀ group ∈ lost, ∃ term ∈ terms, topology.classOf group = some term.classId
  exact : ∀ term ∈ terms,
    (lost.filter (topology.classOf · = some term.classId)).card = term.failureCount

/-- At most the given number of groups has failed in every class of the terms, and no other group. -/
structure IsPartialLoss (topology : Topology) (terms : List FailureTerm) (lost : Finset FaultGroupId) :
    Prop where
  covered : ∀ group ∈ lost, ∃ term ∈ terms, topology.classOf group = some term.classId
  atMost : ∀ term ∈ terms,
    (lost.filter (topology.classOf · = some term.classId)).card ≤ term.failureCount

open scoped Classical in
/-- The slices on targets that no lost group takes down. -/
noncomputable def slicesLeft (slices : List TargetId) (lost : Finset FaultGroupId) :
    Nat := slices.countP fun target => ∀ group ∈ lost, ¬ topology.Hits group target

open scoped Classical in
noncomputable def remaining (targets : Finset TargetId)
    (lost : Finset FaultGroupId) : Finset TargetId :=
  targets.filter fun target => ∀ group ∈ lost, ¬ topology.Hits group target

open scoped Classical in
noncomputable def lossSets : Finset (Finset FaultGroupId) :=
  topology.faultGroups.keys.elems.toFinset.powerset.filter (IsLossSet topology scenario.terms)

/-- The scenario can happen, and whenever it does `d` of the targets remain. -/
def Survives (d : Nat) (targets : Finset TargetId) : Prop :=
  (lossSets topology scenario).Nonempty ∧
    ∀ lost ∈ lossSets topology scenario, d ≤ (remaining topology targets lost).card

/-- The proof says what enumerating every loss set of the scenario says: their number, the fewest
targets one of them leaves (zero when there is none), and whether `d` targets always remain. -/
structure ExactProof (topology : Topology) (scenario : FailureScenario) (d : Nat)
    (targets : Finset TargetId) (proof : ProtectionProof) : Prop where
  evaluated : proof.evaluatedLossSets = (lossSets topology scenario).card
  least : ∀ lost ∈ lossSets topology scenario,
    proof.minimumRemainingSlices ≤ (remaining topology targets lost).card
  attained : if (lossSets topology scenario).Nonempty then
      ∃ lost ∈ lossSets topology scenario,
        (remaining topology targets lost).card = proof.minimumRemainingSlices
    else proof.minimumRemainingSlices = 0
  survives : proof.survives = true ↔ Survives topology scenario d targets

variable {topology : Topology} {scenario : FailureScenario}

theorem Survives.mono
    {few many : Finset TargetId} (survives : Survives topology scenario d few) (more : few ⊆ many) :
    Survives topology scenario d many := by
  classical
  refine ⟨survives.1, fun lost member => (survives.2 lost member).trans ?_⟩
  exact Finset.card_le_card (Finset.filter_subset_filter _ more)

theorem Survives.le_card
    {targets : Finset TargetId} (survives : Survives topology scenario d targets) : d ≤ targets.card := by
  classical
  obtain ⟨lost, member⟩ := survives.1
  exact (survives.2 lost member).trans (Finset.card_le_card (Finset.filter_subset _ _))

theorem mem_lossSets {lost : Finset FaultGroupId} :
    lost ∈ lossSets topology scenario ↔ IsLossSet topology scenario.terms lost := by
  classical
  rw [lossSets, Finset.mem_filter, Finset.mem_powerset, and_iff_right_iff_imp]
  intro isLoss group member
  obtain ⟨term, -, classed⟩ := isLoss.covered group member
  obtain ⟨found, get, -⟩ := Option.map_eq_some_iff.mp classed
  exact mem_toFinset.mpr (OrdMap.mem_keys.mpr ⟨found, get⟩)

/-! ## The enumeration is complete -/

section Enumeration

variable {topology : Topology} {group : FaultGroupId} {term : FailureTerm}

theorem mem_groupsInClass {classId : FaultGroupClassId} :
    group ∈ topology.groupsInClass classId ↔ topology.classOf group = some classId := by
  simp only [Topology.groupsInClass, mem_filterMap, Topology.classOf, Option.map_eq_some_iff,
    OrdMap.get?_eq_some_iff]
  constructor
  · rintro ⟨⟨g, found⟩, member, kept⟩
    split at kept
    · next same =>
      cases kept
      exact ⟨found, member, same⟩
    · cases kept
  · rintro ⟨found, member, same⟩
    exact ⟨(group, found), member, by simp [same]⟩

theorem groupsInClass_nodup (classId : FaultGroupClassId) : (topology.groupsInClass classId).Nodup := by
  have keys : (topology.faultGroups.entries.map Prod.fst).Nodup :=
    topology.faultGroups.sorted.imp (ne_of_lt ·)
  have listed : ∀ entries : List (FaultGroupId × FaultGroup),
      (entries.filterMap fun entry => if entry.2.classId = classId then some entry.1 else none).Sublist
        (entries.map Prod.fst) := by
    intro entries
    induction entries with
    | nil => exact Sublist.slnil
    | cons entry entries ih =>
      by_cases same : entry.2.classId = classId
      · simpa [filterMap_cons, same] using ih
      · simpa [filterMap_cons, same] using ih.cons entry.1
  exact keys.sublist (listed _)

variable {α : Type}

/-- A bounded enumeration appends every selection, or exceeds the bound. -/
theorem buildCombinations_eq (values : List α) (maximumSets : Nat) :
    ∀ (k start : Nat) (current : List α) (output : List (List α)), output.length ≤ maximumSets →
      buildCombinations values maximumSets k start current output =
        if output.length + (combos k (values.drop start)).length ≤ maximumSets then
          .ok (output ++ (combos k (values.drop start)).map (current ++ ·))
        else .error .proofBoundExceeded := by
  intro k
  induction k with
  | zero =>
    intro start current output fits
    simp only [buildCombinations, combos_zero, length_singleton, map_singleton, append_nil]
    by_cases full : output.length = maximumSets
    · rw [if_pos full, if_neg (by omega)]
    · rw [if_neg full, if_pos (by omega)]
  | succ k ih =>
    intro start current output fits
    rw [buildCombinations, combos_loop rfl]
    -- the loop over the first element appends one block of selections a round
    generalize rounds values start (values.length - (k + 1)) = loop
    induction loop generalizing output with
    | nil => simp [fits, pure, Except.pure]
    | cons round loop inner =>
      rw [foldlM_cons, ih _ _ _ fits]
      simp only [flatMap_cons, length_append, length_map, map_append, map_map]
      split
      · next room =>
        show foldlM _ _ loop = _
        rw [inner _ (by simpa using room)]
        simp only [length_append, length_map, add_assoc, append_assoc]
        simp [Function.comp_def]
      · next full =>
        rw [if_neg (by omega)]
        rfl

theorem combinations_eq (values : List α) (k maximumSets : Nat) : combinations values k maximumSets =
      if (combos k values).length ≤ maximumSets then .ok (combos k values)
      else .error .proofBoundExceeded := by
  rw [combinations, buildCombinations_eq _ _ _ _ _ _ (Nat.zero_le _)]
  simp

/-- The groups of a loss set, term by term. -/
def listing (topology : Topology) (terms : List FailureTerm) (lost : Finset FaultGroupId) :
    List FaultGroupId :=
  terms.flatMap fun term => (topology.groupsInClass term.classId).filter (fun group => decide (group ∈ lost))

variable {terms : List FailureTerm} {lost : Finset FaultGroupId}

theorem mem_listing : group ∈ listing topology terms lost ↔
      group ∈ lost ∧ ∃ term ∈ terms, topology.classOf group = some term.classId := by
  simp only [listing, mem_flatMap, mem_filter, mem_groupsInClass, decide_eq_true_eq]
  constructor
  · rintro ⟨term, member, classed, isLost⟩
    exact ⟨isLost, term, member, classed⟩
  · rintro ⟨isLost, term, member, classed⟩
    exact ⟨term, member, classed, isLost⟩

theorem listing_toFinset
    (isLoss : IsLossSet topology terms lost) : (listing topology terms lost).toFinset = lost := by
  ext group
  rw [mem_toFinset, mem_listing, and_iff_left_iff_imp]
  exact isLoss.covered group

/-- A list of selections enumerates the loss sets of the terms, each once. -/
structure Enumerates (topology : Topology) (terms : List FailureTerm) (sets : List (List FaultGroupId)) :
    Prop where
  nodup : sets.Nodup
  mem : ∀ l, l ∈ sets ↔ ∃ lost, IsLossSet topology terms lost ∧ l = listing topology terms lost

variable {sets : List (List FaultGroupId)}

theorem Enumerates.mem_sets (enum : Enumerates topology terms sets) :
    lost ∈ sets.map toFinset ↔ IsLossSet topology terms lost := by
  rw [mem_map]
  constructor
  · rintro ⟨l, member, rfl⟩
    obtain ⟨lost, isLoss, rfl⟩ := (enum.mem l).mp member
    rwa [listing_toFinset isLoss]
  · exact fun isLoss => ⟨_, (enum.mem _).mpr ⟨lost, isLoss, rfl⟩, listing_toFinset isLoss⟩

/-- No loss set is enumerated twice: it has only one listing. -/
theorem Enumerates.nodup_sets (enum : Enumerates topology terms sets) : (sets.map toFinset).Nodup := by
  apply enum.nodup.map_on
  intro l hl m hm same
  obtain ⟨lost, isLoss, rfl⟩ := (enum.mem l).mp hl
  obtain ⟨other, isLoss', rfl⟩ := (enum.mem m).mp hm
  rw [listing_toFinset isLoss, listing_toFinset isLoss'] at same
  rw [same]

variable {scenario : FailureScenario} {result : List (List FaultGroupId)} {maximumSets : Nat}

theorem Enumerates.card_eq (enum : Enumerates topology scenario.terms sets) :
    (lossSets topology scenario).card = sets.length := by
  have listed : lossSets topology scenario = (sets.map toFinset).toFinset := by
    ext lost
    rw [mem_lossSets, mem_toFinset, enum.mem_sets]
  rw [listed, toFinset_card_of_nodup enum.nodup_sets, length_map]

theorem enumerates_nil : Enumerates topology [] [[]] := by
  refine ⟨nodup_singleton _, fun l => ?_⟩
  rw [mem_singleton]
  constructor
  · rintro rfl
    exact ⟨∅, ⟨by simp, by simp⟩, rfl⟩
  · rintro ⟨lost, -, rfl⟩
    rfl

theorem filter_mem_eq [DecidableEq α] {s l : List α} (sub : s.Sublist l) (nodup : l.Nodup) :
    l.filter (fun x => x ∈ s) = s := by
  induction sub with
  | slnil => rfl
  | @cons s l a sub ih =>
    obtain ⟨fresh, nodup⟩ := nodup_cons.mp nodup
    rw [filter_cons_of_neg (by simpa using fun member => fresh (sub.subset member)), ih nodup]
  | @cons_cons s l a sub ih =>
    obtain ⟨fresh, nodup⟩ := nodup_cons.mp nodup
    rw [filter_cons_of_pos (by simp)]
    congr 1
    rw [← ih nodup]
    apply filter_congr
    intro x member
    have : x ≠ a := fun same => fresh (same ▸ member)
    simp [this, ih nodup]

theorem listing_concat (terms : List FailureTerm) (term : FailureTerm) (lost : Finset FaultGroupId) :
    listing topology (terms ++ [term]) lost = listing topology terms lost ++
      (topology.groupsInClass term.classId).filter fun group => decide (group ∈ lost) := by
  simp [listing]

/-- A listing reads a loss set only at the groups of its own classes. -/
theorem listing_congr {other : Finset FaultGroupId}
    (agree : ∀ term ∈ terms, ∀ group, topology.classOf group = some term.classId →
      (group ∈ lost ↔ group ∈ other)) : listing topology terms lost = listing topology terms other := by
  rw [listing, listing, flatMap_def, flatMap_def]
  congr 1
  apply map_congr_left
  intro term member
  apply filter_congr
  intro group hg
  simp [agree term member group (mem_groupsInClass.mp hg)]

section NewTerm

variable {terms : List FailureTerm} {term : FailureTerm}

/-- No group belongs both to the new class and to one of the classes before it. -/
theorem classes_apart (fresh : term.classId ∉ terms.map FailureTerm.classId)
    (classed : topology.classOf group = some term.classId) {other : FailureTerm}
    (member : other ∈ terms) : topology.classOf group ≠ some other.classId := by
  intro same
  exact fresh (mem_map.mpr ⟨other, member, Option.some.inj (same.symm.trans classed)⟩)

variable {lost : Finset FaultGroupId}

theorem IsLossSet.extend {s : List FaultGroupId}
    (isLoss : IsLossSet topology terms lost) (fresh : term.classId ∉ terms.map FailureTerm.classId)
    (selected : s ∈ combos term.failureCount (topology.groupsInClass term.classId)) :
    IsLossSet topology (terms ++ [term]) (lost ∪ s.toFinset) := by
  obtain ⟨sub, size⟩ := mem_combos.mp selected
  have classed : ∀ group ∈ s, topology.classOf group = some term.classId :=
    fun group hg => mem_groupsInClass.mp (sub.subset hg)
  constructor
  · intro group member
    rcases Finset.mem_union.mp member with old | new
    · obtain ⟨other, hother, same⟩ := isLoss.covered group old
      exact ⟨other, mem_append_left _ hother, same⟩
    · exact ⟨term, by simp, classed group (mem_toFinset.mp new)⟩
  · intro other member
    rw [Finset.filter_union]
    rcases mem_append.mp member with old | new
    · rw [Finset.filter_eq_empty_iff.mpr fun group hg same =>
        classes_apart fresh (classed group (mem_toFinset.mp hg)) old same, Finset.union_empty]
      exact isLoss.exact other old
    · rw [mem_singleton.mp new, Finset.filter_eq_empty_iff.mpr, Finset.empty_union,
        Finset.filter_true_of_mem fun group hg => classed group (mem_toFinset.mp hg),
        toFinset_card_of_nodup ((groupsInClass_nodup _).sublist sub), size]
      intro group hg same
      obtain ⟨before, hbefore, classedBefore⟩ := isLoss.covered group hg
      exact classes_apart fresh same hbefore classedBefore

/-- The part of a loss set that the terms before the last one account for. -/
theorem IsLossSet.restrict (isLoss : IsLossSet topology (terms ++ [term]) lost) :
    IsLossSet topology terms
      (lost.filter fun group => ∃ other ∈ terms, topology.classOf group = some other.classId) := by
  constructor
  · intro group member
    exact (Finset.mem_filter.mp member).2
  · intro other member
    rw [Finset.filter_filter, ← isLoss.exact other (mem_append_left _ member)]
    congr 1
    apply Finset.filter_congr
    intro group _
    exact ⟨fun h => h.2, fun h => ⟨⟨other, member, h⟩, h⟩⟩

theorem IsLossSet.selected (isLoss : IsLossSet topology (terms ++ [term]) lost) :
    (topology.groupsInClass term.classId).filter (fun group => group ∈ lost) ∈
      combos term.failureCount (topology.groupsInClass term.classId) := by
  refine mem_combos.mpr ⟨filter_sublist, ?_⟩
  rw [← toFinset_card_of_nodup ((groupsInClass_nodup _).filter _), ← isLoss.exact term (by simp)]
  congr 1
  ext group
  simp [mem_groupsInClass, and_comm]

end NewTerm

/-- Joining the loss sets of the terms so far with the selections of a new class. -/
theorem Enumerates.step (enum : Enumerates topology terms sets)
    (fresh : term.classId ∉ terms.map FailureTerm.classId) : Enumerates topology (terms ++ [term])
      (joinAll sets (combos term.failureCount (topology.groupsInClass term.classId))) := by
  refine ⟨?_, fun l => ?_⟩
  · rw [joinAll, nodup_flatMap]
    refine ⟨fun first _ => (combos_nodup (groupsInClass_nodup _)).map (append_right_injective first), ?_⟩
    -- two joined lists end in selections of one length, so their first parts are equal
    refine enum.nodup.imp fun {first first'} different => ?_
    intro l left right
    obtain ⟨s, hs, rfl⟩ := mem_map.mp left
    obtain ⟨s', hs', same⟩ := mem_map.mp right
    have lengths : s'.length = s.length := by rw [(mem_combos.mp hs').2, (mem_combos.mp hs).2]
    exact different (append_inj' same lengths).1.symm
  · simp only [joinAll, mem_flatMap, mem_map]
    constructor
    · rintro ⟨first, member, s, hs, rfl⟩
      obtain ⟨lost, isLoss, rfl⟩ := (enum.mem first).mp member
      have classed : ∀ group ∈ s, topology.classOf group = some term.classId :=
        fun group hg => mem_groupsInClass.mp ((mem_combos.mp hs).1.subset hg)
      refine ⟨lost ∪ s.toFinset, isLoss.extend fresh hs, ?_⟩
      rw [listing_concat]
      congr 1
      · apply listing_congr
        intro other hother group same
        have : group ∉ s := fun hg => classes_apart fresh (classed group hg) hother same
        simp [this]
      · refine (filter_mem_eq (mem_combos.mp hs).1 (groupsInClass_nodup _)).symm.trans ?_
        apply filter_congr
        intro group hg
        have : group ∉ lost := by
          intro old
          obtain ⟨other, hother, same⟩ := isLoss.covered group old
          exact classes_apart fresh (mem_groupsInClass.mp hg) hother same
        simp [this]
    · rintro ⟨lost, isLoss, rfl⟩
      refine ⟨_, (enum.mem _).mpr ⟨_, isLoss.restrict, rfl⟩, _, isLoss.selected, ?_⟩
      rw [listing_concat]
      congr 1
      apply listing_congr
      intro other hother group same
      simp only [Finset.mem_filter, and_iff_left_iff_imp]
      exact fun _ => ⟨other, hother, same⟩

variable {maximumSets : Nat}

/-- The result of a term is the join with the selections of its class, of which there are some. -/
theorem addTerm_ok (h : FailureScenario.addTerm topology maximumSets sets term = .ok result) :
    result = joinAll sets (combos term.failureCount (topology.groupsInClass term.classId)) ∧
      term.failureCount ≤ (topology.groupsInClass term.classId).length := by
  unfold FailureScenario.addTerm at h
  dsimp only at h
  split at h
  · cases h
  next enough =>
  rw [combinations_eq] at h
  obtain ⟨selections, hs, h⟩ := bind_eq_ok.mp h
  split at hs
  · cases hs
    unfold cartesianUnion at h
    split at h
    · exact ⟨(Except.ok.inj h).symm, Nat.le_of_not_lt enough⟩
    · cases h
  · cases hs

theorem foldlM_addTerm_ne_nil (terms : List FailureTerm) :
    ∀ sets : List (List FaultGroupId), sets ≠ [] →
      terms.foldlM (FailureScenario.addTerm topology maximumSets) sets = .ok result → result ≠ [] := by
  induction terms with
  | nil =>
    intro sets some h
    cases h
    exact some
  | cons term terms ih =>
    intro sets some h
    obtain ⟨middle, first, h⟩ := bind_eq_ok.mp h
    obtain ⟨rfl, enough⟩ := addTerm_ok first
    refine ih _ ?_ h
    obtain ⟨head, tail, rfl⟩ := exists_cons_of_ne_nil some
    simp [joinAll, combos_ne_nil enough]

theorem enumerates_foldlM (rest : List FailureTerm) :
    ∀ (terms : List FailureTerm) (before : List (List FaultGroupId)), Enumerates topology terms before →
      ((terms ++ rest).map FailureTerm.classId).Nodup →
      rest.foldlM (FailureScenario.addTerm topology maximumSets) before = .ok sets →
      Enumerates topology (terms ++ rest) sets := by
  induction rest with
  | nil =>
    intro terms before enum _ h
    cases h
    simpa using enum
  | cons term rest ih =>
    intro terms before enum distinct h
    obtain ⟨middle, first, h⟩ := bind_eq_ok.mp h
    have fresh : term.classId ∉ terms.map FailureTerm.classId := by
      intro member
      rw [map_append, nodup_append] at distinct
      exact distinct.2.2 _ member _ (by simp) rfl
    rw [append_cons] at distinct ⊢
    refine ih _ middle ?_ distinct h
    rw [(addTerm_ok first).1]
    exact enum.step fresh

/-- An accepted enumeration lists every loss set of the scenario once. -/
theorem groupLossSets_enumerates (h : scenario.groupLossSets topology maximumSets = .ok sets) :
    Enumerates topology scenario.terms sets := by
  obtain ⟨-, h⟩ := guard_ok.mp h
  exact enumerates_foldlM scenario.terms [] _ enumerates_nil scenario.distinct h

end Enumeration

/-! ## The proof is exact -/

section Exact

variable {topology : Topology} {scenario : FailureScenario} {target : TargetId}

theorem mem_affect {targets : OrdSet TargetId} {member : FaultGroupMember} :
    target ∈ topology.affect targets member ↔ target ∈ targets ∨ member = .target target ∨
      ∃ host, member = .host host ∧ topology.targetHost target = some host := by
  cases member with
  | target other => simp [Topology.affect, OrdSet.mem_insert, eq_comm, or_comm]
  | host host =>
    have listed : target ∈ topology.targetsOn host ↔ topology.targetHost target = some host := by
      simp only [Topology.targetsOn, mem_filterMap, Topology.targetHost, OrdMap.get?_eq_some_iff]
      constructor
      · rintro ⟨⟨other, found⟩, member, kept⟩
        split at kept
        · next same =>
          cases kept
          exact same ▸ member
        · cases kept
      · exact fun member => ⟨(target, host), member, by simp⟩
    simp [Topology.affect, OrdSet.mem_foldl_insert, listed]

theorem mem_foldl_affect (members : List FaultGroupMember) :
    ∀ targets : OrdSet TargetId, target ∈ members.foldl topology.affect targets ↔ target ∈ targets ∨
      (.target target ∈ members ∨
        ∃ host, .host host ∈ members ∧ topology.targetHost target = some host) := by
  induction members with
  | nil => simp
  | cons member members ih =>
    intro targets
    rw [foldl_cons, ih, mem_affect]
    simp only [mem_cons, or_and_right, exists_or]
    constructor
    · rintro ((old | rfl | ⟨host, rfl, on⟩) | later | later)
      · exact .inl old
      · exact .inr (.inl (.inl rfl))
      · exact .inr (.inr (.inl ⟨host, rfl, on⟩))
      · exact .inr (.inl (.inr later))
      · exact .inr (.inr (.inr later))
    · rintro (old | (first | later) | (⟨host, first, on⟩ | later))
      · exact .inl (.inl old)
      · exact .inl (.inr (.inl first.symm))
      · exact .inr (.inl later)
      · exact .inl (.inr (.inr ⟨host, first.symm, on⟩))
      · exact .inr (.inr later)

theorem mem_targetsAffectedBy {failed : List FaultGroupId} :
    target ∈ topology.targetsAffectedBy failed ↔ ∃ group ∈ failed, topology.Hits group target := by
  have fold : ∀ (failed : List FaultGroupId) (targets : OrdSet TargetId),
      target ∈ failed.foldl (fun targets group =>
        match topology.faultGroups.get? group with
        | none => targets
        | some found => found.members.foldl topology.affect targets) targets ↔
      target ∈ targets ∨ ∃ group ∈ failed, topology.Hits group target := by
    intro failed
    induction failed with
    | nil => simp
    | cons group failed ih =>
      intro targets
      rw [foldl_cons, ih]
      simp only [mem_cons, exists_eq_or_imp, ← or_assoc]
      apply or_congr_left
      unfold Topology.Hits
      cases topology.faultGroups.get? group with
      | none => simp
      | some found => simp [mem_foldl_affect]
  rw [Topology.targetsAffectedBy, fold]
  simp only [or_iff_right_iff_imp]
  intro absent
  exact absurd absent (by simp [OrdSet.empty, ← OrdSet.mem_elems])

variable {layout : ProtectionLayout}

theorem remainingSlices_eq (groups : List FaultGroupId) :
    remainingSlices topology layout groups = slicesLeft topology layout.sliceTargets groups.toFinset := by
  classical
  rw [remainingSlices, slicesLeft, countP_eq_length_filter]
  simp [mem_targetsAffectedBy]

theorem slicesLeft_eq_card {slices : List TargetId} (distinct : slices.Nodup) (lost : Finset FaultGroupId) :
    slicesLeft topology slices lost = (remaining topology slices.toFinset lost).card := by
  classical
  rw [slicesLeft, countP_eq_length_filter, ← toFinset_card_of_nodup (distinct.filter _)]
  congr 1
  ext target
  simp [remaining]

/-! ### Fewer failures -/

variable {terms : List FailureTerm} {lost full : Finset FaultGroupId}

theorem filter_class_subset (lost : Finset FaultGroupId) (classId : FaultGroupClassId) :
    lost.filter (topology.classOf · = some classId) ⊆
      (topology.groupsInClass classId).toFinset := by
  intro group hg
  exact mem_toFinset.mpr (mem_groupsInClass.mpr (Finset.mem_filter.mp hg).2)

theorem IsLossSet.enough (isLoss : IsLossSet topology terms lost) (member : term ∈ terms) :
    term.failureCount ≤ (topology.groupsInClass term.classId).length := by
  rw [← isLoss.exact term member]
  exact (Finset.card_le_card (filter_class_subset ..)).trans (toFinset_card_le _)

/-- Where the classes have enough groups, a partial loss is part of a loss set. -/
theorem IsPartialLoss.extend (isPartial : IsPartialLoss topology terms lost)
    (distinct : (terms.map FailureTerm.classId).Nodup)
    (enough : ∀ term ∈ terms, term.failureCount ≤ (topology.groupsInClass term.classId).length) :
    ∃ full, IsLossSet topology terms full ∧ lost ⊆ full := by
  have fill : ∀ term ∈ terms, ∃ chosen : Finset FaultGroupId,
      lost.filter (topology.classOf · = some term.classId) ⊆ chosen ∧
        chosen ⊆ (topology.groupsInClass term.classId).toFinset ∧ chosen.card = term.failureCount := by
    intro term member
    refine Finset.exists_subsuperset_card_eq (filter_class_subset ..) (isPartial.atMost term member) ?_
    rw [toFinset_card_of_nodup (groupsInClass_nodup _)]
    exact enough term member
  choose! chosen holds inClass size using fill
  have classed : ∀ {term group}, term ∈ terms → group ∈ chosen term →
      topology.classOf group = some term.classId :=
    fun member hg => mem_groupsInClass.mp (mem_toFinset.mp (inClass _ member hg))
  refine ⟨terms.toFinset.biUnion chosen, ⟨?_, ?_⟩, ?_⟩
  · intro group hg
    obtain ⟨term, member, hg⟩ := Finset.mem_biUnion.mp hg
    exact ⟨term, mem_toFinset.mp member, classed (mem_toFinset.mp member) hg⟩
  · -- terms of one class are one term, so the class keeps the groups chosen for it
    intro term member
    rw [← size term member]
    congr 1
    ext group
    rw [Finset.mem_filter, Finset.mem_biUnion]
    constructor
    · rintro ⟨⟨other, hother, hg⟩, inTerm⟩
      have hother := mem_toFinset.mp hother
      rwa [← inj_on_of_nodup_map distinct hother member
        (Option.some.inj ((classed hother hg).symm.trans inTerm))]
    · exact fun hg => ⟨⟨term, mem_toFinset.mpr member, hg⟩, classed member hg⟩
  · intro group hg
    obtain ⟨term, member, same⟩ := isPartial.covered group hg
    exact Finset.mem_biUnion.mpr ⟨term, mem_toFinset.mpr member,
      holds term member (Finset.mem_filter.mpr ⟨hg, same⟩)⟩

/-- Each of these terms lowers a term of the others. -/
def Lowers (few many : List FailureTerm) : Prop :=
  ∀ term ∈ few, ∃ other ∈ many, term.classId = other.classId ∧ term.failureCount ≤ other.failureCount

theorem Lowers.refl (terms : List FailureTerm) : Lowers terms terms :=
  fun term member => ⟨term, member, rfl, le_rfl⟩

theorem IsLossSet.lowered {few : List FailureTerm} (isLoss : IsLossSet topology few lost)
    (lowers : Lowers few terms) (distinct : (terms.map FailureTerm.classId).Nodup) :
    IsPartialLoss topology terms lost := by
  constructor
  · intro group hg
    obtain ⟨term, member, same⟩ := isLoss.covered group hg
    obtain ⟨other, hother, classes, -⟩ := lowers term member
    exact ⟨other, hother, classes ▸ same⟩
  · intro other hother
    rcases (lost.filter (topology.classOf · = some other.classId)).eq_empty_or_nonempty
      with none | ⟨group, hg⟩
    · rw [none]
      exact Nat.zero_le _
    · obtain ⟨hg, same⟩ := Finset.mem_filter.mp hg
      obtain ⟨term, member, classed⟩ := isLoss.covered group hg
      obtain ⟨third, hthird, classes, count⟩ := lowers term member
      have one : term.classId = other.classId := Option.some.inj (classed.symm.trans same)
      rw [← one, isLoss.exact term member]
      rwa [inj_on_of_nodup_map distinct hthird hother (classes.symm.trans one)] at count

theorem slicesLeft_anti (slices : List TargetId) (more : lost ⊆ full) :
    slicesLeft topology slices full ≤ slicesLeft topology slices lost := by
  classical
  refine countP_mono_left fun target _ kept => ?_
  rw [decide_eq_true_iff] at kept ⊢
  exact fun group hg => kept group (more hg)

theorem slicesLeft_mono {few many : List TargetId} (more : few.Subperm many) (lost : Finset FaultGroupId) :
    slicesLeft topology few lost ≤ slicesLeft topology many lost := more.countP_le _

/-! ### What a returned proof says -/

variable {maximumLossSets : Nat} {proof : ProtectionProof}

/-- A returned proof counts the loss sets and has the fewest slices that one of them leaves. -/
theorem proveProtection_least (h : proveProtection topology scenario layout maximumLossSets = .ok proof) :
    ∃ sets, scenario.groupLossSets topology maximumLossSets = .ok sets ∧
      Enumerates topology scenario.terms sets ∧ proof.evaluatedLossSets = sets.length ∧
      (proof.survives = true ↔ layout.requiredSlices ≤ proof.minimumRemainingSlices) ∧
      (∀ lost, IsLossSet topology scenario.terms lost →
        proof.minimumRemainingSlices ≤ slicesLeft topology layout.sliceTargets lost) ∧
      ∃ lost, IsLossSet topology scenario.terms lost ∧
        slicesLeft topology layout.sliceTargets lost = proof.minimumRemainingSlices := by
  unfold proveProtection at h
  split at h
  · cases h
  obtain ⟨sets, enumerated, h⟩ := bind_eq_ok.mp h
  have enum := groupLossSets_enumerates enumerated
  split at h
  · cases h
  next least minimum =>
  cases h
  obtain ⟨attained, below⟩ := min?_eq_some_iff.mp minimum
  refine ⟨sets, enumerated, enum, rfl, decide_eq_true_iff, ?_, ?_⟩
  · intro lost isLoss
    obtain ⟨groups, member, rfl⟩ := mem_map.mp (enum.mem_sets.mpr isLoss)
    rw [← remainingSlices_eq]
    exact below _ (mem_map_of_mem member)
  · obtain ⟨groups, member, value⟩ := mem_map.mp attained
    exact ⟨groups.toFinset, enum.mem_sets.mp (mem_map_of_mem member),
      (remainingSlices_eq groups).symm.trans value⟩

/-- A returned proof is the result of enumerating every loss set of the scenario. -/
theorem proveProtection_exact (distinct : layout.sliceTargets.Nodup)
    (h : proveProtection topology scenario layout maximumLossSets = .ok proof) :
    ExactProof topology scenario layout.requiredSlices layout.sliceTargets.toFinset proof := by
  obtain ⟨sets, -, enum, counted, survives, bound, worst, isLoss, value⟩ := proveProtection_least h
  simp only [slicesLeft_eq_card distinct, ← mem_lossSets] at bound value isLoss
  have nonempty : (lossSets topology scenario).Nonempty := ⟨worst, isLoss⟩
  refine ⟨counted.trans enum.card_eq.symm, bound, ?_, survives.trans ?_⟩
  · rw [if_pos nonempty]
    exact ⟨worst, isLoss, value⟩
  constructor
  · exact fun enough => ⟨nonempty, fun lost member => enough.trans (bound lost member)⟩
  · exact (value ▸ ·.2 worst isLoss)

/-- Surviving every loss set is surviving every partial loss. -/
theorem survives_iff_slices (h : proveProtection topology scenario layout maximumLossSets = .ok proof) :
    proof.survives = true ↔ ∀ lost, IsPartialLoss topology scenario.terms lost →
      layout.requiredSlices ≤ slicesLeft topology layout.sliceTargets lost := by
  obtain ⟨sets, -, -, -, survives, bound, worst, isLoss, value⟩ := proveProtection_least h
  rw [survives]
  constructor
  · intro enough lost isPartial
    obtain ⟨full, isFull, more⟩ := isPartial.extend scenario.distinct fun _ => isLoss.enough
    exact (enough.trans (bound full isFull)).trans (slicesLeft_anti _ more)
  · intro all
    rw [← value]
    exact all worst (isLoss.lowered (.refl _) scenario.distinct)

/-- A returned proof is exact: it says `survives` when and only when every choice of at most the given
number of groups of each class leaves enough slices, its minimum is attained over the exact choices,
each of which is enumerated once, and neither added slices nor lowered failure counts lose it. -/
theorem protection_proof_exact
    (h : proveProtection topology scenario layout maximumLossSets = .ok proof) :
    (proof.survives = true ↔ ∀ lost, IsPartialLoss topology scenario.terms lost →
      layout.requiredSlices ≤ slicesLeft topology layout.sliceTargets lost) ∧
    (∀ lost, IsLossSet topology scenario.terms lost →
      proof.minimumRemainingSlices ≤ slicesLeft topology layout.sliceTargets lost) ∧
    (∃ lost, IsLossSet topology scenario.terms lost ∧
      slicesLeft topology layout.sliceTargets lost = proof.minimumRemainingSlices) ∧
    (∃ sets, scenario.groupLossSets topology maximumLossSets = .ok sets ∧
      proof.evaluatedLossSets = sets.length ∧ (sets.map toFinset).Nodup ∧
      ∀ lost, lost ∈ sets.map toFinset ↔ IsLossSet topology scenario.terms lost) ∧
    ∀ (lowered : FailureScenario) (grown : ProtectionLayout) (maximum : Nat) (other : ProtectionProof),
      proveProtection topology lowered grown maximum = .ok other →
      Lowers lowered.terms scenario.terms → layout.sliceTargets.Subperm grown.sliceTargets →
      grown.requiredSlices = layout.requiredSlices → proof.survives = true → other.survives = true := by
  obtain ⟨sets, enumerated, enum, counted, -, bound, attained⟩ := proveProtection_least h
  refine ⟨survives_iff_slices h, bound, attained,
    ⟨sets, enumerated, counted, enum.nodup_sets, fun _ => enum.mem_sets⟩, ?_⟩
  intro lowered grown maximum other h' lowers more same survives
  obtain ⟨-, -, -, -, survives', -, worst, isLoss, value⟩ := proveProtection_least h'
  have enough := (survives_iff_slices h).mp survives worst (isLoss.lowered lowers scenario.distinct)
  rw [survives', same, ← value]
  exact enough.trans (slicesLeft_mono more worst)

variable {err : ProtectionError}

/-- A term fails for want of groups or for the bound, and for nothing else. -/
theorem addTerm_error {sets : List (List FaultGroupId)}
    (h : FailureScenario.addTerm topology maximumSets sets term = .error err) :
    (err = .insufficientTopology ∧ (topology.groupsInClass term.classId).length < term.failureCount) ∨
      err = .proofBoundExceeded := by
  unfold FailureScenario.addTerm at h
  dsimp only at h
  split at h
  · next short =>
    cases h
    exact .inl ⟨rfl, short⟩
  · right
    rw [combinations_eq] at h
    split at h
    · change cartesianUnion _ _ _ = _ at h
      unfold cartesianUnion at h
      split at h
      · cases h
      · exact (Except.error.inj h).symm
    · exact (Except.error.inj h).symm

theorem foldlM_addTerm_error (terms : List FailureTerm) : ∀ sets : List (List FaultGroupId),
      terms.foldlM (FailureScenario.addTerm topology maximumSets) sets = .error err →
      (err = .insufficientTopology ∧
        ∃ term ∈ terms, (topology.groupsInClass term.classId).length < term.failureCount) ∨
      err = .proofBoundExceeded := by
  induction terms with
  | nil =>
    intro sets h
    cases h
  | cons term terms ih =>
    intro sets h
    rw [foldlM_cons] at h
    cases step : FailureScenario.addTerm topology maximumSets sets term with
    | error e =>
      rw [step] at h
      cases h
      exact (addTerm_error step).imp_left fun ⟨kind, short⟩ => ⟨kind, term, by simp, short⟩
    | ok middle =>
      rw [step] at h
      refine (ih middle h).imp_left fun ⟨kind, other, member, short⟩ => ⟨kind, other, ?_, short⟩
      exact mem_cons_of_mem _ member

theorem lossSets_eq_empty (member : term ∈ scenario.terms)
    (short : (topology.groupsInClass term.classId).length < term.failureCount) :
    lossSets topology scenario = ∅ := by
  rw [Finset.eq_empty_iff_forall_notMem]
  intro lost isLost
  have := (mem_lossSets.mp isLost).enough member
  omega

/-- A proof fails for an unknown target, for want of groups or for the bound. -/
theorem proveProtection_error {maximumLossSets : Nat} (positive : maximumLossSets ≠ 0)
    (h : proveProtection topology scenario layout maximumLossSets = .error err) :
    (err = .unknownResource ∧ ∃ target ∈ layout.sliceTargets, topology.targetHost target = none) ∨
      (err = .insufficientTopology ∧ lossSets topology scenario = ∅) ∨
      (err = .proofBoundExceeded ∧
        scenario.groupLossSets topology maximumLossSets = .error .proofBoundExceeded) := by
  unfold proveProtection at h
  split at h
  · next unknown =>
    cases h
    obtain ⟨target, member, missing⟩ := any_eq_true.mp unknown
    exact .inl ⟨rfl, target, member, by simpa [OrdMap.contains, Topology.targetHost] using missing⟩
  right
  cases enumerated : scenario.groupLossSets topology maximumLossSets with
  | error e =>
    rw [enumerated] at h
    cases h
    have step := enumerated
    rw [FailureScenario.groupLossSets, if_neg positive] at step
    rcases foldlM_addTerm_error _ _ step with ⟨rfl, term, member, short⟩ | rfl
    · exact .inl ⟨rfl, lossSets_eq_empty member short⟩
    · exact .inr ⟨rfl, rfl⟩
  | ok sets =>
    rw [enumerated] at h
    -- the enumeration is never empty, so there is a least number of remaining slices
    rw [FailureScenario.groupLossSets, if_neg positive] at enumerated
    obtain ⟨first, rest, rfl⟩ :=
      exists_cons_of_ne_nil (foldlM_addTerm_ne_nil scenario.terms _ (by simp) enumerated)
    simp [bind, Except.bind, min?_cons] at h

end Exact

end Placement

end MeshSpan
