import MeshSpan.Placement.Planner

/- What the planner's checks decide and what its searches keep.

   `Survives` and `CellHolds` say what a scenario and a cell requirement ask of a set
   of targets. Every check of the planner decides one of them, whatever the topology
   (`allSurvive_iff`, `cellSatisfied_iff`, `acceptSelection_iff`). The two searches keep
   only what the checks accept (`exactSelection_accepted`, `prunedSelection_accepted`),
   and the exact one is a single loop over its trials (`exactSelection_eq`). -/

namespace MeshSpan

open List Bool

namespace Placement

open Ordered Combination PlacementCandidate

/-! ## What is asked of a set of targets -/

def localTargets (request : PlacementRequest) (cellId : AvailabilityCellId) (targets : Finset TargetId) :
    Finset TargetId := targets.filter (targetInCell request cellId · = true)

def hostsOf (topology : Topology) (targets : Finset TargetId) : Finset (Option HostId) :=
  targets.image topology.targetHost

/-- The targets of the set inside the cell meet the cell's minimums and, where the cell asks for it,
decode on their own under every local scenario. -/
structure CellHolds (request : PlacementRequest) (cell : PlacementCellRequirement) (d : Nat)
    (targets : Finset TargetId) : Prop where
  durable : cell.minimumDurableTargets.getD (if cell.completeLocal then d else 0) ≤
    (localTargets request cell.cellId targets).card
  nodes : cell.minimumDistinctNodes.getD 1 ≤
    (hostsOf request.topology (localTargets request cell.cellId targets)).card
  decodes : cell.completeLocal = true ∨ cell.localScenarios ≠ [] →
    d ≤ (localTargets request cell.cellId targets).card ∧
      ∀ scenario ∈ cell.localScenarios,
        Survives request.topology scenario d (localTargets request cell.cellId targets)

/-- The scenario can happen, and whenever it does `d` of the slices are left. -/
def SlicesSurvive (topology : Topology) (scenario : FailureScenario) (d : Nat) (slices : List TargetId) :
    Prop :=
  (lossSets topology scenario).Nonempty ∧
    ∀ lost ∈ lossSets topology scenario, d ≤ slicesLeft topology slices lost

structure CellMet (topology : Topology) (candidates : List PlacementCandidate) (selected : List TargetId)
    (d : Nat) (cell : PlacementCellRequirement) : Prop where
  durable : cell.minimumDurableTargets.getD (if cell.completeLocal then d else 0) ≤
    (localCandidates candidates selected cell.cellId).length
  nodes : cell.minimumDistinctNodes.getD 1 ≤
    distinctHosts (localCandidates candidates selected cell.cellId)
  decodes : cell.completeLocal = true ∨ cell.localScenarios ≠ [] →
    d ≤ (localCandidates candidates selected cell.cellId).length ∧
      ∀ scenario ∈ cell.localScenarios, SlicesSurvive topology scenario d
        ((localCandidates candidates selected cell.cellId).map targetId)

/-- The set is large enough, on enough hosts, to acknowledge a write. -/
structure EnoughTargets (request : PlacementRequest) (d : Nat) (targets : Finset TargetId) : Prop where
  durable : max request.minimumDurableTargets d ≤ targets.card
  nodes : request.minimumDistinctNodes ≤ (hostsOf request.topology targets).card

/-! ## Valid requests -/

structure ValidRequest (request : PlacementRequest) : Prop where
  stripe : request.logicalStripeBytes ≠ 0
  scenarios : request.scenarios ≠ []
  fewScenarios : request.scenarios.length ≤ maximumScenarios
  required : ∀ scenario ∈ request.requiredScenarios, scenario ∈ request.scenarios
  durable : request.minimumDurableTargets ≠ 0
  distinct : (request.candidates.map targetId).Nodup
  hosted : ∀ candidate ∈ request.candidates,
    request.topology.targetHost candidate.targetId = some candidate.hostId

variable {candidates : List PlacementCandidate} {targets : List TargetId}
  {proofs : List ProtectionProof} {constraints : SelectionConstraints}

theorem candidatesInvalid_false {topology : Topology} :
    ∀ {targets : OrdSet TargetId}, candidatesInvalid topology candidates targets = false →
      (candidates.map targetId).Nodup ∧
      (∀ candidate ∈ candidates, candidate.targetId ∉ targets) ∧
      ∀ candidate ∈ candidates, topology.targetHost candidate.targetId = some candidate.hostId := by
  induction candidates with
  | nil => simp
  | cons candidate candidates ih =>
    intro targets valid
    simp only [candidatesInvalid, or_eq_false_iff, decide_eq_false_iff_not, ne_eq,
      Decidable.not_not] at valid
    obtain ⟨⟨⟨-, hosted⟩, fresh⟩, rest⟩ := valid
    obtain ⟨nodup, outside, others⟩ := ih rest
    refine ⟨?_, ?_, ?_⟩
    · rw [map_cons, nodup_cons]
      refine ⟨fun member => ?_, nodup⟩
      obtain ⟨other, hother, same⟩ := mem_map.mp member
      exact outside other hother (by simp [same])
    · refine forall_mem_cons.mpr ⟨fresh, fun other later member => ?_⟩
      exact outside other later (by simp [member])
    · exact forall_mem_cons.mpr ⟨hosted, others⟩

variable {request : PlacementRequest}

theorem validateRequest_ok (h : validateRequest request = .ok ()) : ValidRequest request := by
  unfold validateRequest at h
  split at h
  · cases h
  next shape =>
  split at h
  · cases h
  next candidates =>
  push Not at shape
  obtain ⟨-, -, stripe, scenarios, few, -, required, -, -, -, durable, -⟩ := shape
  obtain ⟨distinct, -, hosted⟩ := candidatesInvalid_false (eq_false_iff.mpr candidates)
  exact ⟨stripe, scenarios, few, required, durable, distinct, hosted⟩

structure Pool (request : PlacementRequest) (candidates : List PlacementCandidate) : Prop where
  sub : ∀ candidate ∈ candidates, candidate ∈ request.candidates
  distinct : (candidates.map targetId).Nodup

theorem Pool.sublist {few : List PlacementCandidate} (pool : Pool request candidates)
    (sub : few.Sublist candidates) : Pool request few :=
  ⟨fun candidate member => pool.sub candidate (sub.subset member), pool.distinct.sublist (sub.map _)⟩

theorem ValidRequest.candidate_eq (valid : ValidRequest request)
    {a b : PlacementCandidate} (ha : a ∈ request.candidates) (hb : b ∈ request.candidates)
    (same : a.targetId = b.targetId) : a = b :=
  inj_on_of_nodup_map valid.distinct ha hb same

theorem ValidRequest.targetInCell_iff (valid : ValidRequest request)
    {candidate : PlacementCandidate} (member : candidate ∈ request.candidates) {cellId : AvailabilityCellId} :
    targetInCell request cellId candidate.targetId = true ↔ cellId ∈ candidate.availabilityCells := by
  simp only [targetInCell, any_eq_true, and_eq_true, decide_eq_true_eq]
  constructor
  · rintro ⟨other, hother, same, inCell⟩
    rwa [← valid.candidate_eq hother member same]
  · exact fun inCell => ⟨candidate, member, rfl, inCell⟩

/-! ## The checks decide what is asked -/

section Checks

variable {topology : Topology} {layout : ProtectionLayout} {scenario : FailureScenario}
  {proof : ProtectionProof} {answer : Bool} {result : Option (List ProtectionProof)}

theorem slicesSurvive_iff {d : Nat} {slices : List TargetId} (distinct : slices.Nodup) :
    SlicesSurvive topology scenario d slices ↔ Survives topology scenario d slices.toFinset := by
  simp only [SlicesSurvive, Survives, slicesLeft_eq_card distinct]

/-- A best-effort proof is a returned proof, or says that the scenario cannot happen. -/
theorem bestEffortProof_ok (h : bestEffortProof topology scenario layout = .ok proof) :
    proveProtection topology scenario layout maximumProofLossSets = .ok proof ∨
      proof = ⟨false, 0, 0⟩ ∧ lossSets topology scenario = ∅ := by
  unfold bestEffortProof at h
  split at h
  · next found =>
    cases h
    exact .inl found
  · next insufficient =>
    cases h
    rcases proveProtection_error (by decide) insufficient with ⟨kind, -⟩ | ⟨-, none⟩ | ⟨kind, -⟩
    · cases kind
    · exact .inr ⟨rfl, none⟩
    · cases kind
  · cases h

theorem bestEffortProof_survives (h : bestEffortProof topology scenario layout = .ok proof) :
    proof.survives = true ↔ SlicesSurvive topology scenario layout.requiredSlices layout.sliceTargets := by
  rcases bestEffortProof_ok h with proved | ⟨rfl, none⟩
  · obtain ⟨-, -, -, -, survives, bound, worst, isLoss, value⟩ := proveProtection_least proved
    simp only [survives, SlicesSurvive, mem_lossSets]
    constructor
    · exact fun enough =>
        ⟨⟨worst, mem_lossSets.mpr isLoss⟩, fun lost isLost => enough.trans (bound lost isLost)⟩
    · exact (value ▸ ·.2 worst isLoss)
  · simp [SlicesSurvive, none]

theorem bestEffortProof_exact (distinct : layout.sliceTargets.Nodup)
    (h : bestEffortProof topology scenario layout = .ok proof) :
    ExactProof topology scenario layout.requiredSlices layout.sliceTargets.toFinset proof := by
  rcases bestEffortProof_ok h with proved | ⟨rfl, none⟩
  · exact proveProtection_exact distinct proved
  constructor
  · simp [none]
  · simp [none]
  · simp [none]
  · simp [Survives, none]

variable {scenarios : List FailureScenario}

theorem allSurvive_slices : ∀ {answer : Bool}, allSurvive topology layout scenarios = .ok answer →
      (answer = true ↔ ∀ scenario ∈ scenarios,
        SlicesSurvive topology scenario layout.requiredSlices layout.sliceTargets) := by
  induction scenarios with
  | nil =>
    intro answer h
    cases h
    simp
  | cons scenario scenarios ih =>
    intro answer h
    obtain ⟨proof, proved, h⟩ := bind_eq_ok.mp h
    rw [forall_mem_cons, ← bestEffortProof_survives proved]
    cases survives : proof.survives with
    | false =>
      rw [survives] at h
      cases h
      simp
    | true =>
      rw [survives] at h
      rw [ih h]
      simp

theorem allSurvive_iff (distinct : layout.sliceTargets.Nodup)
    (h : allSurvive topology layout scenarios = .ok answer) : answer = true ↔ ∀ scenario ∈ scenarios,
      Survives topology scenario layout.requiredSlices layout.sliceTargets.toFinset := by
  rw [allSurvive_slices h]
  simp only [slicesSurvive_iff distinct]

variable {d : Nat}

theorem protectionLayout_ok {err : ContractError} (h : protectionLayout err d targets = .ok layout) :
    layout.requiredSlices = d ∧ layout.sliceTargets = targets := by
  unfold protectionLayout at h
  split at h
  · next made =>
    cases h
    exact ProtectionLayout.new_ok made
  · cases h

theorem all_survives_iff {P : FailureScenario → Prop}
    (exact : List.Forall₂ (fun scenario proof => proof.survives = true ↔ P scenario) scenarios proofs) :
    proofs.all ProtectionProof.survives = true ↔ ∀ scenario ∈ scenarios, P scenario := by
  induction exact with
  | nil => simp
  | cons first _ ih => rw [all_cons, and_eq_true, forall_mem_cons, ih, first]

/-- The proofs of a selection that survives every scenario, and none when it does not. -/
theorem proveAll_ok (h : proveAll topology scenarios d targets = .ok result) :
    ∃ layout : ProtectionLayout, layout.requiredSlices = d ∧ layout.sliceTargets = targets ∧
      (result.isSome = true ↔ ∀ scenario ∈ scenarios, SlicesSurvive topology scenario d targets) ∧
      ∀ proofs, result = some proofs → List.Forall₂
        (fun scenario proof => bestEffortProof topology scenario layout = .ok proof) scenarios proofs := by
  obtain ⟨layout, made, mapped⟩ := bind_eq_ok.mp h
  obtain ⟨rfl, rfl⟩ := protectionLayout_ok made
  obtain ⟨proofs, proved, answer⟩ := bind_eq_ok.mp mapped
  cases answer
  have all := forall₂_of_mapM proved
  refine ⟨layout, rfl, rfl, ?_, ?_⟩
  · rw [← all_survives_iff (all.imp fun _ _ h => bestEffortProof_survives h)]
    split <;> simp_all
  · intro kept same
    split at same
    · cases same
      exact all
    · cases same

theorem card_toFinset {κ : Type} [LinearOrder κ] (s : OrdSet κ) : s.card = s.elems.toFinset.card := by
  rw [OrdSet.card, toFinset_card_of_nodup]
  exact s.sorted.imp (ne_of_lt ·)

section Cells

variable {request : PlacementRequest} {candidates : List PlacementCandidate} {selected : List TargetId}

theorem localCandidates_nodup (pool : Pool request candidates) (selected : List TargetId)
    (cellId : AvailabilityCellId) : ((localCandidates candidates selected cellId).map targetId).Nodup :=
  pool.distinct.sublist (filter_sublist.map _)

section

variable (valid : ValidRequest request) (pool : Pool request candidates)
  (inside : ∀ target ∈ selected, target ∈ candidates.map targetId)

include valid pool inside

theorem localCandidates_toFinset (cellId : AvailabilityCellId) :
    ((localCandidates candidates selected cellId).map targetId).toFinset =
      localTargets request cellId selected.toFinset := by
  ext target
  simp only [localCandidates, mem_toFinset, mem_map, mem_filter, and_eq_true,
    decide_eq_true_eq, localTargets, Finset.mem_filter]
  constructor
  · rintro ⟨candidate, ⟨member, chosen, inCell⟩, rfl⟩
    exact ⟨chosen, (valid.targetInCell_iff (pool.sub candidate member)).mpr inCell⟩
  · rintro ⟨chosen, inCell⟩
    obtain ⟨candidate, member, rfl⟩ := mem_map.mp (inside target chosen)
    exact ⟨candidate, ⟨member, chosen, (valid.targetInCell_iff (pool.sub candidate member)).mp inCell⟩, rfl⟩

omit valid pool inside in
theorem distinctHosts_eq (valid : ValidRequest request) (pool : Pool request candidates) :
    distinctHosts candidates =
      (hostsOf request.topology (candidates.map targetId).toFinset).card := by
  have hosts : hostsOf request.topology (candidates.map targetId).toFinset =
      (candidates.map hostId).toFinset.image some := by
    ext host
    simp only [hostsOf, Finset.mem_image, mem_toFinset, mem_map, exists_exists_and_eq_and]
    constructor
    · rintro ⟨candidate, member, rfl⟩
      exact ⟨candidate, member, (valid.hosted candidate (pool.sub candidate member)).symm⟩
    · rintro ⟨candidate, member, rfl⟩
      exact ⟨candidate, member, valid.hosted candidate (pool.sub candidate member)⟩
  rw [hosts, Finset.card_image_of_injective _ (Option.some_injective _), distinctHosts, card_toFinset]
  congr 1
  ext host
  simp [OrdSet.mem_elems]

omit valid pool inside in
theorem cellSatisfied_iff {cell : PlacementCellRequirement}
    (h : cellSatisfied topology candidates selected d cell = .ok answer) :
    answer = true ↔ CellMet topology candidates selected d cell := by
  unfold cellSatisfied at h
  dsimp only at h
  by_cases durable : (localCandidates candidates selected cell.cellId).length <
      cell.minimumDurableTargets.getD (if cell.completeLocal = true then d else 0)
  · rw [if_pos durable] at h
    cases h
    simp only [false_eq_true, false_iff]
    exact (durable.not_ge ·.durable)
  rw [if_neg durable] at h
  split at h
  · next nodes =>
    cases h
    simp only [false_eq_true, false_iff]
    exact (nodes.not_ge ·.nodes)
  next nodes =>
  have asked : (cell.completeLocal || !cell.localScenarios.isEmpty) = true ↔
      cell.completeLocal = true ∨ cell.localScenarios ≠ [] := by
    simp
  split at h
  · next isAsked =>
    split at h
    · next few =>
      cases h
      simp only [false_eq_true, false_iff]
      exact fun met => few.not_ge (met.decodes (asked.mp isAsked)).1
    next enough =>
    obtain ⟨layout, made, survived⟩ := bind_eq_ok.mp h
    obtain ⟨rfl, targets⟩ := protectionLayout_ok made
    rw [allSurvive_slices survived, targets]
    constructor
    · exact fun survive =>
        ⟨Nat.le_of_not_lt durable, Nat.le_of_not_lt nodes, fun _ => ⟨Nat.le_of_not_lt enough, survive⟩⟩
    · exact fun met => (met.decodes (asked.mp isAsked)).2
  · next notAsked =>
    cases h
    simp only [true_iff]
    exact ⟨Nat.le_of_not_lt durable, Nat.le_of_not_lt nodes, fun is => absurd (asked.mpr is) notAsked⟩

/-- In a valid request a cell asks the same of the selected candidates and of their targets. -/
theorem cellMet_iff (cell : PlacementCellRequirement) :
    CellMet request.topology candidates selected d cell ↔ CellHolds request cell d selected.toFinset := by
  have nodup := localCandidates_nodup pool selected cell.cellId
  have same := localCandidates_toFinset valid pool inside cell.cellId
  have count : (localCandidates candidates selected cell.cellId).length =
      (localTargets request cell.cellId selected.toFinset).card := by
    rw [← same, toFinset_card_of_nodup nodup, length_map]
  have inCell : Pool request (localCandidates candidates selected cell.cellId) :=
    pool.sublist filter_sublist
  have hosts := distinctHosts_eq valid inCell
  rw [same] at hosts
  have survive : ∀ scenario, SlicesSurvive request.topology scenario d
      ((localCandidates candidates selected cell.cellId).map targetId) ↔
      Survives request.topology scenario d (localTargets request cell.cellId selected.toFinset) :=
    fun scenario => (slicesSurvive_iff nodup).trans (by rw [same])
  constructor
  · rintro ⟨durable, nodes, decodes⟩
    simp only [count, hosts, survive] at durable nodes decodes
    exact ⟨durable, nodes, decodes⟩
  · rintro ⟨durable, nodes, decodes⟩
    simp only [← count, ← hosts, ← survive] at durable nodes decodes
    exact ⟨durable, nodes, decodes⟩

omit valid pool inside in
theorem allSatisfied_iff {cells : List PlacementCellRequirement} :
    ∀ {answer : Bool}, allSatisfied topology candidates selected d cells = .ok answer →
      (answer = true ↔ ∀ cell ∈ cells, CellMet topology candidates selected d cell) := by
  induction cells with
  | nil =>
    intro answer h
    cases h
    simp
  | cons cell cells ih =>
    intro answer h
    obtain ⟨first, asked, h⟩ := bind_eq_ok.mp h
    rw [forall_mem_cons, ← cellSatisfied_iff asked]
    cases first with
    | false =>
      cases h
      simp
    | true =>
      rw [ih (by simpa using h)]
      simp

theorem cellConstraintsSatisfied_iff {enforceEventual : Bool}
    (h : cellConstraintsSatisfied request.topology candidates selected request.cells enforceEventual d =
      .ok answer) :
    answer = true ↔ ∀ cell ∈ request.cells, cellEnforced enforceEventual cell = true →
      CellHolds request cell d selected.toFinset := by
  rw [allSatisfied_iff h]
  simp only [mem_filter, and_imp, cellMet_iff valid pool inside]

end

end Cells

end Checks

/-! ## What the searches keep -/

section Search

variable {request : PlacementRequest} {candidates : List PlacementCandidate} {enforceEventual : Bool} {d : Nat}

/-- What the checks ask of a selection: a layout of its targets that survives every scenario, and every
cell asked for in the pass met. -/
structure Meets (constraints : SelectionConstraints) (selected : List TargetId) : Prop where
  decodable : constraints.dataSlices ≤ selected.length
  bounded : selected.length ≤ maxSlicesPerStripe
  scenarios : ∀ scenario ∈ constraints.scenarios,
    SlicesSurvive constraints.topology scenario constraints.dataSlices selected
  cells : ∀ cell ∈ constraints.cells, cellEnforced constraints.enforceEventual cell = true →
    CellMet constraints.topology constraints.candidates selected constraints.dataSlices cell

/-- The targets survive every scenario and meet every cell asked for in the pass. -/
structure Protective (request : PlacementRequest) (enforceEventual : Bool) (d : Nat)
    (targets : Finset TargetId) : Prop where
  scenarios : ∀ scenario ∈ request.scenarios, Survives request.topology scenario d targets
  cells : ∀ cell ∈ request.cells, cellEnforced enforceEventual cell = true → CellHolds request cell d targets

/-- The proofs are the exact proofs of the request's scenarios for these targets. -/
def ExactProofs (request : PlacementRequest) (d : Nat) (targets : Finset TargetId)
    (proofs : List ProtectionProof) : Prop :=
  List.Forall₂ (fun scenario proof => ExactProof request.topology scenario d targets proof)
    request.scenarios proofs

/-- A selection of some candidates that the checks accept. -/
structure Accepted (request : PlacementRequest) (candidates : List PlacementCandidate)
    (enforceEventual : Bool) (d : Nat) (selection : CandidateSelection) : Prop where
  chosen : selection.targets.Sublist (candidates.map targetId)
  protective : Protective request enforceEventual d selection.targets.toFinset
  proofs : ExactProofs request d selection.targets.toFinset selection.proofs

variable {selected : List TargetId}

/-- The acceptance check decides whether a selection meets the constraints. -/
theorem acceptSelection_ok (h : acceptSelection constraints selected = .ok result) :
    ∃ layout : ProtectionLayout, layout.requiredSlices = constraints.dataSlices ∧
      layout.sliceTargets = selected ∧ (result.isSome = true ↔ Meets constraints selected) ∧
      ∀ proofs, result = some proofs → List.Forall₂
        (fun scenario proof => bestEffortProof constraints.topology scenario layout = .ok proof)
        constraints.scenarios proofs := by
  obtain ⟨proved, ran, h⟩ := bind_eq_ok.mp h
  obtain ⟨layout, required, targets, survive, exact⟩ := proveAll_ok ran
  have decodable : constraints.dataSlices ≤ selected.length := required ▸ targets ▸ layout.decodable
  have bounded : selected.length ≤ maxSlicesPerStripe := targets ▸ layout.bounded
  refine ⟨layout, required, targets, ?_⟩
  cases proved with
  | none =>
    cases h
    refine ⟨?_, nofun⟩
    simp only [Option.isSome_none, false_eq_true, false_iff] at survive ⊢
    exact (survive ·.scenarios)
  | some proofs =>
    obtain ⟨met, asked, h⟩ := bind_eq_ok.mp h
    have cells := allSatisfied_iff asked
    simp only [mem_filter, and_imp] at cells
    cases met with
    | false =>
      cases h
      refine ⟨?_, nofun⟩
      simp only [false_eq_true, false_iff, Option.isSome_none] at cells ⊢
      exact (cells ·.cells)
    | true =>
      cases h
      refine ⟨?_, fun kept same => Option.some.inj same ▸ exact proofs rfl⟩
      simp only [Option.isSome_some, true_iff] at survive cells ⊢
      exact ⟨decodable, bounded, survive, cells⟩

/-- In a valid request it decides whether a selection is protective, and returns its exact proofs. -/
theorem acceptSelection_iff (valid : ValidRequest request) (pool : Pool request candidates)
    (chosen : selected.Sublist (candidates.map targetId))
    (h : acceptSelection (constraintsOf request enforceEventual d candidates) selected = .ok result) :
    (result.isSome = true ↔ Protective request enforceEventual d selected.toFinset) ∧
      ∀ proofs, result = some proofs → ExactProofs request d selected.toFinset proofs := by
  obtain ⟨layout, required, rfl, meets, proved⟩ := acceptSelection_ok h
  have distinct := pool.distinct.sublist chosen
  change layout.requiredSlices = d at required
  subst required
  have cells := cellMet_iff (d := layout.requiredSlices) valid pool fun _ member => chosen.subset member
  refine ⟨meets.trans ⟨?_, ?_⟩, ?_⟩
  · exact fun met => ⟨fun scenario asked => (slicesSurvive_iff distinct).mp (met.scenarios scenario asked),
      fun cell asked enforced => (cells cell).mp (met.cells cell asked enforced)⟩
  · exact fun protective => ⟨layout.decodable, layout.bounded,
      fun scenario asked => (slicesSurvive_iff distinct).mpr (protective.scenarios scenario asked),
      fun cell asked enforced => (cells cell).mpr (protective.cells cell asked enforced)⟩
  · exact fun proofs same => (proved proofs same).imp fun _ _ h => bestEffortProof_exact distinct h

theorem chooseExact_eq (constraints : SelectionConstraints) :
    ∀ (k start : Nat) (selected : List TargetId), k ≤ constraints.candidates.length →
      chooseExact constraints k start selected =
        firstSome (fun more => chooseExact constraints 0 0 (selected ++ more.map targetId))
          (combos k (constraints.candidates.drop start)) := by
  intro k
  induction k with
  | zero =>
    intro start selected _
    rw [combos_zero, firstSome_singleton]
    simp [chooseExact]
  | succ k ih =>
    intro start selected room
    rw [chooseExact, if_neg (by omega), combos_loop rfl, firstSome_flatMap]
    apply firstSome_congr
    intro round _
    rw [ih _ _ (by omega), firstSome_map]
    simp

/-- The selections the exact search tries, in its order. -/
def trials (candidates : List PlacementCandidate) (d : Nat) : List (List PlacementCandidate) :=
  (range' d (min candidates.length maximumSlices + 1 - d)).flatMap (combos · candidates)

theorem mem_trials {more : List PlacementCandidate} :
    more ∈ trials candidates d ↔ more.Sublist candidates ∧ d ≤ more.length ∧ more.length ≤ maximumSlices := by
  simp only [trials, mem_flatMap, mem_range'_1, mem_combos]
  constructor
  · rintro ⟨count, range, sub, rfl⟩
    exact ⟨sub, by omega, by omega⟩
  · rintro ⟨sub, low, high⟩
    have := sub.length_le
    exact ⟨more.length, by omega, sub, rfl⟩

/-- The exact search is one loop over its trials. -/
theorem exactSelection_eq (constraints : SelectionConstraints) : exactSelection constraints =
      firstSome (fun more => chooseExact constraints 0 0 (more.map targetId))
        (trials constraints.candidates constraints.dataSlices) := by
  rw [exactSelection, trials, firstSome_flatMap]
  apply firstSome_congr
  intro count member
  rw [mem_range'_1] at member
  rw [chooseExact_eq _ _ _ _ (by omega)]
  simp

variable {selection : CandidateSelection}

theorem chooseExact_zero_some (h : chooseExact constraints 0 0 selected = .ok (some selection)) :
    selection.targets = selected ∧ acceptSelection constraints selected = .ok (some selection.proofs) := by
  obtain ⟨answer, accepted, h⟩ := bind_eq_ok.mp h
  cases answer with
  | none => cases h
  | some proofs =>
    cases h
    exact ⟨rfl, accepted⟩

section

variable (valid : ValidRequest request) (pool : Pool request candidates)

include valid pool

theorem accepted_of_acceptSelection (chosen : selected.Sublist (candidates.map targetId))
    (h : acceptSelection (constraintsOf request enforceEventual d candidates) selected = .ok (some proofs)) :
    Accepted request candidates enforceEventual d ⟨selected, proofs⟩ := by
  obtain ⟨protective, exact⟩ := acceptSelection_iff valid pool chosen h
  exact ⟨chosen, protective.mp rfl, exact proofs rfl⟩

theorem exactSelection_accepted
    (h : exactSelection (constraintsOf request enforceEventual d candidates) = .ok (some selection)) :
    Accepted request candidates enforceEventual d selection := by
  rw [exactSelection_eq] at h
  obtain ⟨before, more, after, split, -, hit⟩ := firstSome_eq_some.mp h
  have member : more ∈ trials candidates d := by
    change trials candidates d = _ at split
    rw [split]
    simp
  obtain ⟨targets, accepted⟩ := chooseExact_zero_some hit
  have := accepted_of_acceptSelection valid pool ((mem_trials.mp member).1.map _) accepted
  rwa [← targets] at this

/-- Pruning drops a target only when the rest is accepted. -/
theorem pruneFrom_accepted (index : Nat) :
    ∀ {before after : CandidateSelection}, Accepted request candidates enforceEventual d before →
      pruneFrom (constraintsOf request enforceEventual d candidates) index before = .ok after →
      Accepted request candidates enforceEventual d after := by
  induction index with
  | zero =>
    intro before after accepted h
    cases h
    exact accepted
  | succ index ih =>
    intro before after accepted h
    unfold pruneFrom at h
    split at h
    · obtain ⟨answer, asked, h⟩ := bind_eq_ok.mp h
      cases answer with
      | none => exact ih accepted h
      | some proofs =>
        have chosen := (eraseIdx_sublist before.targets index).trans accepted.chosen
        exact ih (accepted_of_acceptSelection valid pool chosen asked) h
    · cases h
      exact accepted

theorem prunedSelection_accepted
    (h : prunedSelection (constraintsOf request enforceEventual d candidates) = .ok (some selection)) :
    Accepted request candidates enforceEventual d selection := by
  obtain ⟨answer, asked, h⟩ := bind_eq_ok.mp h
  cases answer with
  | none => cases h
  | some proofs =>
    have start := accepted_of_acceptSelection valid pool ((take_sublist _ _).map _) asked
    obtain ⟨result, pruned, same⟩ := map_eq_ok.mp h
    cases same
    exact pruneFrom_accepted valid pool _ start pruned

/-- A geometry keeps an accepted selection of at least `d` targets and lays its slices out. -/
theorem planGeometry_some {bytes : Nat} {found : GeometrySelection}
    (h : planGeometry (constraintsOf request enforceEventual d candidates) bytes = .ok (some found)) :
    Accepted request candidates enforceEventual d ⟨found.targets, found.proofs⟩ ∧
      found.layout.dataSlices = d ∧ found.layout.sliceBytes = bytes ∧
      found.targets.length = found.layout.dataSlices + found.layout.recoverySlices := by
  unfold planGeometry at h
  split at h
  · cases h
  obtain ⟨selection, searched, h⟩ := bind_eq_ok.mp h
  cases selection with
  | none => cases h
  | some selection =>
    have accepted : Accepted request candidates enforceEventual d selection := by
      unfold searchSelection at searched
      split at searched
      · exact exactSelection_accepted valid pool searched
      · exact prunedSelection_accepted valid pool searched
    dsimp only at h
    split at h
    · cases h
    next enough =>
    obtain ⟨layout, made, h⟩ := bind_eq_ok.mp h
    cases h
    unfold CodingLayout.new at made
    split at made
    · cases made
      refine ⟨accepted, rfl, rfl, ?_⟩
      change selection.targets.length = d + (selection.targets.length - d)
      have : d ≤ selection.targets.length := Nat.le_of_not_lt enough
      omega
    · cases made

end

end Search

end Placement

end MeshSpan
