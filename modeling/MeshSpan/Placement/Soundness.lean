import MeshSpan.Placement.Checks

/- What a returned placement plan guarantees.

   The closure of the acknowledgement roles starts from the targets in cells that
   gate the commit and stops only at a set that meets the predicates
   (`acknowledgementRoles_ok`), so the required targets alone keep every promise of
   the plan. Both searches and the best-effort fallback hand `buildPlan` a selection
   that the checks accepted (`Selected`), and the result is `plan_write_sound`. -/

namespace MeshSpan

open List

namespace Placement

open Ordered Combination PlacementCandidate

/-! ## Acknowledgement roles -/

section Roles

variable {request : PlacementRequest} {d : Nat} {strong : Bool}

def requiredTargets (targets : List TargetId) (roles : List ShardAcknowledgement) : Finset TargetId :=
  (((targets.zip roles).filter fun route => decide (route.2 = .required)).map Prod.fst).toFinset

variable {target : TargetId} {required : OrdSet TargetId} {d logicalBytes : Nat}

theorem mem_requiredTargets {targets : List TargetId} {role : TargetId → ShardAcknowledgement} :
    target ∈ requiredTargets targets (targets.map role) ↔ target ∈ targets ∧ role target = .required := by
  rw [requiredTargets, ← map_prod_left_eq_zip]
  simp only [mem_toFinset, mem_map, mem_filter, decide_eq_true_eq]
  constructor
  · rintro ⟨route, ⟨⟨other, member, rfl⟩, required⟩, rfl⟩
    exact ⟨member, required⟩
  · rintro ⟨member, required⟩
    exact ⟨(target, role target), ⟨⟨target, member, rfl⟩, required⟩, rfl⟩

theorem requiredHosts_card (valid : ValidRequest request)
    (inside : ∀ target ∈ required, target ∈ request.candidates.map targetId) :
    (requiredHosts request required).card = (hostsOf request.topology required.elems.toFinset).card := by
  have found : ∀ target ∈ required, ∃ host, request.topology.targetHost target = some host ∧
      (request.candidates.find? (fun candidate => candidate.targetId = target)).map
        hostId = some host := by
    intro target member
    obtain ⟨candidate, hc, rfl⟩ := mem_map.mp (inside target member)
    have some : (request.candidates.find? (fun other => other.targetId = candidate.targetId)).isSome :=
      find?_isSome.mpr ⟨candidate, hc, by simp⟩
    obtain ⟨other, hit⟩ := Option.isSome_iff_exists.mp some
    have same : other.targetId = candidate.targetId := by simpa using find?_some hit
    rw [hit]
    exact ⟨other.hostId, same ▸ valid.hosted other (mem_of_find?_eq_some hit), rfl⟩
  have hosts : hostsOf request.topology required.elems.toFinset =
      (requiredHosts request required).elems.toFinset.image some := by
    ext host
    simp only [hostsOf, Finset.mem_image, mem_toFinset, requiredHosts, OrdSet.mem_elems,
      OrdSet.mem_ofList, mem_filterMap]
    constructor
    · rintro ⟨target, member, rfl⟩
      obtain ⟨host, known, hit⟩ := found target member
      exact ⟨host, ⟨target, member, hit⟩, known.symm⟩
    · rintro ⟨host, ⟨target, member, hit⟩, rfl⟩
      obtain ⟨other, known, hit'⟩ := found target member
      exact ⟨target, member, by rw [known, ← hit', hit]⟩
  rw [hosts, Finset.card_image_of_injective _ (Option.some_injective _), card_toFinset]

structure Acknowledges (request : PlacementRequest) (d : Nat) (strong : Bool) (targets : Finset TargetId) :
    Prop where
  enough : EnoughTargets request d targets
  survives : strong = true → ∀ scenario ∈ request.requiredScenarios, Survives request.topology scenario d targets

theorem acknowledgementPredicatesSatisfied_iff (valid : ValidRequest request)
    (inside : ∀ target ∈ required, target ∈ request.candidates.map targetId) {answer : Bool}
    (h : acknowledgementPredicatesSatisfied request required d strong = .ok answer) :
    answer = true ↔ Acknowledges request d strong required.elems.toFinset := by
  have nodup : required.elems.Nodup := required.sorted.imp (ne_of_lt ·)
  unfold acknowledgementPredicatesSatisfied at h
  dsimp only at h
  rw [card_toFinset, requiredHosts_card valid inside] at h
  split at h
  · next few =>
    cases h
    simp only [Bool.false_eq_true, false_iff]
    intro acknowledges
    rcases few with few | few
    · exact few.not_ge acknowledges.enough.durable
    · exact few.not_ge acknowledges.enough.nodes
  next enough =>
  rw [not_or, not_lt, not_lt] at enough
  split at h
  · next weak =>
    cases h
    simp only [true_iff]
    refine ⟨⟨enough.1, enough.2⟩, fun isStrong scenario member => ?_⟩
    rw [isStrong] at weak
    have none : request.requiredScenarios = [] := by simpa using weak
    rw [none] at member
    cases member
  · next isStrong =>
    obtain ⟨layout, made, survived⟩ := bind_eq_ok.mp h
    obtain ⟨rfl, targets⟩ := protectionLayout_ok made
    rw [allSurvive_iff (targets ▸ nodup) survived, targets]
    constructor
    · exact fun survive => ⟨⟨enough.1, enough.2⟩, fun _ => survive⟩
    · intro acknowledges
      apply acknowledges.survives
      revert isStrong
      cases strong <;> simp

theorem closeRequired_spec {targets : List TargetId} :
    ∀ {start required : OrdSet TargetId}, closeRequired request d strong targets start = .ok required →
      (∀ target ∈ start, target ∈ required) ∧ ∀ target ∈ required, target ∈ start ∨ target ∈ targets := by
  induction targets with
  | nil =>
    intro start required h
    cases h
    exact ⟨fun _ member => member, fun _ member => .inl member⟩
  | cons first rest ih =>
    intro start required h
    obtain ⟨answer, asked, h⟩ := bind_eq_ok.mp h
    cases answer with
    | true =>
      cases h
      exact ⟨fun _ member => member, fun _ member => .inl member⟩
    | false =>
      obtain ⟨grows, within⟩ := ih (by simpa using h)
      refine ⟨fun target member => grows target (by simp [member]), fun target member => ?_⟩
      rcases within target member with old | later
      · rcases OrdSet.mem_insert.mp old with rfl | old
        exacts [.inr (by simp), .inl old]
      · exact .inr (mem_cons_of_mem _ later)

/-- The start of the strong closure: the targets in cells that gate the commit. -/
theorem mem_cellRequiredTargets {targets : List TargetId} :
    target ∈ cellRequiredTargets request targets ↔ target ∈ targets ∧
      ∃ cell ∈ request.cells, cell.role = .requiredBeforeCommit ∧ targetInCell request cell.cellId target = true := by
  have fold : ∀ (cells : List PlacementCellRequirement) (start : OrdSet TargetId),
      target ∈ cells.foldl (fun required requirement =>
        (targets.filter (targetInCell request requirement.cellId)).foldl OrdSet.insert required) start ↔
      target ∈ start ∨ target ∈ targets ∧
        ∃ cell ∈ cells, targetInCell request cell.cellId target = true := by
    intro cells
    induction cells with
    | nil => simp
    | cons cell cells ih =>
      intro start
      rw [foldl_cons, ih, OrdSet.mem_foldl_insert, mem_filter]
      simp only [mem_cons, exists_eq_or_imp]
      tauto
  rw [cellRequiredTargets, fold]
  simp only [mem_filter, decide_eq_true_eq, and_assoc]
  exact or_iff_right (by simp [OrdSet.empty, ← OrdSet.mem_elems])

/-- The targets marked `required` are targets of the plan that acknowledge the write, and in the strong
case they are all of the plan's targets in cells that gate the commit. -/
theorem acknowledgementRoles_ok (valid : ValidRequest request) {targets : List TargetId}
    (inside : ∀ target ∈ targets, target ∈ request.candidates.map targetId)
    {roles : List ShardAcknowledgement} (h : acknowledgementRoles request targets d strong = .ok roles) :
    roles.length = targets.length ∧ requiredTargets targets roles ⊆ targets.toFinset ∧
      Acknowledges request d strong (requiredTargets targets roles) ∧
      (strong = true → ∀ cell ∈ request.cells, cell.role = .requiredBeforeCommit →
        localTargets request cell.cellId (requiredTargets targets roles) =
          localTargets request cell.cellId targets.toFinset) := by
  obtain ⟨required, closed, h⟩ := bind_eq_ok.mp h
  obtain ⟨grows, within⟩ := closeRequired_spec closed
  have sub : ∀ target ∈ required, target ∈ targets := by
    intro target member
    rcases within target member with old | listed
    · split at old
      · exact (mem_cellRequiredTargets.mp old).1
      · exact absurd old (by simp [OrdSet.empty, ← OrdSet.mem_elems])
    · exact listed
  obtain ⟨answer, asked, h⟩ := bind_eq_ok.mp h
  have verdict := acknowledgementPredicatesSatisfied_iff valid
    (fun target member => inside target (sub target member)) asked
  cases answer with
  | false => cases h
  | true =>
    cases h
    have same : requiredTargets targets
        (targets.map fun target => if target ∈ required then .required else .eventual) =
        required.elems.toFinset := by
      ext target
      rw [mem_requiredTargets, mem_toFinset, OrdSet.mem_elems]
      by_cases member : target ∈ required <;> simp [member, sub]
    rw [same]
    refine ⟨by simp, ?_, verdict.mp rfl, ?_⟩
    · intro target member
      exact mem_toFinset.mpr (sub target (mem_toFinset.mp member))
    · intro isStrong cell hcell role
      ext target
      simp only [localTargets, Finset.mem_filter, mem_toFinset, OrdSet.mem_elems]
      constructor
      · exact And.imp_left (sub target)
      · rintro ⟨member, inCell⟩
        refine ⟨grows target ?_, inCell⟩
        rw [if_pos isStrong]
        exact mem_cellRequiredTargets.mpr ⟨member, cell, hcell, role, inCell⟩

/-- A cell requirement reads a set only through its targets in the cell. -/
theorem CellHolds.congr {cell : PlacementCellRequirement} {targets other : Finset TargetId}
    (holds : CellHolds request cell d targets)
    (same : localTargets request cell.cellId other = localTargets request cell.cellId targets) :
    CellHolds request cell d other :=
  ⟨same ▸ holds.durable, same ▸ holds.nodes, same ▸ holds.decodes⟩

end Roles

/-! ## Plans -/

structure SoundPlan (request : PlacementRequest) (plan : PlacementPlan) : Prop where
  distinct : plan.sliceTargets.Nodup
  eligible : ∀ target ∈ plan.sliceTargets, ∃ candidate ∈ request.candidates,
    candidate.targetId = target ∧ plan.codingLayout.sliceBytes ≤ candidate.writableBytes ∧
      ∀ cell ∈ request.cells, cell.role = .excluded → cell.cellId ∉ candidate.availabilityCells
  even : plan.codingLayout.sliceBytes % 2 = 0
  covers : request.logicalStripeBytes ≤ plan.codingLayout.dataSlices * plan.codingLayout.sliceBytes
  slices : plan.sliceTargets.length = plan.codingLayout.dataSlices + plan.codingLayout.recoverySlices
  proofs : ExactProofs request plan.codingLayout.dataSlices plan.sliceTargets.toFinset plan.protectionProofs
  survives : ∀ scenario ∈ request.requiredScenarios,
    Survives request.topology scenario plan.codingLayout.dataSlices plan.sliceTargets.toFinset
  cells : ∀ cell ∈ request.cells, cell.role = .requiredBeforeCommit →
    CellHolds request cell plan.codingLayout.dataSlices plan.sliceTargets.toFinset
  aligned : plan.acknowledgementRoles.length = plan.sliceTargets.length ∧
    plan.eventualFallbackRoles.length = plan.sliceTargets.length
  acknowledged : EnoughTargets request plan.codingLayout.dataSlices
    (requiredTargets plan.sliceTargets plan.acknowledgementRoles)
  acknowledgedSurvives : ∀ scenario ∈ request.requiredScenarios,
    Survives request.topology scenario plan.codingLayout.dataSlices
      (requiredTargets plan.sliceTargets plan.acknowledgementRoles)
  acknowledgedCells : ∀ cell ∈ request.cells, cell.role = .requiredBeforeCommit →
    CellHolds request cell plan.codingLayout.dataSlices
      (requiredTargets plan.sliceTargets plan.acknowledgementRoles)
  fallback : EnoughTargets request plan.codingLayout.dataSlices
    (requiredTargets plan.sliceTargets plan.eventualFallbackRoles)

section Plans

variable {request : PlacementRequest} {bytes : Nat}

theorem sliceBytes_ok (positive : d ≠ 0) (h : sliceBytes logicalBytes d = .ok bytes) :
    bytes % 2 = 0 ∧ logicalBytes ≤ d * bytes := by
  obtain ⟨-, h⟩ := admit_ok.mp h
  cases h
  refine ⟨by omega, ?_⟩
  have ceiling : logicalBytes ≤ d * ((logicalBytes + d - 1) / d) := by
    have := Nat.lt_mul_div_succ (logicalBytes + d - 1) (Nat.pos_of_ne_zero positive)
    rw [Nat.mul_add, Nat.mul_one] at this
    omega
  exact ceiling.trans (Nat.mul_le_mul_left d (Nat.le_add_right _ _))

theorem boundedItems_ok {α : Type} {items kept : List α} {maximum : Nat}
    (h : boundedItems items maximum = .ok kept) : kept = items := by
  obtain ⟨-, h⟩ := guard_ok.mp h
  exact (Except.ok.inj h).symm

structure Selected (request : PlacementRequest) (layout : CodingLayout) (targets : List TargetId)
    (proofs : List ProtectionProof) : Prop where
  distinct : targets.Nodup
  eligible : ∀ target ∈ targets, ∃ candidate ∈ request.candidates,
    candidate.targetId = target ∧ layout.sliceBytes ≤ candidate.writableBytes ∧
      ∀ cell ∈ request.cells, cell.role = .excluded → cell.cellId ∉ candidate.availabilityCells
  even : layout.sliceBytes % 2 = 0
  covers : request.logicalStripeBytes ≤ layout.dataSlices * layout.sliceBytes
  slices : targets.length = layout.dataSlices + layout.recoverySlices
  proofs : ExactProofs request layout.dataSlices targets.toFinset proofs
  cells : ∀ cell ∈ request.cells, cell.role = .requiredBeforeCommit →
    CellHolds request cell layout.dataSlices targets.toFinset

variable {plan : PlacementPlan}

theorem buildPlan_sound (valid : ValidRequest request) {layout : CodingLayout} {targets : List TargetId}
    {proofs : List ProtectionProof} (selected : Selected request layout targets proofs)
    (h : buildPlan request layout targets proofs = .ok plan) : SoundPlan request plan := by
  have inside : ∀ target ∈ targets, target ∈ request.candidates.map targetId := by
    intro target member
    obtain ⟨candidate, hc, same, -⟩ := selected.eligible target member
    exact mem_map.mpr ⟨candidate, hc, same⟩
  obtain ⟨protection, made, h⟩ := bind_eq_ok.mp h
  obtain ⟨required, tested⟩ := protectionLayout_ok made
  obtain ⟨answer, survived, h⟩ := bind_eq_ok.mp h
  have survives := allSurvive_iff (tested ▸ selected.distinct) survived
  rw [tested, required] at survives
  cases answer with
  | false => cases h
  | true =>
    obtain ⟨configured, strong, fallback, weak, kept, ht, h⟩ := bind₃_eq_ok.mp h
    obtain ⟨keptRoles, hr, keptFallback, hf, keptProofs, hp, h⟩ := bind₃_eq_ok.mp h
    cases h
    cases boundedItems_ok ht
    cases boundedItems_ok hr
    cases boundedItems_ok hf
    cases boundedItems_ok hp
    obtain ⟨strongLength, -, strongly, gated⟩ := acknowledgementRoles_ok valid inside strong
    obtain ⟨weakLength, -, weakly, -⟩ := acknowledgementRoles_ok valid inside weak
    exact {
      distinct := selected.distinct
      eligible := selected.eligible
      even := selected.even
      covers := selected.covers
      slices := selected.slices
      proofs := selected.proofs
      survives := survives.mp rfl
      cells := selected.cells
      aligned := ⟨strongLength, weakLength⟩
      acknowledged := strongly.enough
      acknowledgedSurvives := strongly.survives rfl
      acknowledgedCells := fun cell hcell role =>
        (selected.cells cell hcell role).congr (gated rfl cell hcell role)
      fallback := weakly.enough }

theorem mem_preferredCandidates {candidate : PlacementCandidate} :
    candidate ∈ preferredCandidates request ↔
      candidate ∈ request.candidates ∧ candidateIsExcluded candidate request.cells = false := by
  rw [preferredCandidates, sortCandidates, (perm_insertionSort _ _).mem_iff, mem_filter]
  simp

theorem preferredCandidates_pool (valid : ValidRequest request) : Pool request (preferredCandidates request) := by
  refine ⟨fun candidate member => (mem_preferredCandidates.mp member).1, ?_⟩
  rw [preferredCandidates, sortCandidates, ((perm_insertionSort _ _).map _).nodup_iff]
  exact valid.distinct.sublist (filter_sublist.map _)

theorem eligible_of_sublist {targets : List TargetId}
    (chosen : targets.Sublist ((withRoom (preferredCandidates request) bytes).map targetId)) :
    ∀ target ∈ targets, ∃ candidate ∈ request.candidates,
      candidate.targetId = target ∧ bytes ≤ candidate.writableBytes ∧
        ∀ cell ∈ request.cells, cell.role = .excluded → cell.cellId ∉ candidate.availabilityCells := by
  intro target member
  obtain ⟨candidate, room, rfl⟩ := mem_map.mp (chosen.subset member)
  obtain ⟨preferred, enough⟩ := mem_filter.mp room
  obtain ⟨known, outside⟩ := mem_preferredCandidates.mp preferred
  refine ⟨candidate, known, rfl, by simpa using enough, fun cell hcell role inCell => ?_⟩
  have : candidateIsExcluded candidate request.cells = true :=
    any_eq_true.mpr ⟨cell, hcell, by simp [role, inCell]⟩
  rw [outside] at this
  cases this

theorem mem_geometries :
    d ∈ geometries logicalBytes ↔ d ≠ 0 ∧ d ≤ preferredDataSlices logicalBytes := by
  rw [geometries, mem_reverse, mem_range'_1]
  omega

theorem planRound_sound (valid : ValidRequest request) {enforceEventual : Bool} (positive : d ≠ 0)
    (h : planRound request (preferredCandidates request) enforceEventual d = .ok (some plan)) :
    SoundPlan request plan := by
  obtain ⟨bytes, sized, selection, searched, h⟩ := bind₂_eq_ok.mp h
  cases selection with
  | none => cases h
  | some found =>
    obtain ⟨built, construction, same⟩ := map_eq_ok.mp h
    cases same
    have pool : Pool request (withRoom (preferredCandidates request) bytes) :=
      (preferredCandidates_pool valid).sublist filter_sublist
    obtain ⟨accepted, data, size, slices⟩ := planGeometry_some valid pool searched
    obtain ⟨even, covers⟩ := sliceBytes_ok positive sized
    refine buildPlan_sound valid ?_ construction
    exact {
      distinct := pool.distinct.sublist accepted.chosen
      eligible := size ▸ eligible_of_sublist accepted.chosen
      even := size ▸ even
      covers := by rw [size, data]; exact covers
      slices := slices
      proofs := data ▸ accepted.proofs
      cells := fun cell hcell role =>
        data ▸ accepted.protective.cells cell hcell (by simp [cellEnforced, role]) }

theorem buildBestEffortPlan_sound (valid : ValidRequest request)
    (h : buildBestEffortPlan request (preferredCandidates request) = .ok plan) : SoundPlan request plan := by
  obtain ⟨bytes, sized, h⟩ := bind_eq_ok.mp h
  dsimp only at h
  split at h
  · cases h
  next some =>
  obtain ⟨answer, asked, h⟩ := bind_eq_ok.mp h
  have pool := preferredCandidates_pool valid
  have chosen : (((withRoom (preferredCandidates request) bytes).take maximumSlices).map
      targetId).Sublist
      ((withRoom (preferredCandidates request) bytes).map targetId) :=
    (take_sublist _ _).map _
  have within := chosen.trans (filter_sublist.map targetId)
  have cells := cellConstraintsSatisfied_iff valid pool (fun _ member => within.subset member) asked
  cases answer with
  | false => cases h
  | true =>
    obtain ⟨layout, made, protection, laidOut, proofs, proved, h⟩ := bind₃_eq_ok.mp h
    obtain ⟨required, tested⟩ := protectionLayout_ok laidOut
    obtain ⟨even, covers⟩ := sliceBytes_ok (by decide) sized
    have distinct := pool.distinct.sublist within
    have exact := (forall₂_of_mapM proved).imp
      (fun _ _ h => bestEffortProof_exact (tested ▸ distinct) h)
    rw [tested, required] at exact
    unfold CodingLayout.new at made
    split at made
    · cases made
      refine buildPlan_sound valid ?_ h
      exact {
        distinct := distinct
        eligible := eligible_of_sublist chosen
        even := even
        covers := covers
        slices := (Nat.add_sub_cancel' (length_pos_of_ne_nil some)).symm
        proofs := exact
        cells := fun cell hcell role => cells.mp rfl cell hcell (by simp [cellEnforced, role]) }
    · cases made

/-- Every plan the planner returns is sound, whatever the topology, the cells and the search that found
it. -/
theorem plan_write_sound (placement : FaultAwarePlacement) (request : PlacementRequest)
    (plan : PlacementPlan) (h : placement.planWrite request = .ok plan) : SoundPlan request plan := by
  obtain ⟨-, -, _, validated, h⟩ := bind₂_eq_ok.mp h
  have valid := validateRequest_ok validated
  obtain ⟨found, searched, h⟩ := bind_eq_ok.mp h
  cases found with
  | none => exact buildBestEffortPlan_sound valid h
  | some result =>
    cases h
    obtain ⟨-, enforceEventual, -, -, -, pass⟩ := firstSome_eq_some.mp searched
    obtain ⟨before, d, after, listed, -, hit⟩ := firstSome_eq_some.mp pass
    have geometry : d ∈ geometries request.logicalStripeBytes := by
      rw [listed]
      simp
    exact planRound_sound valid (mem_geometries.mp geometry).1 hit

end Plans

/-! ## Three machines -/

namespace ThreeMachines

/-- One target on each of three machines, each machine a fault group of class 5. -/
def topology : Topology where
  targetHosts := ⟨[(11, 1), (12, 2), (13, 3)], by decide⟩
  faultGroups := ⟨[(21, ⟨5, [.host 1]⟩), (22, ⟨5, [.host 2]⟩), (23, ⟨5, [.host 3]⟩)], by decide⟩

def anyMachine : FailureScenario :=
  ⟨[⟨5, 1⟩], by decide, by decide, by decide, by decide⟩

/-- Two slices on two machines, either of which is enough. -/
def twoSlices : ProtectionLayout :=
  ⟨1, [11, 12], by decide, by decide, by decide⟩

theorem two_slices_outlive_any_machine :
    proveProtection topology anyMachine twoSlices 10 = .ok ⟨true, 3, 1⟩ ∧
      ∀ lost, IsPartialLoss topology anyMachine.terms lost → 1 ≤ slicesLeft topology [11, 12] lost := by
  have proved : proveProtection topology anyMachine twoSlices 10 = .ok ⟨true, 3, 1⟩ := by rfl
  exact ⟨proved, (protection_proof_exact proved).1.mp rfl⟩

def candidate (target host : Nat) (cells : List AvailabilityCellId) : PlacementCandidate where
  targetId := target
  hostId := host
  targetGeneration := 1
  writableBytes := 4096
  performanceWeight := 1
  availabilityCells := cells

/-- A small stripe that must survive any one machine, with a cell that gates the commit. -/
def request (minimumDurableTargets : Nat) : PlacementRequest where
  context := ⟨.v1_0, 1⟩
  logicalStripeBytes := 1001
  stripeFits := by decide
  scenarios := [anyMachine]
  requiredScenarios := [anyMachine]
  topology := topology
  topologyRevision := 1
  capacityRevision := 1
  candidates := [candidate 11 1 [31], candidate 12 2 [31], candidate 13 3 []]
  minimumDurableTargets := minimumDurableTargets
  minimumDistinctNodes := 1
  cells := [⟨31, .requiredBeforeCommit, false, some 1, none, []⟩]

theorem two_targets_plan_sound : ∃ plan, (FaultAwarePlacement.mk .active).planWrite (request 2) = .ok plan ∧
    plan.sliceTargets = [11, 12] ∧ SoundPlan (request 2) plan := by
  have planned : ((FaultAwarePlacement.mk .active).planWrite (request 2)).toOption.map
      PlacementPlan.sliceTargets = some [11, 12] := by decide +kernel
  cases h : (FaultAwarePlacement.mk .active).planWrite (request 2) with
  | error err =>
    rw [h] at planned
    cases planned
  | ok plan =>
    rw [h] at planned
    exact ⟨plan, rfl, Option.some.inj planned, plan_write_sound _ _ plan h⟩

end ThreeMachines

end Placement

end MeshSpan
