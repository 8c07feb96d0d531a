import MeshSpan.Placement.Topology

/- The built-in placement planner (meshspan-placement, lib.rs; meshspan-contracts, data.rs).

   Correspondence (Rust ↔ Lean)
     PlacementRequest, PlacementCandidate, …     ↔  structures of the same names
     CodingLayout                                ↔  `CodingLayout`, with what `new` checks as fields
     Vec sorted by (Reverse, Reverse, id)        ↔  `sortCandidates`, by `preferenceKey`
     for … { if let Some(x) = f()? { return } }  ↔  `firstSome`
     choose_exact (index loop)                   ↔  `chooseExact` over `rounds`
     pruned_selection (while loop)               ↔  `pruneFrom`, from the last index down
     BTreeSet<TargetId> of required targets      ↔  `OrdSet TargetId`
     blake3 policy evidence                      ↔  `policyEvidence`, the list of hashed fields
   Every u16, u32 and u64 is a natural number; the one addition that can overflow, in
   `slice_bytes`, is checked against `u32Max`. `usize` and `u16` conversions of slice
   counts cannot fail, since at most 24 slices are selected.
   Left out: the component's revisions, the operation identity and expected revision of
   a request (no planner function reads them), and the texts of the descriptor. -/

namespace MeshSpan

namespace Placement

open Ordered Combination

abbrev AvailabilityCellId := Nat

def maximumCandidates : Nat := 256
def maximumSlices : Nat := 24
def maximumScenarios : Nat := 16
def maximumCells : Nat := 256
def maximumProofLossSets : Nat := 100000
def exactSearchCandidates : Nat := 10
def defaultDataSlices : Nat := 4

/-! ## Requests and plans -/

inductive LifecycleState where
  | registered
  | active
  | draining
  | retired
deriving DecidableEq

structure FaultAwarePlacement where
  lifecycle : LifecycleState

structure ContractVersion where
  (major minor : Nat)
deriving DecidableEq

def ContractVersion.v1_0 : ContractVersion := ⟨1, 0⟩

structure RequestContext where
  contractVersion : ContractVersion
  deadline : Nat

structure PlacementCandidate where
  targetId : TargetId
  hostId : HostId
  (targetGeneration writableBytes performanceWeight : Nat)
  availabilityCells : List AvailabilityCellId

inductive PlacementCellRole where
  | requiredBeforeCommit
  | eventual
  | excluded
deriving DecidableEq

structure PlacementCellRequirement where
  cellId : AvailabilityCellId
  role : PlacementCellRole
  completeLocal : Bool
  (minimumDurableTargets minimumDistinctNodes : Option Nat)
  localScenarios : List FailureScenario

structure PlacementRequest where
  context : RequestContext
  logicalStripeBytes : Nat
  stripeFits : logicalStripeBytes ≤ u32Max
  (scenarios requiredScenarios : List FailureScenario)
  topology : Topology
  (topologyRevision capacityRevision : Nat)
  candidates : List PlacementCandidate
  (minimumDurableTargets minimumDistinctNodes : Nat)
  cells : List PlacementCellRequirement

structure CodingLayout where
  (dataSlices recoverySlices sliceBytes : Nat)
  dataPositive : dataSlices ≠ 0
  bytesPositive : sliceBytes ≠ 0
  bounded : dataSlices + recoverySlices ≤ maximumSlices

def CodingLayout.new (dataSlices recoverySlices sliceBytes : Nat) : Except ContractError CodingLayout :=
  if h : dataSlices ≠ 0 ∧ sliceBytes ≠ 0 ∧ dataSlices + recoverySlices ≤ maximumSlices then
    .ok ⟨dataSlices, recoverySlices, sliceBytes, h.1, h.2.1, h.2.2⟩
  else .error .internalContract

inductive ShardAcknowledgement where
  | required
  | eventual
deriving DecidableEq

structure PlacementPlan where
  codingLayout : CodingLayout
  sliceTargets : List TargetId
  (acknowledgementRoles eventualFallbackRoles : List ShardAcknowledgement)
  (topologyRevision capacityRevision : Nat)
  protectionProofs : List ProtectionProof
  policyEvidence : Digest

/-- `BoundedItems::new` with the error the planner maps it to. -/
def boundedItems {α : Type} (items : List α) (maximum : Nat) : Except ContractError (List α) :=
  if items.length > maximum then .error .internalContract else .ok items

/-! ## Validation -/

variable (placement : FaultAwarePlacement)

def FaultAwarePlacement.requireActive : Except ContractError Unit :=
  if placement.lifecycle = .active then .ok () else .error .unavailable

def candidatesInvalid (topology : Topology) : List PlacementCandidate → OrdSet TargetId → Bool
  | [], _ => false
  | candidate :: rest, targets =>
    (candidate.targetGeneration = 0) || (candidate.writableBytes = 0)
      || (candidate.performanceWeight = 0)
      || (candidate.availabilityCells.length > maximumCells)
      || (topology.targetHost candidate.targetId ≠ some candidate.hostId)
      || (candidate.targetId ∈ targets)
      || candidatesInvalid topology rest (targets.insert candidate.targetId)

variable (cell : PlacementCellRequirement)

def cellInvalid : Bool :=
  (cell.minimumDurableTargets = some 0) || (cell.minimumDistinctNodes = some 0)
    || (match cell.minimumDurableTargets, cell.minimumDistinctNodes with
      | some targets, some nodes => nodes > targets
      | _, _ => false)
    || ((cell.role = .excluded)
      && (cell.completeLocal || cell.minimumDurableTargets.isSome || cell.minimumDistinctNodes.isSome
        || !cell.localScenarios.isEmpty))

def cellsInvalid : List PlacementCellRequirement → OrdSet AvailabilityCellId → Bool
  | [], _ => false
  | cell :: rest, cells =>
    (cell.cellId ∈ cells) || cellInvalid cell || cellsInvalid rest (cells.insert cell.cellId)

variable (request : PlacementRequest)

def validateRequest : Except ContractError Unit :=
  if request.context.contractVersion ≠ .v1_0 ∨ request.context.deadline = 0
      ∨ request.logicalStripeBytes = 0
      ∨ request.scenarios = [] ∨ request.scenarios.length > maximumScenarios
      ∨ request.requiredScenarios.length > maximumScenarios
      ∨ (∃ required ∈ request.requiredScenarios, required ∉ request.scenarios)
      ∨ request.candidates = [] ∨ request.candidates.length > maximumCandidates
      ∨ request.cells.length > maximumCells
      ∨ request.minimumDurableTargets = 0 ∨ request.minimumDistinctNodes = 0
      ∨ request.minimumDistinctNodes > request.minimumDurableTargets
      ∨ request.topologyRevision = 0 ∨ request.capacityRevision = 0 then .error .invalidInput
  else if candidatesInvalid request.topology request.candidates OrdSet.empty then .error .invalidInput
  else if cellsInvalid request.cells OrdSet.empty then .error .invalidInput
  else .ok ()

/-! ## Candidates and slice sizes -/

variable (candidate : PlacementCandidate)

def candidateIsExcluded (cells : List PlacementCellRequirement) : Bool :=
  cells.any fun requirement => decide (requirement.role = .excluded)
    && decide (requirement.cellId ∈ candidate.availabilityCells)

/-- Heavier first, then more writable bytes first, then the smaller identifier. -/
def preferenceKey : ℕᵒᵈ ×ₗ (ℕᵒᵈ ×ₗ ℕ) :=
  toLex (OrderDual.toDual candidate.performanceWeight,
    toLex (OrderDual.toDual candidate.writableBytes, candidate.targetId))

variable (candidates : List PlacementCandidate)

def sortCandidates : List PlacementCandidate :=
  candidates.insertionSort fun a b => preferenceKey a ≤ preferenceKey b

variable (logicalBytes : Nat)

def preferredDataSlices : Nat :=
  if logicalBytes ≥ 1048576 then defaultDataSlices
  else if logicalBytes ≥ 262144 then 2
  else 1

def sliceBytes (logicalBytes dataSlices : Nat) : Except ContractError Nat :=
  let unrounded := (logicalBytes + dataSlices - 1) / dataSlices
  let bytes := unrounded + unrounded % 2
  if bytes ≤ u32Max ∧ bytes ≠ 0 then .ok bytes else .error .invalidInput

def withRoom (bytes : Nat) : List PlacementCandidate :=
  candidates.filter fun candidate => decide (candidate.writableBytes ≥ bytes)

/-! ## Proofs and cell constraints -/

variable (topology : Topology) (scenario : FailureScenario)

/-- The proof of one scenario; a scenario the topology cannot even stage is recorded as not survived. -/
def bestEffortProof (layout : ProtectionLayout) :
    Except ContractError ProtectionProof :=
  match proveProtection topology scenario layout maximumProofLossSets with
  | .ok proof => .ok proof
  | .error .insufficientTopology => .ok ⟨false, 0, 0⟩
  | .error _ => .error .invalidInput

def allSurvive (topology : Topology) (layout : ProtectionLayout) :
    List FailureScenario → Except ContractError Bool
  | [] => .ok true
  | scenario :: rest => do
    let proof ← bestEffortProof topology scenario layout
    if !proof.survives then .ok false else allSurvive topology layout rest

/-- `ProtectionLayout::new` with the error the planner maps it to. -/
def protectionLayout (err : ContractError) (dataSlices : Nat) (targets : List TargetId) :
    Except ContractError ProtectionLayout :=
  match ProtectionLayout.new dataSlices targets with
  | .ok layout => .ok layout
  | .error _ => .error err

def proveAll (scenarios : List FailureScenario) (dataSlices : Nat)
    (targets : List TargetId) : Except ContractError (Option (List ProtectionProof)) := do
  let layout ← protectionLayout .invalidInput dataSlices targets
  let proofs ← scenarios.mapM (bestEffortProof topology · layout)
  .ok (if proofs.all ProtectionProof.survives then some proofs else none)

def distinctHosts : Nat :=
  (OrdSet.ofList (candidates.map PlacementCandidate.hostId)).card

def localCandidates (selected : List TargetId)
    (cellId : AvailabilityCellId) : List PlacementCandidate :=
  candidates.filter fun candidate => decide (candidate.targetId ∈ selected)
    && decide (cellId ∈ candidate.availabilityCells)

def cellSatisfied (candidates : List PlacementCandidate) (selected : List TargetId)
    (dataSlices : Nat) (requirement : PlacementCellRequirement) : Except ContractError Bool :=
  let inCell := localCandidates candidates selected requirement.cellId
  let minimumTargets := requirement.minimumDurableTargets.getD (if requirement.completeLocal then dataSlices else 0)
  if inCell.length < minimumTargets then .ok false
  else if distinctHosts inCell < requirement.minimumDistinctNodes.getD 1 then .ok false
  else if requirement.completeLocal || !requirement.localScenarios.isEmpty then
    if inCell.length < dataSlices then .ok false
    else do
      let layout ← protectionLayout .invalidInput dataSlices (inCell.map PlacementCandidate.targetId)
      allSurvive topology layout requirement.localScenarios
  else .ok true

variable (enforceEventual : Bool)

def cellEnforced (requirement : PlacementCellRequirement) : Bool :=
  (requirement.role = .requiredBeforeCommit)
    || (enforceEventual && (requirement.role = .eventual))

def allSatisfied (topology : Topology) (candidates : List PlacementCandidate) (selected : List TargetId)
    (dataSlices : Nat) : List PlacementCellRequirement → Except ContractError Bool
  | [] => .ok true
  | requirement :: rest => do
    if ← cellSatisfied topology candidates selected dataSlices requirement then
      allSatisfied topology candidates selected dataSlices rest
    else .ok false

def cellConstraintsSatisfied (candidates : List PlacementCandidate)
    (selected : List TargetId) (cells : List PlacementCellRequirement) (enforceEventual : Bool)
    (dataSlices : Nat) : Except ContractError Bool :=
  allSatisfied topology candidates selected dataSlices (cells.filter (cellEnforced enforceEventual))

/-! ## Selection -/

structure CandidateSelection where
  targets : List TargetId
  proofs : List ProtectionProof

structure GeometrySelection where
  layout : CodingLayout
  targets : List TargetId
  proofs : List ProtectionProof

structure SelectionConstraints where
  topology : Topology
  scenarios : List FailureScenario
  cells : List PlacementCellRequirement
  enforceEventual : Bool
  dataSlices : Nat
  candidates : List PlacementCandidate

variable (constraints : SelectionConstraints)

/-- The proofs of a selection that survives every scenario and meets the cells asked for. -/
def acceptSelection (selected : List TargetId) :
    Except ContractError (Option (List ProtectionProof)) := do
  match ← proveAll constraints.topology constraints.scenarios constraints.dataSlices selected with
  | none => .ok none
  | some proofs =>
    if ← cellConstraintsSatisfied constraints.topology constraints.candidates selected constraints.cells
        constraints.enforceEventual constraints.dataSlices then .ok (some proofs)
    else .ok none

def chooseExact (constraints : SelectionConstraints) :
    Nat → Nat → List TargetId → Except ContractError (Option CandidateSelection)
  | 0, _, selected => do
    match ← acceptSelection constraints selected with
    | none => .ok none
    | some proofs => .ok (some ⟨selected, proofs⟩)
  | remaining + 1, start, selected =>
    if constraints.candidates.length < remaining + 1 then .error .internalContract
    else
      firstSome (fun round =>
          chooseExact constraints remaining (round.2 + 1) (selected ++ [round.1.targetId]))
        (rounds constraints.candidates start (constraints.candidates.length - (remaining + 1)))

def exactSelection : Except ContractError (Option CandidateSelection) :=
  let largest := min constraints.candidates.length maximumSlices
  firstSome (chooseExact constraints · 0 [])
    (List.range' constraints.dataSlices (largest + 1 - constraints.dataSlices))

/-- Tries to drop the target before `index`, then the ones before it, while more than `dataSlices` stay. -/
def pruneFrom (constraints : SelectionConstraints) :
    Nat → CandidateSelection → Except ContractError CandidateSelection
  | 0, selection => .ok selection
  | index + 1, selection =>
    if selection.targets.length > constraints.dataSlices then do
      let smaller := selection.targets.eraseIdx index
      match ← acceptSelection constraints smaller with
      | some proofs => pruneFrom constraints index ⟨smaller, proofs⟩
      | none => pruneFrom constraints index selection
    else .ok selection

def prunedSelection : Except ContractError (Option CandidateSelection) := do
  let targets := (constraints.candidates.take maximumSlices).map PlacementCandidate.targetId
  match ← acceptSelection constraints targets with
  | none => .ok none
  | some proofs => some <$> pruneFrom constraints targets.length ⟨targets, proofs⟩

/-- The exact search for few candidates, pruning for many. -/
def searchSelection : Except ContractError (Option CandidateSelection) :=
  if constraints.candidates.length ≤ exactSearchCandidates then exactSelection constraints
  else prunedSelection constraints

def planGeometry (sliceBytes : Nat) : Except ContractError (Option GeometrySelection) :=
  if constraints.candidates.length < constraints.dataSlices then .ok none
  else do
    match ← searchSelection constraints with
    | none => .ok none
    | some selection =>
      if selection.targets.length < constraints.dataSlices then .error .internalContract
      else do
        let layout ← CodingLayout.new constraints.dataSlices
          (selection.targets.length - constraints.dataSlices) sliceBytes
        .ok (some ⟨layout, selection.targets, selection.proofs⟩)

/-! ## Acknowledgement roles -/

variable (required : OrdSet TargetId)

def requiredHosts : OrdSet HostId :=
  OrdSet.ofList (required.elems.filterMap fun target =>
    (request.candidates.find? (fun candidate => decide (candidate.targetId = target))).map
      PlacementCandidate.hostId)

def acknowledgementPredicatesSatisfied
    (dataSlices : Nat) (includeStrongPredicates : Bool) : Except ContractError Bool :=
  let minimumTargets := max request.minimumDurableTargets dataSlices
  if required.card < minimumTargets ∨
      (requiredHosts request required).card < request.minimumDistinctNodes then .ok false
  else if !includeStrongPredicates || request.requiredScenarios.isEmpty then .ok true
  else do
    let layout ← protectionLayout .invalidInput dataSlices required.elems
    allSurvive request.topology layout request.requiredScenarios

def targetInCell (cellId : AvailabilityCellId) (target : TargetId) : Bool :=
  request.candidates.any fun candidate => decide (candidate.targetId = target)
    && decide (cellId ∈ candidate.availabilityCells)

variable (targets : List TargetId)

/-- The targets that a strong acknowledgement waits for in any case. -/
def cellRequiredTargets : OrdSet TargetId :=
  (request.cells.filter fun cell => decide (cell.role = .requiredBeforeCommit)).foldl
    (fun required requirement =>
      (targets.filter (targetInCell request requirement.cellId)).foldl OrdSet.insert required)
    OrdSet.empty

/-- Adds targets in order until the predicates hold. -/
def closeRequired (request : PlacementRequest) (dataSlices : Nat) (includeStrongPredicates : Bool) :
    List TargetId → OrdSet TargetId → Except ContractError (OrdSet TargetId)
  | [], required => .ok required
  | target :: rest, required => do
    if ← acknowledgementPredicatesSatisfied request required dataSlices includeStrongPredicates then
      .ok required
    else closeRequired request dataSlices includeStrongPredicates rest (required.insert target)

def acknowledgementRoles (dataSlices : Nat)
    (includeStrongPredicates : Bool) : Except ContractError (List ShardAcknowledgement) := do
  let start := if includeStrongPredicates then cellRequiredTargets request targets else OrdSet.empty
  let required ← closeRequired request dataSlices includeStrongPredicates targets start
  if ← acknowledgementPredicatesSatisfied request required dataSlices includeStrongPredicates then
    .ok (targets.map fun target => if target ∈ required then .required else .eventual)
  else .error .resourceExhausted

/-! ## Plans -/

def hashScenario : List Int :=
  Int.ofNat scenario.terms.length ::
    scenario.terms.flatMap fun term => [Int.ofNat term.classId, Int.ofNat term.failureCount]

def hashOptionalU16 : Option Nat → List Int
  | some value => [1, Int.ofNat value]
  | none => [0]

def hashRole : PlacementCellRole → Int
  | .requiredBeforeCommit => 1
  | .eventual => 2
  | .excluded => 3

def hashAcknowledgement : ShardAcknowledgement → Int
  | .required => 1
  | .eventual => 0

def hashCell : List Int :=
  [Int.ofNat cell.cellId, hashRole cell.role, if cell.completeLocal then 1 else 0]
    ++ hashOptionalU16 cell.minimumDurableTargets ++ hashOptionalU16 cell.minimumDistinctNodes
    ++ cell.localScenarios.flatMap hashScenario

def policyEvidence (layout : CodingLayout) (targets : List TargetId)
    (acknowledgementRoles eventualFallbackRoles : List ShardAcknowledgement)
    (proofs : List ProtectionProof) : Digest :=
  let cells := request.cells.insertionSort (fun a b => a.cellId ≤ b.cellId)
  let routes := targets.zip (acknowledgementRoles.zip eventualFallbackRoles)
  .framed "meshspan.placement-policy-evidence.v1"
    ([request.topologyRevision, request.capacityRevision, layout.dataSlices, layout.recoverySlices,
        layout.sliceBytes, request.minimumDurableTargets, request.minimumDistinctNodes].map Int.ofNat
      ++ request.requiredScenarios.flatMap hashScenario
      ++ cells.flatMap hashCell
      ++ routes.flatMap (fun route =>
        [Int.ofNat route.1, hashAcknowledgement route.2.1, hashAcknowledgement route.2.2])
      ++ proofs.flatMap (fun proof =>
        [if proof.survives then 1 else 0, Int.ofNat proof.evaluatedLossSets,
          Int.ofNat proof.minimumRemainingSlices]))

def buildPlan (codingLayout : CodingLayout) (targets : List TargetId)
    (proofs : List ProtectionProof) : Except ContractError PlacementPlan := do
  let layout ← protectionLayout .internalContract codingLayout.dataSlices targets
  if ← allSurvive request.topology layout request.requiredScenarios then
    let configured ← acknowledgementRoles request targets codingLayout.dataSlices true
    let fallback ← acknowledgementRoles request targets codingLayout.dataSlices false
    let evidence := policyEvidence request codingLayout targets configured fallback proofs
    let sliceTargets ← boundedItems targets maximumSlices
    let acknowledgementRoles ← boundedItems configured maximumSlices
    let eventualFallbackRoles ← boundedItems fallback maximumSlices
    let protectionProofs ← boundedItems proofs maximumScenarios
    .ok {
      codingLayout := codingLayout
      sliceTargets := sliceTargets
      acknowledgementRoles := acknowledgementRoles
      eventualFallbackRoles := eventualFallbackRoles
      topologyRevision := request.topologyRevision
      capacityRevision := request.capacityRevision
      protectionProofs := protectionProofs
      policyEvidence := evidence }
  else .error .resourceExhausted

def buildBestEffortPlan (candidates : List PlacementCandidate) :
    Except ContractError PlacementPlan := do
  let bytes ← sliceBytes request.logicalStripeBytes 1
  let targets := ((withRoom candidates bytes).take maximumSlices).map PlacementCandidate.targetId
  if targets = [] then .error .resourceExhausted
  else if ← cellConstraintsSatisfied request.topology candidates targets request.cells false 1 then
    let layout ← CodingLayout.new 1 (targets.length - 1) bytes
    let protection ← protectionLayout .internalContract 1 targets
    let proofs ← request.scenarios.mapM (bestEffortProof request.topology · protection)
    buildPlan request layout targets proofs
  else .error .resourceExhausted

/-- The candidates outside every excluded cell, in order of preference. -/
def preferredCandidates : List PlacementCandidate :=
  sortCandidates (request.candidates.filter (!candidateIsExcluded · request.cells))

def constraintsOf (dataSlices : Nat)
    (eligible : List PlacementCandidate) : SelectionConstraints where
  topology := request.topology
  scenarios := request.scenarios
  cells := request.cells
  enforceEventual := enforceEventual
  dataSlices := dataSlices
  candidates := eligible

/-- One round of the search: the plan of the first selection for this geometry, if there is one. -/
def planRound (candidates : List PlacementCandidate) (enforceEventual : Bool)
    (dataSlices : Nat) : Except ContractError (Option PlacementPlan) := do
  let bytes ← sliceBytes request.logicalStripeBytes dataSlices
  let eligible := withRoom candidates bytes
  match ← planGeometry (constraintsOf request enforceEventual dataSlices eligible) bytes with
  | none => .ok none
  | some selection => some <$> buildPlan request selection.layout selection.targets selection.proofs

/-- The data slice counts of a stripe, the preferred one first. -/
def geometries : List Nat := (List.range' 1 (preferredDataSlices logicalBytes)).reverse

def planPass (candidates : List PlacementCandidate) (enforceEventual : Bool) :
    Except ContractError (Option PlacementPlan) :=
  firstSome (planRound request candidates enforceEventual) (geometries request.logicalStripeBytes)

def FaultAwarePlacement.planWrite (request : PlacementRequest) :
    Except ContractError PlacementPlan := do
  placement.requireActive
  validateRequest request
  let candidates := preferredCandidates request
  match ← firstSome (planPass request candidates) [true, false] with
  | some plan => .ok plan
  | none => buildBestEffortPlan request candidates

end Placement

end MeshSpan
