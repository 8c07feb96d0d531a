import MeshSpan.Placement.Soundness

/- When the planner finds a plan for a small mesh.

   With at most ten candidates outside excluded cells the search is exhaustive, but
   it is a search for a protective set: one that survives the scenarios and meets the
   cells. The minimums of the acknowledgement are asked only of the first such set
   (`Choice.Earlier`: eventual cells kept rather than dropped, more data slices, fewer
   targets, preferred candidates), and a refusal there is final. So a request that
   some set satisfies is planned exactly when the first protective set already has
   enough targets on enough hosts, and when no slice size overflows before it is
   found (`plan_write_complete_iff`). -/

namespace MeshSpan

open List

namespace Placement

open Ordered Combination PlacementCandidate

/-! ## Requests within the proof bound -/

/-- Enumerating the scenario's loss sets stays within the planner's proof-work bound. -/
def Bounded (topology : Topology) (scenario : FailureScenario) : Prop :=
  scenario.groupLossSets topology maximumProofLossSets ≠ .error .proofBoundExceeded

/-- Every scenario of the request, also those local to a cell, is within the bound. -/
structure WithinBound (request : PlacementRequest) : Prop where
  scenarios : ∀ scenario ∈ request.scenarios, Bounded request.topology scenario
  cells : ∀ cell ∈ request.cells, ∀ scenario ∈ cell.localScenarios, Bounded request.topology scenario

section Total

variable {request : PlacementRequest} {candidates : List PlacementCandidate} {d : Nat}
  {targets : List TargetId} {topology : Topology} {enforceEventual : Bool} {bytes : Nat}
  {choice : Choice}

theorem protectionLayout_total (err : ContractError) (positive : d ≠ 0) (enough : d ≤ targets.length)
    (few : targets.length ≤ maxSlicesPerStripe) :
    ∃ layout, protectionLayout err d targets = .ok layout := by
  refine ⟨⟨d, targets, positive, enough, few⟩, ?_⟩
  simp [protectionLayout, ProtectionLayout.new, positive, enough, few]

def Registered (topology : Topology) (targets : List TargetId) : Prop :=
  ∀ target ∈ targets, topology.targetHost target ≠ none

variable {layout : ProtectionLayout} {scenarios : List FailureScenario}
  {candidates more : List PlacementCandidate}

theorem bestEffortProof_total {scenario : FailureScenario}
    (registered : Registered topology layout.sliceTargets) (bounded : Bounded topology scenario) :
    ∃ proof, bestEffortProof topology scenario layout = .ok proof := by
  unfold bestEffortProof
  split
  · exact ⟨_, rfl⟩
  · exact ⟨_, rfl⟩
  · next err notInsufficient failed =>
    rcases proveProtection_error (by decide) failed with ⟨-, target, member, none⟩ | ⟨same, -⟩ | ⟨-, exceeded⟩
    · exact absurd none (registered target member)
    · exact absurd same notInsufficient
    · exact absurd exceeded bounded

theorem allSurvive_total (registered : Registered topology layout.sliceTargets)
    (bounded : ∀ scenario ∈ scenarios, Bounded topology scenario) :
    ∃ answer, allSurvive topology layout scenarios = .ok answer := by
  induction scenarios with
  | nil => exact ⟨true, rfl⟩
  | cons scenario scenarios ih =>
    obtain ⟨proof, proved⟩ := bestEffortProof_total registered (bounded scenario (by simp))
    obtain ⟨rest, asked⟩ := ih fun other member => bounded other (mem_cons_of_mem _ member)
    cases survives : proof.survives with
    | true => exact ⟨rest, by simp [allSurvive, proved, survives, asked, bind, Except.bind]⟩
    | false => exact ⟨false, by simp [allSurvive, proved, survives, bind, Except.bind]⟩

theorem proveAll_total (positive : d ≠ 0) (enough : d ≤ targets.length)
    (few : targets.length ≤ maxSlicesPerStripe) (registered : Registered topology targets)
    (bounded : ∀ scenario ∈ scenarios, Bounded topology scenario) :
    ∃ result, proveAll topology scenarios d targets = .ok result := by
  obtain ⟨layout, made⟩ := protectionLayout_total .invalidInput positive enough few
  obtain ⟨-, same⟩ := protectionLayout_ok made
  obtain ⟨proofs, proved⟩ := mapM_total (l := scenarios)
    (f := fun scenario => bestEffortProof topology scenario layout)
    (fun scenario member => bestEffortProof_total (same ▸ registered) (bounded scenario member))
  exact ⟨_, bind_eq_ok.mpr ⟨layout, made, bind_eq_ok.mpr ⟨proofs, proved, rfl⟩⟩⟩

theorem Pool.registered (valid : ValidRequest request) (pool : Pool request candidates)
    (inside : ∀ target ∈ targets, target ∈ candidates.map targetId) :
    Registered request.topology targets := by
  intro target member
  obtain ⟨candidate, hc, rfl⟩ := mem_map.mp (inside target member)
  rw [valid.hosted candidate (pool.sub candidate hc)]
  exact Option.some_ne_none _

/-- What lets every check of a selection answer. -/
structure Checkable (constraints : SelectionConstraints) : Prop where
  positive : constraints.dataSlices ≠ 0
  distinct : (constraints.candidates.map targetId).Nodup
  registered : Registered constraints.topology (constraints.candidates.map targetId)
  scenarios : ∀ scenario ∈ constraints.scenarios, Bounded constraints.topology scenario
  cells : ∀ cell ∈ constraints.cells, ∀ scenario ∈ cell.localScenarios,
    Bounded constraints.topology scenario

theorem Pool.checkable (valid : ValidRequest request) (bound : WithinBound request)
    (pool : Pool request candidates) (positive : d ≠ 0) :
    Checkable (constraintsOf request enforceEventual d candidates) :=
  ⟨positive, pool.distinct, pool.registered valid fun _ member => member, bound.scenarios, bound.cells⟩

variable {selected : List TargetId} {constraints : SelectionConstraints}

theorem cellSatisfied_total (checkable : Checkable constraints)
    (few : selected.length ≤ maxSlicesPerStripe) {cell : PlacementCellRequirement}
    (asked : cell ∈ constraints.cells) :
    ∃ answer, cellSatisfied constraints.topology constraints.candidates selected constraints.dataSlices
      cell = .ok answer := by
  have sub : (localCandidates constraints.candidates selected cell.cellId).Sublist
      constraints.candidates := filter_sublist
  -- the candidates in the cell are among the selected ones, so they fit one layout
  have fits : (localCandidates constraints.candidates selected cell.cellId).length ≤
      maxSlicesPerStripe := by
    have within : (localCandidates constraints.candidates selected cell.cellId).map
        targetId ⊆ selected := by
      intro target member
      obtain ⟨candidate, inCell, rfl⟩ := mem_map.mp member
      simpa using (Bool.and_eq_true_iff.mp (mem_filter.mp inCell).2).1
    have := ((checkable.distinct.sublist (sub.map _)).subperm within).length_le
    rw [length_map] at this
    exact this.trans few
  unfold cellSatisfied
  by_cases durable : (localCandidates constraints.candidates selected cell.cellId).length <
      cell.minimumDurableTargets.getD (if cell.completeLocal = true then constraints.dataSlices else 0)
  · exact ⟨false, if_pos durable⟩
  rw [if_neg durable]
  split
  · exact ⟨false, rfl⟩
  split
  · split
    · exact ⟨false, rfl⟩
    next enough =>
    have laidOut : ∃ layout, protectionLayout .invalidInput constraints.dataSlices ((localCandidates
        constraints.candidates selected cell.cellId).map targetId) = .ok layout :=
      protectionLayout_total .invalidInput checkable.positive (by simpa using enough) (by simpa using fits)
    obtain ⟨layout, made⟩ := laidOut
    obtain ⟨-, same⟩ := protectionLayout_ok made
    obtain ⟨answer, survived⟩ := allSurvive_total
      (same ▸ fun target member => checkable.registered target ((sub.map _).subset member))
      (checkable.cells cell asked)
    exact ⟨answer, bind_eq_ok.mpr ⟨layout, made, survived⟩⟩
  · exact ⟨true, rfl⟩

theorem allSatisfied_total {cells : List PlacementCellRequirement}
    (total : ∀ cell ∈ cells, ∃ answer, cellSatisfied topology candidates selected d cell = .ok answer) :
    ∃ answer, allSatisfied topology candidates selected d cells = .ok answer := by
  induction cells with
  | nil => exact ⟨true, rfl⟩
  | cons cell cells ih =>
    obtain ⟨first, asked⟩ := total cell (by simp)
    obtain ⟨rest, askedRest⟩ := ih fun other member => total other (mem_cons_of_mem _ member)
    cases first with
    | true => exact ⟨rest, bind_eq_ok.mpr ⟨true, asked, askedRest⟩⟩
    | false => exact ⟨false, bind_eq_ok.mpr ⟨false, asked, rfl⟩⟩

theorem acceptSelection_total (checkable : Checkable constraints)
    (chosen : selected.Sublist (constraints.candidates.map targetId))
    (enough : constraints.dataSlices ≤ selected.length) (few : selected.length ≤ maxSlicesPerStripe) :
    ∃ result, acceptSelection constraints selected = .ok result := by
  obtain ⟨proved, ran⟩ := proveAll_total checkable.positive enough few
    (fun target member => checkable.registered target (chosen.subset member)) checkable.scenarios
  cases proved with
  | none => exact ⟨none, bind_eq_ok.mpr ⟨none, ran, rfl⟩⟩
  | some proofs =>
    obtain ⟨answer, asked⟩ := allSatisfied_total fun cell member =>
      cellSatisfied_total checkable few (mem_of_mem_filter
        (p := cellEnforced constraints.enforceEventual) member)
    cases answer with
    | true => exact ⟨some proofs, bind_eq_ok.mpr ⟨some proofs, ran, bind_eq_ok.mpr ⟨true, asked, rfl⟩⟩⟩
    | false => exact ⟨none, bind_eq_ok.mpr ⟨some proofs, ran, bind_eq_ok.mpr ⟨false, asked, rfl⟩⟩⟩

end Total

/-! ## Choices in the order of the search -/

/-- Fewer candidates come first, then the better ones. -/
def TriedBefore (a b : List PlacementCandidate) : Prop :=
  a.length < b.length ∨
    (a.length = b.length ∧ List.Lex (fun x y => preferenceKey x < preferenceKey y) a b)

/-- A pass, a geometry and the candidates taken for it. -/
structure Choice where
  enforceEventual : Bool
  dataSlices : Nat
  members : List PlacementCandidate

namespace Choice

def targets (choice : Choice) : Finset TargetId := (choice.members.map targetId).toFinset

/-- Keeping eventual cells comes before dropping them, then more data slices, then fewer and better
candidates. -/
def Earlier (a b : Choice) : Prop :=
  (a.enforceEventual = true ∧ b.enforceEventual = false) ∨
  (a.enforceEventual = b.enforceEventual ∧
    (b.dataSlices < a.dataSlices ∨
      (a.dataSlices = b.dataSlices ∧ TriedBefore a.members b.members)))

end Choice

/-- The candidates, listed by preference, lie outside excluded cells, have room for a slice of this
geometry, and together survive every scenario and meet the cells of the pass. -/
structure IsProtective (request : PlacementRequest) (choice : Choice) : Prop where
  geometry : choice.dataSlices ∈ geometries request.logicalStripeBytes
  sorted : choice.members.Pairwise fun x y => preferenceKey x < preferenceKey y
  eligible : ∃ bytes, sliceBytes request.logicalStripeBytes choice.dataSlices = .ok bytes ∧
    ∀ candidate ∈ choice.members, candidate ∈ request.candidates ∧
      candidateIsExcluded candidate request.cells = false ∧ bytes ≤ candidate.writableBytes
  protective : Protective request choice.enforceEventual choice.dataSlices choice.targets

/-- The protective choice that comes before every other one. -/
structure IsFirst (request : PlacementRequest) (choice : Choice) : Prop where
  protective : IsProtective request choice
  first : ∀ other, IsProtective request other → ¬ other.Earlier choice

/-- Some set of candidates outside excluded cells, with room for a slice of some geometry, satisfies
every scenario, every cell that gates the commit and the minimums of the acknowledgement. -/
def Feasible (request : PlacementRequest) : Prop :=
  ∃ (d bytes : Nat) (targets : Finset TargetId), 1 ≤ d ∧ d ≤ preferredDataSlices request.logicalStripeBytes ∧
    sliceBytes request.logicalStripeBytes d = .ok bytes ∧
    (∀ target ∈ targets, ∃ candidate ∈ request.candidates, candidate.targetId = target ∧
      candidateIsExcluded candidate request.cells = false ∧ bytes ≤ candidate.writableBytes) ∧
    (∀ scenario ∈ request.scenarios, Survives request.topology scenario d targets) ∧
    (∀ cell ∈ request.cells, cell.role = .requiredBeforeCommit → CellHolds request cell d targets) ∧
    request.minimumDurableTargets ≤ targets.card ∧
    request.minimumDistinctNodes ≤ (hostsOf request.topology targets).card

section Order

variable {request : PlacementRequest} {choice : Choice}

theorem preferenceKey_injective (valid : ValidRequest request) {a b : PlacementCandidate}
    (ha : a ∈ request.candidates) (hb : b ∈ request.candidates) (same : preferenceKey a = preferenceKey b) :
    a = b := by
  apply valid.candidate_eq ha hb
  have := congrArg (fun key => (ofLex (ofLex key).2).2) same
  exact this

theorem preferredCandidates_sorted (valid : ValidRequest request) :
    (preferredCandidates request).Pairwise fun x y => preferenceKey x < preferenceKey y := by
  have weak : (preferredCandidates request).Pairwise fun x y => preferenceKey x ≤ preferenceKey y :=
    pairwise_insertionSort (fun a b => preferenceKey a ≤ preferenceKey b) _
  have pool := preferredCandidates_pool valid
  have nodup : (preferredCandidates request).Nodup := pool.distinct.of_map
  refine (weak.and nodup).imp_of_mem fun {a b} ha hb h => lt_of_le_of_ne h.1 ?_
  exact fun same => h.2 (preferenceKey_injective valid (pool.sub a ha) (pool.sub b hb) same)

/-- Sorted candidates with room are a selection from the preferred ones. -/
theorem sublist_of_eligible (valid : ValidRequest request) {members : List PlacementCandidate}
    (sorted : members.Pairwise fun x y => preferenceKey x < preferenceKey y)
    (eligible : ∀ candidate ∈ members, candidate ∈ request.candidates ∧
      candidateIsExcluded candidate request.cells = false ∧ bytes ≤ candidate.writableBytes) :
    members.Sublist (withRoom (preferredCandidates request) bytes) := by
  have antisymm : Std.Antisymm fun x y : PlacementCandidate => preferenceKey x < preferenceKey y :=
    ⟨fun _ _ less more => absurd less more.asymm⟩
  have nodup : members.Nodup := sorted.imp fun less same => (same ▸ less).false
  apply sublist_of_subperm_of_pairwise (subperm_of_subset nodup ?_) sorted
  · exact (preferredCandidates_sorted valid).sublist filter_sublist
  · intro candidate member
    obtain ⟨known, outside, room⟩ := eligible candidate member
    exact mem_filter.mpr ⟨mem_preferredCandidates.mpr ⟨known, outside⟩, by simpa using room⟩

variable {d : Nat}

theorem trials_sorted (sorted : candidates.Pairwise fun x y => preferenceKey x < preferenceKey y) :
    (trials candidates d).Pairwise TriedBefore := by
  rw [trials, pairwise_flatMap]
  constructor
  · intro count _
    refine (combos_lex sorted).imp_of_mem fun {a b} ha hb lex => .inr ⟨?_, lex⟩
    rw [(mem_combos.mp ha).2, (mem_combos.mp hb).2]
  · refine (pairwise_lt_range' ..).imp fun {m n} less => ?_
    intro a ha b hb
    left
    rw [(mem_combos.mp ha).2, (mem_combos.mp hb).2]
    exact less

theorem TriedBefore.asymm {a b : List PlacementCandidate} (before : TriedBefore a b) : ¬ TriedBefore b a := by
  rintro (shorter | ⟨same, lex⟩)
  · rcases before with shorter' | ⟨same', -⟩ <;> omega
  · rcases before with shorter' | ⟨-, lex'⟩
    · omega
    · have asymm : Std.Asymm fun x y : PlacementCandidate => preferenceKey x < preferenceKey y :=
        ⟨fun _ _ less more => less.asymm more⟩
      exact Std.Asymm.asymm _ _ lex lex'

/-- A protective choice is one of the trials of its geometry. -/
theorem IsProtective.mem_trials (valid : ValidRequest request)
    (small : (preferredCandidates request).length ≤ exactSearchCandidates)
    (sized : sliceBytes request.logicalStripeBytes choice.dataSlices = .ok bytes)
    (protective : IsProtective request choice) :
    choice.members ∈ trials (withRoom (preferredCandidates request) bytes) choice.dataSlices := by
  obtain ⟨bytes', sized', eligible⟩ := protective.eligible
  cases sized.symm.trans sized'
  have sub := sublist_of_eligible valid protective.sorted eligible
  have few : choice.members.length ≤ exactSearchCandidates :=
    (sub.trans filter_sublist).length_le.trans small
  -- surviving one scenario already takes as many targets as there are data slices
  have enough : choice.dataSlices ≤ choice.members.length := by
    obtain ⟨scenario, rest, some⟩ := exists_cons_of_ne_nil valid.scenarios
    have survives := protective.protective.scenarios scenario (by simp [some])
    calc choice.dataSlices ≤ choice.targets.card := survives.le_card
      _ ≤ (choice.members.map targetId).length := toFinset_card_le _
      _ = choice.members.length := length_map _
  exact Placement.mem_trials.mpr ⟨sub, enough, few.trans (by decide)⟩

theorem isProtective_of_trial (valid : ValidRequest request)
    (geometry : d ∈ geometries request.logicalStripeBytes)
    (sized : sliceBytes request.logicalStripeBytes d = .ok bytes)
    (tried : more ∈ trials (withRoom (preferredCandidates request) bytes) d)
    (protective : Protective request enforceEventual d (more.map targetId).toFinset) :
    IsProtective request ⟨enforceEventual, d, more⟩ := by
  have sub := (Placement.mem_trials.mp tried).1
  refine ⟨geometry, ?_, ⟨bytes, sized, ?_⟩, protective⟩
  · exact (preferredCandidates_sorted valid).sublist (sub.trans filter_sublist)
  · intro candidate member
    obtain ⟨preferred, room⟩ := mem_filter.mp (sub.subset member)
    obtain ⟨known, outside⟩ := mem_preferredCandidates.mp preferred
    exact ⟨known, outside, by simpa using room⟩

end Order

/-! ## One round of the search -/

section Round

variable {request : PlacementRequest} {d bytes : Nat}

/-- Few candidates are searched exhaustively, one trial after the other. -/
theorem searchSelection_eq (few : candidates.length ≤ exactSearchCandidates) (enforceEventual : Bool) :
    searchSelection (constraintsOf request enforceEventual d candidates) =
      firstSome (fun more => chooseExact (constraintsOf request enforceEventual d candidates) 0 0
        (more.map targetId)) (trials candidates d) :=
  (if_pos few).trans (exactSelection_eq _)

section

variable (valid : ValidRequest request) (bound : WithinBound request)

include valid bound

/-- Within the bound a trial is accepted exactly when its targets are protective. -/
theorem chooseExact_trial (positive : d ≠ 0) (enforceEventual : Bool)
    (tried : more ∈ trials (withRoom (preferredCandidates request) bytes) d) :
    (chooseExact (constraintsOf request enforceEventual d (withRoom (preferredCandidates request) bytes)) 0 0
        (more.map targetId) = .ok none ∧
      ¬ Protective request enforceEventual d (more.map targetId).toFinset) ∨
    ∃ proofs, chooseExact (constraintsOf request enforceEventual d (withRoom (preferredCandidates request) bytes))
        0 0 (more.map targetId) =
        .ok (some ⟨more.map targetId, proofs⟩) ∧
      Accepted request (withRoom (preferredCandidates request) bytes) enforceEventual d
        ⟨more.map targetId, proofs⟩ := by
  obtain ⟨sub, low, high⟩ := mem_trials.mp tried
  have pool : Pool request (withRoom (preferredCandidates request) bytes) :=
    (preferredCandidates_pool valid).sublist filter_sublist
  have chosen := sub.map targetId
  have answered : ∃ result, acceptSelection (constraintsOf request enforceEventual d
      (withRoom (preferredCandidates request) bytes)) (more.map targetId) = .ok result :=
    acceptSelection_total (pool.checkable valid bound positive) chosen (by simpa [constraintsOf] using low)
      (by rw [length_map]; exact high)
  obtain ⟨result, answered⟩ := answered
  cases result with
  | none =>
    left
    refine ⟨bind_eq_ok.mpr ⟨none, answered, rfl⟩, ?_⟩
    have := (acceptSelection_iff valid pool chosen answered).1
    simpa using this
  | some proofs =>
    right
    exact ⟨proofs, bind_eq_ok.mpr ⟨some proofs, answered, rfl⟩,
      accepted_of_acceptSelection valid pool chosen answered⟩

theorem planRound_none (small : (preferredCandidates request).length ≤ exactSearchCandidates)
    (geometry : d ∈ geometries request.logicalStripeBytes)
    (sized : sliceBytes request.logicalStripeBytes d = .ok bytes)
    (nothing : ∀ more, ¬ IsProtective request ⟨enforceEventual, d, more⟩) :
    planRound request (preferredCandidates request) enforceEventual d = .ok none := by
  have positive := (mem_geometries.mp geometry).1
  have few : (withRoom (preferredCandidates request) bytes).length ≤ exactSearchCandidates :=
    filter_sublist.length_le.trans small
  have searched : searchSelection (constraintsOf request enforceEventual d
      (withRoom (preferredCandidates request) bytes)) = .ok none := by
    rw [searchSelection_eq few, firstSome_eq_none]
    intro more tried
    rcases chooseExact_trial valid bound positive enforceEventual tried with ⟨none, -⟩ | ⟨proofs, -, accepted⟩
    · exact none
    · exact absurd (isProtective_of_trial valid geometry sized tried accepted.protective) (nothing more)
  refine bind_eq_ok.mpr ⟨bytes, sized, bind_eq_ok.mpr ⟨none, ?_, rfl⟩⟩
  unfold planGeometry
  split
  · rfl
  · exact bind_eq_ok.mpr ⟨none, searched, rfl⟩

omit valid bound in
theorem planGeometry_found {constraints : SelectionConstraints} {selection : CandidateSelection}
    (searched : searchSelection constraints = .ok (some selection))
    (room : constraints.dataSlices ≤ constraints.candidates.length)
    (low : constraints.dataSlices ≤ selection.targets.length) (positive : constraints.dataSlices ≠ 0)
    (bytesPositive : bytes ≠ 0)
    (supported : constraints.dataSlices + (selection.targets.length - constraints.dataSlices) ≤ maximumSlices) :
    planGeometry constraints bytes = .ok (some
      ⟨⟨constraints.dataSlices, selection.targets.length - constraints.dataSlices, bytes, positive,
        bytesPositive, supported⟩, selection.targets, selection.proofs⟩) := by
  unfold planGeometry
  rw [if_neg (not_lt.mpr room)]
  refine bind_eq_ok.mpr ⟨_, searched, ?_⟩
  dsimp only
  rw [if_neg (not_lt.mpr low)]
  exact bind_eq_ok.mpr ⟨_, dif_pos ⟨positive, bytesPositive, supported⟩, rfl⟩

/-- A geometry with a protective choice hands its first one to the construction of the plan. -/
theorem planRound_some (small : (preferredCandidates request).length ≤ exactSearchCandidates)
    (isFirst : IsFirst request choice) : ∃ layout proofs, layout.dataSlices = choice.dataSlices ∧
      Selected request layout (choice.members.map targetId) proofs ∧
      planRound request (preferredCandidates request) choice.enforceEventual choice.dataSlices =
        some <$> buildPlan request layout (choice.members.map targetId) proofs := by
  obtain ⟨e, d, members⟩ := choice
  have protective := isFirst.protective
  obtain ⟨bytes, sized, -⟩ := protective.eligible
  have positive := (mem_geometries.mp protective.geometry).1
  have tried : members ∈ trials (withRoom (preferredCandidates request) bytes) d :=
    protective.mem_trials valid small sized
  obtain ⟨sub, low, high⟩ := mem_trials.mp tried
  have few : (withRoom (preferredCandidates request) bytes).length ≤ exactSearchCandidates :=
    filter_sublist.length_le.trans small
  have pool : Pool request (withRoom (preferredCandidates request) bytes) :=
    (preferredCandidates_pool valid).sublist filter_sublist
  rcases chooseExact_trial valid bound positive e tried with
    ⟨-, not⟩ | ⟨proofs, hit, accepted⟩
  · exact absurd protective.protective not
  -- every earlier trial of the geometry is refused, because the choice is the first protective one
  have searched : searchSelection (constraintsOf request e d
      (withRoom (preferredCandidates request) bytes)) =
      .ok (some ⟨members.map targetId, proofs⟩) := by
    rw [searchSelection_eq few]
    have order := trials_sorted (d := d) ((preferredCandidates_sorted valid).sublist
      (filter_sublist (p := fun candidate => candidate.writableBytes ≥ bytes)))
    obtain ⟨before, after, split⟩ := append_of_mem tried
    refine firstSome_eq_some.mpr ⟨before, members, after, split, fun more member => ?_, hit⟩
    have triedMore : more ∈ trials (withRoom (preferredCandidates request) bytes) d := by
      rw [split]
      exact mem_append_left _ member
    rcases chooseExact_trial valid bound positive e triedMore with
      ⟨none, -⟩ | ⟨_, -, acceptedMore⟩
    · exact none
    · change (trials (withRoom (preferredCandidates request) bytes) d).Pairwise TriedBefore at order
      rw [split, pairwise_append] at order
      have earlier := order.2.2 more member members (by simp)
      exact absurd (.inr ⟨rfl, .inr ⟨rfl, earlier⟩⟩)
        (isFirst.first ⟨e, d, more⟩
          (isProtective_of_trial valid protective.geometry sized triedMore acceptedMore.protective))
  obtain ⟨even, covers⟩ := sliceBytes_ok positive sized
  have bytesPositive : bytes ≠ 0 := by
    rintro rfl
    exact valid.stripe (Nat.le_zero.mp covers)
  have length : (members.map targetId).length = members.length := length_map _
  have supported : d + ((members.map targetId).length - d) ≤ maximumSlices := by omega
  have laidOut := planGeometry_found searched (low.trans sub.length_le)
    (low.trans length.ge) positive bytesPositive supported
  refine ⟨⟨d, _, bytes, positive, bytesPositive, supported⟩, proofs, rfl, ?_, ?_⟩
  rotate_left
  · unfold planRound
    simp only [sized, laidOut, bind, Except.bind]
    rfl
  · exact {
      distinct := pool.distinct.sublist accepted.chosen
      eligible := eligible_of_sublist accepted.chosen
      even := even
      covers := covers
      slices := (Nat.add_sub_cancel' (low.trans length.ge)).symm
      proofs := accepted.proofs
      cells := fun cell hcell role =>
        accepted.protective.cells cell hcell (by simp [cellEnforced, role]) }

end

end Round

/-! ## Building the plan of a selection -/

section Build

variable {request : PlacementRequest} {d : Nat} {targets : List TargetId}

theorem EnoughTargets.mono {few many : Finset TargetId} (enough : EnoughTargets request d few)
    (more : few ⊆ many) : EnoughTargets request d many :=
  ⟨enough.durable.trans (Finset.card_le_card more),
    enough.nodes.trans (Finset.card_le_card (Finset.image_subset_image more))⟩

theorem ValidRequest.registered (valid : ValidRequest request)
    (inside : ∀ target ∈ targets, target ∈ request.candidates.map targetId) :
    Registered request.topology targets := by
  have pool : Pool request request.candidates := ⟨fun _ member => member, valid.distinct⟩
  exact pool.registered valid inside

section

variable (valid : ValidRequest request) (bound : WithinBound request) (strong : Bool)
  (positive : d ≠ 0) (few : targets.length ≤ maxSlicesPerStripe)
  (inside : ∀ target ∈ targets, target ∈ request.candidates.map targetId)

include valid bound strong positive few inside

theorem acknowledgementPredicatesSatisfied_total {required : OrdSet TargetId}
    (sub : ∀ target ∈ required, target ∈ targets) :
    ∃ answer, acknowledgementPredicatesSatisfied request required d strong = .ok answer := by
  unfold acknowledgementPredicatesSatisfied
  dsimp only
  split
  · exact ⟨false, rfl⟩
  next enough =>
  rw [not_or, not_lt, not_lt] at enough
  split
  · exact ⟨true, rfl⟩
  have fits : required.elems.length ≤ maxSlicesPerStripe := by
    have nodup : required.elems.Nodup := required.sorted.imp (ne_of_lt ·)
    exact (subperm_of_subset nodup sub).length_le.trans few
  obtain ⟨layout, made⟩ := protectionLayout_total .invalidInput positive
    ((le_max_right _ _).trans enough.1) fits
  obtain ⟨-, same⟩ := protectionLayout_ok made
  have registered : Registered request.topology required.elems :=
    valid.registered fun target member => inside target (sub target member)
  obtain ⟨answer, asked⟩ := allSurvive_total (same ▸ registered)
    (fun scenario member => bound.scenarios scenario (valid.required scenario member))
  exact ⟨answer, bind_eq_ok.mpr ⟨layout, made, asked⟩⟩

/-- The closure ends at a set that meets the predicates or holds every target. -/
theorem closeRequired_total {rest : List TargetId} :
    ∀ {start : OrdSet TargetId}, (∀ target ∈ rest, target ∈ targets) →
      (∀ target ∈ start, target ∈ targets) →
      ∃ required, closeRequired request d strong rest start = .ok required ∧
        (acknowledgementPredicatesSatisfied request required d strong = .ok true ∨
          ∀ target ∈ rest, target ∈ required) := by
  induction rest with
  | nil => exact fun _ _ => ⟨_, rfl, .inr (by simp)⟩
  | cons first rest ih =>
    intro start listed sub
    obtain ⟨answer, asked⟩ :=
      acknowledgementPredicatesSatisfied_total valid bound strong positive few inside sub
    cases answer with
    | true => exact ⟨start, bind_eq_ok.mpr ⟨true, asked, rfl⟩, .inl asked⟩
    | false =>
      obtain ⟨required, closed, final⟩ := @ih (start.insert first)
        (fun target member => listed target (mem_cons_of_mem _ member))
        (fun target member => by
          rcases OrdSet.mem_insert.mp member with rfl | old
          exacts [listed _ (by simp), sub target old])
      refine ⟨required, bind_eq_ok.mpr ⟨false, asked, closed⟩, final.imp_right fun all target member => ?_⟩
      rcases mem_cons.mp member with rfl | later
      · exact (closeRequired_spec closed).1 _ (by simp)
      · exact all target later

/-- The roles are assigned exactly when all the targets together acknowledge the write. -/
theorem acknowledgementRoles_iff :
    (∃ roles, acknowledgementRoles request targets d strong = .ok roles) ↔
      Acknowledges request d strong targets.toFinset := by
  constructor
  · rintro ⟨roles, assigned⟩
    obtain ⟨-, sub, acknowledges, -⟩ := acknowledgementRoles_ok valid inside assigned
    exact ⟨acknowledges.enough.mono sub,
      fun isStrong scenario member => (acknowledges.survives isStrong scenario member).mono sub⟩
  · intro acknowledges
    have started : ∀ target ∈ (if strong = true then cellRequiredTargets request targets else OrdSet.empty),
        target ∈ targets := by
      intro target member
      split at member
      · exact (mem_cellRequiredTargets.mp member).1
      · exact absurd member (by simp [OrdSet.empty, ← OrdSet.mem_elems])
    obtain ⟨required, closed, final⟩ := closeRequired_total valid bound strong positive few inside
      (fun _ member => member) started
    have sub : ∀ target ∈ required, target ∈ targets := fun target member =>
      ((closeRequired_spec closed).2 target member).elim (started target) id
    have satisfied : acknowledgementPredicatesSatisfied request required d strong = .ok true := by
      rcases final with satisfied | all
      · exact satisfied
      -- the closure has taken every target, and all of them together do acknowledge the write
      obtain ⟨answer, asked⟩ :=
        acknowledgementPredicatesSatisfied_total valid bound strong positive few inside sub
      have verdict := acknowledgementPredicatesSatisfied_iff valid
        (fun target member => inside target (sub target member)) asked
      have same : required.elems.toFinset = targets.toFinset := by
        ext target
        rw [mem_toFinset, mem_toFinset]
        exact ⟨sub target, all target⟩
      rw [same] at verdict
      rw [asked, verdict.mpr acknowledges]
    exact ⟨_, bind_eq_ok.mpr ⟨required, closed, bind_eq_ok.mpr ⟨true, satisfied, rfl⟩⟩⟩

end

theorem boundedItems_total {α : Type} {items : List α} {maximum : Nat} (few : items.length ≤ maximum) :
    boundedItems items maximum = .ok items := by
  rw [boundedItems, if_neg (not_lt.mpr few)]

/-- The plan of a protective selection is built exactly when it has enough targets on enough hosts. -/
theorem buildPlan_iff (valid : ValidRequest request) (bound : WithinBound request) {layout : CodingLayout}
    {proofs : List ProtectionProof} (selected : Selected request layout targets proofs)
    (survives : ∀ scenario ∈ request.scenarios,
      Survives request.topology scenario layout.dataSlices targets.toFinset) :
    (∃ plan, buildPlan request layout targets proofs = .ok plan) ↔
      EnoughTargets request layout.dataSlices targets.toFinset := by
  have inside : ∀ target ∈ targets, target ∈ request.candidates.map targetId := by
    intro target member
    obtain ⟨candidate, hc, same, -⟩ := selected.eligible target member
    exact mem_map.mpr ⟨candidate, hc, same⟩
  have few : targets.length ≤ maxSlicesPerStripe := selected.slices ▸ layout.bounded
  have roles := fun strong =>
    acknowledgementRoles_iff valid bound strong layout.dataPositive few inside
  constructor
  · rintro ⟨plan, built⟩
    obtain ⟨protection, -, answer, -, built⟩ := bind₂_eq_ok.mp built
    cases answer with
    | false => cases built
    | true =>
      obtain ⟨configured, strong, -⟩ := bind_eq_ok.mp built
      exact ((roles true).mp ⟨configured, strong⟩).enough
  · intro enough
    obtain ⟨protection, made⟩ := protectionLayout_total .internalContract layout.dataPositive
      (show layout.dataSlices ≤ targets.length by rw [selected.slices]; exact Nat.le_add_right _ _) few
    obtain ⟨required, tested⟩ := protectionLayout_ok made
    have survivesRequired : ∀ scenario ∈ request.requiredScenarios,
        Survives request.topology scenario layout.dataSlices targets.toFinset :=
      fun scenario member => survives scenario (valid.required scenario member)
    obtain ⟨answer, asked⟩ := allSurvive_total (tested ▸ valid.registered inside)
      (fun scenario member => bound.scenarios scenario (valid.required scenario member))
    have verdict := allSurvive_iff (tested ▸ selected.distinct) asked
    rw [tested, required] at verdict
    rw [verdict.mpr survivesRequired] at asked
    obtain ⟨configured, strong⟩ := (roles true).mpr ⟨enough, fun _ => survivesRequired⟩
    obtain ⟨fallback, weak⟩ := (roles false).mpr ⟨enough, fun isStrong => by cases isStrong⟩
    have configuredLength := (acknowledgementRoles_ok valid inside strong).1
    have fallbackLength := (acknowledgementRoles_ok valid inside weak).1
    have proofsLength : proofs.length ≤ maximumScenarios := selected.proofs.length_eq ▸ valid.fewScenarios
    have keptTargets : boundedItems targets maximumSlices = .ok targets := boundedItems_total few
    have keptConfigured : boundedItems configured maximumSlices = .ok configured :=
      boundedItems_total (configuredLength ▸ few)
    have keptFallback : boundedItems fallback maximumSlices = .ok fallback :=
      boundedItems_total (fallbackLength ▸ few)
    unfold buildPlan
    simp [made, asked, strong, weak, keptTargets, keptConfigured, keptFallback,
      boundedItems_total proofsLength, bind, Except.bind]

end Build

/-! ## The search as a whole -/

section Whole

variable {request : PlacementRequest}

/-- Only the single-slice geometry of the largest odd stripe has no representable slice size. -/
theorem sliceBytes_total (valid : ValidRequest request)
    (geometry : d ∈ geometries request.logicalStripeBytes)
    (fits : request.logicalStripeBytes ≠ u32Max ∨ d ≠ 1) :
    ∃ bytes, sliceBytes request.logicalStripeBytes d = .ok bytes := by
  obtain ⟨positive, few⟩ := mem_geometries.mp geometry
  have stripe := valid.stripe
  have bounded := request.stripeFits
  have four : d ≤ 4 := by
    refine few.trans ?_
    unfold preferredDataSlices defaultDataSlices
    split
    · omega
    · split <;> omega
  refine ⟨_, if_pos ?_⟩
  unfold u32Max at *
  have cases : d = 1 ∨ d = 2 ∨ d = 3 ∨ d = 4 := by omega
  rcases cases with rfl | rfl | rfl | rfl <;> omega

theorem sliceBytes_overflow (largest : request.logicalStripeBytes = u32Max) :
    sliceBytes request.logicalStripeBytes 1 = .error .invalidInput := by
  rw [largest]
  decide

theorem geometries_sorted (logicalBytes : Nat) : (geometries logicalBytes).Pairwise fun a b => b < a := by
  rw [geometries, pairwise_reverse]
  exact pairwise_lt_range' ..

theorem exists_first (valid : ValidRequest request)
    (small : (preferredCandidates request).length ≤ exactSearchCandidates)
    (some : ∃ choice, IsProtective request choice) : ∃ choice, IsFirst request choice := by
  obtain ⟨⟨e₀, d₀, m₀⟩, start⟩ := some
  have passes : [true, false].Pairwise fun a b => a = true ∧ b = false := by simp
  -- first the pass, then the geometry, then the trial
  obtain ⟨e, -, ⟨d₁, m₁, inPass⟩, firstPass⟩ := exists_first_of_pairwise passes
    (p := fun e => ∃ d m, IsProtective request ⟨e, d, m⟩) ⟨e₀, by cases e₀ <;> simp, d₀, m₀, start⟩
  obtain ⟨d, geometry, ⟨m₂, inGeometry⟩, firstGeometry⟩ :=
    exists_first_of_pairwise (geometries_sorted request.logicalStripeBytes)
      (p := fun d => ∃ m, IsProtective request ⟨e, d, m⟩) ⟨d₁, inPass.geometry, m₁, inPass⟩
  obtain ⟨bytes, sized, -⟩ := inGeometry.eligible
  change sliceBytes request.logicalStripeBytes d = .ok bytes at sized
  have order := trials_sorted (d := d) ((preferredCandidates_sorted valid).sublist
    (filter_sublist (p := fun candidate => candidate.writableBytes ≥ bytes)))
  obtain ⟨m, -, protective, firstTrial⟩ := exists_first_of_pairwise order
    (p := fun m => IsProtective request ⟨e, d, m⟩) ⟨m₂, inGeometry.mem_trials valid small sized, inGeometry⟩
  refine ⟨⟨e, d, m⟩, protective, ?_⟩
  rintro ⟨e', d', m'⟩ other (⟨kept, dropped⟩ | ⟨samePass, more | ⟨sameGeometry, tried⟩⟩)
  · subst kept dropped
    rcases firstPass true (by simp) ⟨d', m', other⟩ with same | ⟨same, -⟩ <;> cases same
  · dsimp only at samePass more
    subst samePass
    rcases firstGeometry d' other.geometry ⟨m', other⟩ with rfl | less <;> omega
  · subst samePass sameGeometry
    rcases firstTrial m' (other.mem_trials valid small sized) other with rfl | before
    · exact tried.asymm tried
    · exact tried.asymm before

section

variable (valid : ValidRequest request) (bound : WithinBound request)
  (small : (preferredCandidates request).length ≤ exactSearchCandidates)

include valid bound small

section

variable (nothing : ∀ d more, ¬ IsProtective request ⟨enforceEventual, d, more⟩)

include nothing

theorem pass_none (fits : request.logicalStripeBytes ≠ u32Max) :
    planPass request (preferredCandidates request) enforceEventual = .ok none := by
  rw [planPass, firstSome_eq_none]
  intro d geometry
  obtain ⟨bytes, sized⟩ := sliceBytes_total valid geometry (.inl fits)
  exact planRound_none valid bound small geometry sized (nothing d)

/-- A pass without a protective choice fails at the last geometry when its slice size overflows. -/
theorem pass_overflow (largest : request.logicalStripeBytes = u32Max) :
    planPass request (preferredCandidates request) enforceEventual = .error .invalidInput := by
  have four : geometries request.logicalStripeBytes = [4, 3, 2] ++ [1] := by
    rw [largest]
    decide
  rw [planPass, four, firstSome_skip]
  · rw [firstSome_singleton, planRound, sliceBytes_overflow largest]
    rfl
  · intro d member
    have geometry : d ∈ geometries request.logicalStripeBytes := by
      rw [four]
      exact mem_append_left _ member
    obtain ⟨bytes, sized⟩ := sliceBytes_total valid geometry (.inr (by rintro rfl; simp at member))
    exact planRound_none valid bound small geometry sized (nothing d)

end

/-- The pass of the first protective choice builds the plan of that choice. -/
theorem pass_some (isFirst : IsFirst request choice) :
    ∃ layout proofs, layout.dataSlices = choice.dataSlices ∧
      Selected request layout (choice.members.map targetId) proofs ∧
      planPass request (preferredCandidates request) choice.enforceEventual =
        some <$> buildPlan request layout (choice.members.map targetId) proofs := by
  obtain ⟨layout, proofs, same, selected, round⟩ := planRound_some valid bound small isFirst
  refine ⟨layout, proofs, same, selected, ?_⟩
  have order := geometries_sorted request.logicalStripeBytes
  obtain ⟨before, after, split⟩ := append_of_mem isFirst.protective.geometry
  rw [split, pairwise_append] at order
  rw [planPass, split, firstSome_skip, firstSome_cons_map round]
  intro d member
  have more : choice.dataSlices < d := order.2.2 d member _ (by simp)
  have positive := (mem_geometries.mp isFirst.protective.geometry).1
  have geometry : d ∈ geometries request.logicalStripeBytes := by
    rw [split]
    exact mem_append_left _ member
  obtain ⟨bytes, sized⟩ := sliceBytes_total valid geometry (.inr (by omega))
  refine planRound_none valid bound small geometry sized fun members protective => ?_
  exact isFirst.first _ protective (.inr ⟨rfl, .inl more⟩)

end

/-- The search of an admitted request: the plan of the first pass that finds something, or the
best-effort plan. -/
theorem planWrite_eq {placement : FaultAwarePlacement} (active : placement.lifecycle = .active)
    (validated : validateRequest request = .ok ()) : placement.planWrite request =
      (firstSome (planPass request (preferredCandidates request)) [true, false] >>= fun found =>
        match found with
        | some plan => .ok plan
        | none => buildBestEffortPlan request (preferredCandidates request)) := by
  unfold FaultAwarePlacement.planWrite FaultAwarePlacement.requireActive
  rw [if_pos active, validated]
  rfl

/-- With a first protective choice, the planner returns a plan exactly when that choice has enough targets
on enough hosts and the search reaches it. -/
theorem planWrite_of_first {placement : FaultAwarePlacement} (active : placement.lifecycle = .active)
    (validated : validateRequest request = .ok ())
    (small : (preferredCandidates request).length ≤ exactSearchCandidates) (bound : WithinBound request)
    (isFirst : IsFirst request choice) : (∃ plan, placement.planWrite request = .ok plan) ↔
      EnoughTargets request choice.dataSlices choice.targets ∧
        (choice.enforceEventual = true ∨ request.logicalStripeBytes ≠ u32Max) := by
  have valid := validateRequest_ok validated
  obtain ⟨layout, proofs, same, selected, pass⟩ := pass_some valid bound small isFirst
  have built : (∃ plan, buildPlan request layout (choice.members.map targetId) proofs =
      .ok plan) ↔ EnoughTargets request choice.dataSlices choice.targets := by
    rw [← same]
    exact buildPlan_iff valid bound selected (same ▸ isFirst.protective.protective.scenarios)
  rw [planWrite_eq active validated]
  cases kept : choice.enforceEventual with
  | true =>
    rw [kept] at pass
    rw [firstSome_cons_map pass, ← built]
    cases buildPlan request layout (choice.members.map targetId) proofs <;>
      simp [bind, Except.bind, Functor.map, Except.map]
  | false =>
    rw [kept] at pass
    have nothing : ∀ d more, ¬ IsProtective request ⟨true, d, more⟩ :=
      fun d more protective => isFirst.first _ protective (.inl ⟨rfl, kept⟩)
    by_cases largest : request.logicalStripeBytes = u32Max
    · rw [firstSome_cons_error (pass_overflow valid bound small nothing largest)]
      simp [largest, bind, Except.bind]
    · rw [firstSome_cons_none (pass_none valid bound small nothing largest), firstSome_singleton, pass, ← built]
      cases buildPlan request layout (choice.members.map targetId) proofs <;>
        simp [bind, Except.bind, Functor.map, Except.map, largest]

/-- A set that meets every requirement is in particular a protective choice of the last pass. -/
theorem Feasible.isProtective (valid : ValidRequest request) (feasible : Feasible request) :
    ∃ choice, IsProtective request choice := by
  obtain ⟨d, bytes, targets, low, high, sized, eligible, survives, cells, -, -⟩ := feasible
  -- list the set in the order of preference
  let members := (withRoom (preferredCandidates request) bytes).filter
    (fun candidate => candidate.targetId ∈ targets)
  have same : (members.map targetId).toFinset = targets := by
    ext target
    simp only [members, mem_toFinset, mem_map, mem_filter, decide_eq_true_eq]
    constructor
    · rintro ⟨candidate, ⟨-, chosen⟩, rfl⟩
      exact chosen
    · intro chosen
      obtain ⟨candidate, known, rfl, outside, room⟩ := eligible target chosen
      refine ⟨candidate, ⟨mem_filter.mpr ⟨mem_preferredCandidates.mpr ⟨known, outside⟩, ?_⟩, chosen⟩, rfl⟩
      simpa using room
  have protective : Protective request false d (members.map targetId).toFinset := by
    rw [same]
    exact ⟨survives, fun cell member enforced => cells cell member (by simpa [cellEnforced] using enforced)⟩
  refine ⟨⟨false, d, members⟩, mem_geometries.mpr ⟨Nat.one_le_iff_ne_zero.mp low, high⟩, ?_,
    ⟨bytes, sized, ?_⟩, protective⟩
  · exact (preferredCandidates_sorted valid).sublist (filter_sublist.trans filter_sublist)
  · intro candidate member
    obtain ⟨preferred, room⟩ := mem_filter.mp (mem_filter.mp member).1
    obtain ⟨known, outside⟩ := mem_preferredCandidates.mp preferred
    exact ⟨known, outside, by simpa using room⟩

/-- On a small mesh a request that some set satisfies is planned exactly when the first protective choice
already has the durable targets and the hosts the acknowledgement asks for, and is found before a slice
size overflows. -/
theorem plan_write_complete_iff (placement : FaultAwarePlacement) (request : PlacementRequest)
    (active : placement.lifecycle = .active) (validated : validateRequest request = .ok ())
    (small : (request.candidates.filter
      (!candidateIsExcluded · request.cells)).length ≤ 10)
    (bound : WithinBound request) (feasible : Feasible request) :
    (∃ plan, placement.planWrite request = .ok plan) ↔
      ∃ choice, IsFirst request choice ∧ EnoughTargets request choice.dataSlices choice.targets ∧
        (choice.enforceEventual = true ∨ request.logicalStripeBytes ≠ u32Max) := by
  have valid := validateRequest_ok validated
  have few : (preferredCandidates request).length ≤ exactSearchCandidates := by
    rw [preferredCandidates, sortCandidates, length_insertionSort]
    exact small
  constructor
  · intro planned
    obtain ⟨choice, isFirst⟩ := exists_first valid few (feasible.isProtective valid)
    exact ⟨choice, isFirst, (planWrite_of_first active validated few bound isFirst).mp planned⟩
  · rintro ⟨choice, isFirst, reached⟩
    exact (planWrite_of_first active validated few bound isFirst).mpr reached

end Whole

/-! ## Three machines, two or three durable targets -/

namespace ThreeMachines

theorem request_withinBound (minimumDurableTargets : Nat) : WithinBound (request minimumDurableTargets) := by
  have bounded : Bounded topology anyMachine := by
    unfold Bounded
    decide +kernel
  refine ⟨fun scenario member => ?_, fun cell member scenario inCell => ?_⟩
  · rw [mem_singleton.mp member]
    exact bounded
  · rw [mem_singleton.mp member] at inCell
    cases inCell

/-- All three targets together meet every requirement, whatever number of durable targets up to three is
asked for. -/
theorem request_feasible {minimumDurableTargets : Nat} (few : minimumDurableTargets ≤ 3)
    (validated : validateRequest (request minimumDurableTargets) = .ok ())
    (accepted : ((acceptSelection (constraintsOf (request minimumDurableTargets) false 1
      (preferredCandidates (request minimumDurableTargets))) [11, 12, 13]).toOption.getD none).isSome) :
    Feasible (request minimumDurableTargets) := by
  have valid := validateRequest_ok validated
  have chosen : [11, 12, 13].Sublist
      ((preferredCandidates (request minimumDurableTargets)).map targetId) :=
    show [11, 12, 13].Sublist ((preferredCandidates (request 0)).map targetId) by decide +kernel
  cases answer : acceptSelection (constraintsOf (request minimumDurableTargets) false 1
      (preferredCandidates (request minimumDurableTargets))) [11, 12, 13] with
  | error err =>
    rw [answer] at accepted
    cases accepted
  | ok result =>
    rw [answer] at accepted
    have protective := (acceptSelection_iff valid (preferredCandidates_pool valid) chosen answer).1.mp accepted
    have eligible : ∀ target ∈ ({11, 12, 13} : Finset TargetId), ∃ candidate ∈ (request 0).candidates,
        candidate.targetId = target ∧ candidateIsExcluded candidate (request 0).cells = false ∧
          1002 ≤ candidate.writableBytes := by decide
    refine ⟨1, 1002, {11, 12, 13}, le_refl 1, show 1 ≤ preferredDataSlices 1001 by decide,
      show sliceBytes 1001 1 = .ok 1002 by decide, eligible, protective.scenarios, ?_, few, ?_⟩
    · exact fun cell member role => protective.cells cell member (by simp [cellEnforced, role])
    · exact show 1 ≤ (hostsOf topology {11, 12, 13}).card by decide

/-- Three durable targets are asked for and three machines are there, but the search stops at the two
targets that survive any one machine and then refuses them. -/
theorem three_durable_targets_refused : validateRequest (request 3) = .ok () ∧
      ((request 3).candidates.filter
        (!candidateIsExcluded · (request 3).cells)).length ≤ 10 ∧
      WithinBound (request 3) ∧ Feasible (request 3) ∧
      ∀ plan, (FaultAwarePlacement.mk .active).planWrite (request 3) ≠ .ok plan := by
  refine ⟨by decide +kernel, by decide, request_withinBound 3,
    request_feasible (le_refl 3) (by decide +kernel) (by decide +kernel), fun plan planned => ?_⟩
  have refused : ((FaultAwarePlacement.mk .active).planWrite (request 3)).toOption.isSome = false := by
    decide +kernel
  rw [planned] at refused
  cases refused

theorem two_durable_targets_first : ∃ choice, IsFirst (request 2) choice ∧
    EnoughTargets (request 2) choice.dataSlices choice.targets ∧
    (choice.enforceEventual = true ∨ (request 2).logicalStripeBytes ≠ u32Max) := by
  apply (plan_write_complete_iff ⟨.active⟩ (request 2) rfl (by decide +kernel) (by decide)
    (request_withinBound 2) (request_feasible (by decide) (by decide +kernel) (by decide +kernel))).mp
  have planned : ((FaultAwarePlacement.mk .active).planWrite (request 2)).toOption.isSome = true := by
    decide +kernel
  cases h : (FaultAwarePlacement.mk .active).planWrite (request 2) with
  | error err =>
    rw [h] at planned
    cases planned
  | ok plan => exact ⟨plan, rfl⟩

end ThreeMachines

end Placement

end MeshSpan
