import MeshSpan.Placement.Completeness

/- The target sets the two searches return are minimal.

   The exact search tries the selections of one size before those of the next, so what
   it returns has the fewest targets of all selections that meet the constraints, and it
   returns nothing only when none does. Pruning drops targets one at a time, from the
   back. What it keeps at an index was needed by a larger selection, and meeting the
   constraints is upward closed (`Meets.mono`), so it is still needed at the end.

   ── PROVED ──────────────────────────────────────────────────────────────────
     `searches_minimal`: the exact search answers with a selection of least size, or
     refuses when there is none, and errs only on constraints that no check could
     decide; no single target can be taken out of what pruning returns. -/

namespace MeshSpan

open List

namespace Placement

open Ordered Combination PlacementCandidate

variable {constraints : SelectionConstraints}

/-! ## More targets meet what fewer meet -/

section Mono

variable {topology : Topology} {candidates : List PlacementCandidate} {few many : List TargetId} {d : Nat}

theorem SlicesSurvive.mono {scenario : FailureScenario} (survives : SlicesSurvive topology scenario d few)
    (more : few.Sublist many) : SlicesSurvive topology scenario d many :=
  ⟨survives.1, fun lost member => (survives.2 lost member).trans (slicesLeft_mono more.subperm lost)⟩

theorem localCandidates_mono (more : few.Sublist many) (cellId : AvailabilityCellId) :
    (localCandidates candidates few cellId).Sublist (localCandidates candidates many cellId) := by
  refine monotone_filter_right _ fun candidate chosen => ?_
  simp only [Bool.and_eq_true, decide_eq_true_eq] at chosen ⊢
  exact ⟨more.subset chosen.1, chosen.2⟩

theorem distinctHosts_mono {some all : List PlacementCandidate} (more : some.Sublist all) :
    distinctHosts some ≤ distinctHosts all := by
  rw [distinctHosts, distinctHosts, card_toFinset, card_toFinset]
  refine Finset.card_le_card fun host member => ?_
  simp only [mem_toFinset, OrdSet.mem_elems, OrdSet.mem_ofList] at member ⊢
  exact (more.map _).subset member

theorem CellMet.mono {cell : PlacementCellRequirement} (met : CellMet topology candidates few d cell)
    (more : few.Sublist many) : CellMet topology candidates many d cell := by
  have inCell : (localCandidates candidates few cell.cellId).Sublist
      (localCandidates candidates many cell.cellId) := localCandidates_mono more cell.cellId
  refine ⟨met.durable.trans inCell.length_le, met.nodes.trans (distinctHosts_mono inCell), fun asked => ?_⟩
  obtain ⟨enough, survive⟩ := met.decodes asked
  exact ⟨enough.trans inCell.length_le,
    fun scenario member => (survive scenario member).mono (inCell.map _)⟩

theorem Meets.mono (meets : Meets constraints few) (more : few.Sublist many)
    (fits : many.length ≤ maxSlicesPerStripe) : Meets constraints many where
  decodable := meets.decodable.trans more.length_le
  bounded := fits
  scenarios scenario member := (meets.scenarios scenario member).mono more
  cells cell member enforced := (meets.cells cell member enforced).mono more

end Mono

/-- Chosen among the candidates, in their order, and meeting the constraints. -/
def Qualifies (constraints : SelectionConstraints) (selected : List TargetId) : Prop :=
  selected.Sublist (constraints.candidates.map targetId) ∧ Meets constraints selected

/-! ## The exact search -/

theorem trials_by_size (candidates : List PlacementCandidate) (d : Nat) :
    (trials candidates d).Pairwise fun a b => a.length ≤ b.length := by
  rw [trials, pairwise_flatMap]
  constructor
  · intro count _
    refine pairwise_of_forall_mem_list fun a ha b hb => ?_
    rw [(mem_combos.mp ha).2, (mem_combos.mp hb).2]
  · refine (pairwise_lt_range' ..).imp fun less a ha b hb => ?_
    rw [(mem_combos.mp ha).2, (mem_combos.mp hb).2]
    exact less.le

variable {selected : List TargetId} {found : CandidateSelection}

theorem Qualifies.tried (qualifies : Qualifies constraints selected) :
    ∃ more ∈ trials constraints.candidates constraints.dataSlices,
      selected = more.map targetId := by
  obtain ⟨chosen, meets⟩ := qualifies
  obtain ⟨more, sub, rfl⟩ := sublist_map_iff.mp chosen
  have low := meets.decodable
  have high := meets.bounded
  rw [length_map] at low high
  exact ⟨more, mem_trials.mpr ⟨sub, low, high⟩, rfl⟩

/-- A trial that was passed over does not meet the constraints. -/
theorem not_meets_of_passed (h : chooseExact constraints 0 0 selected = .ok none) :
    ¬ Meets constraints selected := by
  obtain ⟨answer, asked, h⟩ := bind_eq_ok.mp h
  obtain ⟨-, -, -, decides, -⟩ := acceptSelection_ok asked
  cases answer with
  | none => simpa using decides
  | some proofs => cases h

theorem exactSelection_some (h : exactSelection constraints = .ok (some found)) :
    Qualifies constraints found.targets ∧
      ∀ other, Qualifies constraints other → found.targets.length ≤ other.length := by
  rw [exactSelection_eq] at h
  obtain ⟨before, more, after, split, passed, hit⟩ := firstSome_eq_some.mp h
  obtain ⟨targets, accepted⟩ := chooseExact_zero_some hit
  obtain ⟨-, -, -, decides, -⟩ := acceptSelection_ok accepted
  have member : more ∈ trials constraints.candidates constraints.dataSlices := by
    rw [split]
    simp
  rw [targets]
  refine ⟨⟨(mem_trials.mp member).1.map _, decides.mp rfl⟩, fun other qualifies => ?_⟩
  obtain ⟨m, tried, rfl⟩ := qualifies.tried
  rw [length_map, length_map]
  -- a smaller trial comes before the hit, where all were passed over
  rw [split, mem_append, mem_cons] at tried
  rcases tried with early | rfl | late
  · exact absurd qualifies.2 (not_meets_of_passed (passed m early))
  · exact le_rfl
  · have sorted := trials_by_size constraints.candidates constraints.dataSlices
    rw [split, pairwise_append, pairwise_cons] at sorted
    exact sorted.2.1.1 m late

theorem exactSelection_none (h : exactSelection constraints = .ok none) (other : List TargetId) :
    ¬ Qualifies constraints other := by
  intro qualifies
  rw [exactSelection_eq] at h
  obtain ⟨more, tried, rfl⟩ := qualifies.tried
  exact not_meets_of_passed (firstSome_eq_none.mp h more tried) qualifies.2

theorem exactSelection_total (checkable : Checkable constraints) :
    ∃ result, exactSelection constraints = .ok result := by
  rw [exactSelection_eq]
  refine firstSome_total fun more tried => ?_
  obtain ⟨sub, low, high⟩ := mem_trials.mp tried
  obtain ⟨result, asked⟩ := acceptSelection_total checkable (sub.map _)
    (by rwa [length_map]) (by rw [length_map]; exact high)
  cases result with
  | none => exact ⟨none, bind_eq_ok.mpr ⟨none, asked, rfl⟩⟩
  | some proofs => exact ⟨_, bind_eq_ok.mpr ⟨some proofs, asked, rfl⟩⟩

/-! ## Pruning -/

/-- Dropping a second element from further back leaves a part of what dropping it first leaves. -/
theorem eraseIdx_eraseIdx_sublist {α : Type} : ∀ (l : List α) {i j : Nat}, i ≤ j →
    ((l.eraseIdx i).eraseIdx j).Sublist (l.eraseIdx (j + 1))
  | [], _, _, _ => by simp
  | _ :: _, 0, _, _ => by simp
  | a :: l, i + 1, j + 1, le => by
    simpa using eraseIdx_eraseIdx_sublist l (Nat.le_of_succ_le_succ le)

/-- No target from the index on can be taken out. -/
def NeededFrom (constraints : SelectionConstraints) (index : Nat) (targets : List TargetId) : Prop :=
  ∀ i, index ≤ i → i < targets.length → ¬ Meets constraints (targets.eraseIdx i)

theorem pruneFrom_needed (index : Nat) : ∀ (before : CandidateSelection) {after : CandidateSelection},
    Meets constraints before.targets → NeededFrom constraints index before.targets →
    pruneFrom constraints index before = .ok after →
    after.targets.Sublist before.targets ∧ Meets constraints after.targets ∧
      NeededFrom constraints 0 after.targets := by
  induction index with
  | zero =>
    intro before after meets needed h
    cases h
    exact ⟨.refl _, meets, needed⟩
  | succ index ih =>
    intro before after meets needed h
    unfold pruneFrom at h
    split at h
    · obtain ⟨answer, asked, h⟩ := bind_eq_ok.mp h
      obtain ⟨-, -, -, decides, -⟩ := acceptSelection_ok asked
      cases answer with
      | none =>
        refine ih before meets (fun i low high => ?_) h
        rcases eq_or_lt_of_le low with rfl | later
        · simpa using decides
        · exact needed i later high
      | some proofs =>
        have smaller := eraseIdx_sublist before.targets index
        have needed : NeededFrom constraints index (before.targets.eraseIdx index) := by
          intro i low high meetsLess
          have range : i + 1 < before.targets.length := by
            rw [length_eraseIdx] at high
            split at high <;> omega
          exact needed (i + 1) (by omega) range (meetsLess.mono (eraseIdx_eraseIdx_sublist _ low)
            ((eraseIdx_sublist ..).length_le.trans meets.bounded))
        obtain ⟨part, rest⟩ := ih ⟨_, proofs⟩ (decides.mp rfl) needed h
        exact ⟨part.trans smaller, rest⟩
    · next few =>
      cases h
      refine ⟨.refl _, meets, fun i _ high less => ?_⟩
      have := less.decodable
      rw [length_eraseIdx_of_lt high] at this
      omega

theorem prunedSelection_needed (h : prunedSelection constraints = .ok (some found)) :
    Qualifies constraints found.targets ∧ NeededFrom constraints 0 found.targets := by
  obtain ⟨answer, asked, h⟩ := bind_eq_ok.mp h
  obtain ⟨-, -, -, decides, -⟩ := acceptSelection_ok asked
  cases answer with
  | none => cases h
  | some proofs =>
    obtain ⟨result, pruned, same⟩ := map_eq_ok.mp h
    cases same
    obtain ⟨part, meets, needed⟩ := pruneFrom_needed _ ⟨_, proofs⟩ (decides.mp rfl)
      (fun i low high => absurd high (not_lt.mpr low)) pruned
    exact ⟨⟨part.trans ((take_sublist _ _).map _), meets⟩, needed⟩

/-- Both searches return minimal selections: the exact one a qualifying selection of least size,
nothing when none qualifies, and an error only where the checks cannot answer; from what pruning
returns no single target can be taken out. -/
theorem searches_minimal (constraints : SelectionConstraints) : (match exactSelection constraints with
      | .ok (some found) => Qualifies constraints found.targets ∧
          ∀ other, Qualifies constraints other → found.targets.length ≤ other.length
      | .ok none => ∀ other, ¬ Qualifies constraints other
      | .error _ => ¬ Checkable constraints) ∧
    ∀ found, prunedSelection constraints = .ok (some found) →
      Qualifies constraints found.targets ∧
        ∀ i, i < found.targets.length → ¬ Meets constraints (found.targets.eraseIdx i) := by
  constructor
  · split
    · next found searched => exact exactSelection_some searched
    · next searched => exact exactSelection_none searched
    · next searched =>
      intro checkable
      obtain ⟨result, answers⟩ := exactSelection_total checkable
      rw [answers] at searched
      cases searched
  · intro found pruned
    obtain ⟨qualifies, needed⟩ := prunedSelection_needed pruned
    exact ⟨qualifies, fun i => needed i (Nat.zero_le i)⟩

end Placement

end MeshSpan
