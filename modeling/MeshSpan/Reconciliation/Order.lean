import MeshSpan.Reconciliation.Plan

/- Which commits a reconciliation plan lists, and in which order.

   A plan lists the least commit of every operation that the eligible heads carry
   and the converged head does not (`mem_selectPending`), each once. It orders them
   greedily over the parents that are themselves listed. Ancestry through a commit
   that is not listed - one whose operation the converged head already carries, or a
   second commit of an operation - is invisible to that order, so a descendant can
   come before its ancestor (`Skipped.descendant_listed_first`). The order is causal
   exactly when the blocking chains say so (`plan_causal_iff`). -/

namespace MeshSpan

open Ordered Topological OrdSet List

namespace Reconciliation

/-! ## The page -/

variable (commits : CommitIndex)

/-- Every parent named in the page is in the page. -/
def Closed : Prop :=
  ∀ id c, commits.get? id = some c → ∀ parent ∈ c.parents, ∃ p, commits.get? parent = some p

theorem card_ofList {l : List Nat} (h : (ofList l).card = l.length) : l.Nodup := by
  have nodup : (ofList l).elems.Nodup := (ofList l).sorted.imp (·.ne)
  have perm : (ofList l).elems.Perm l.dedup := by
    rw [perm_ext_iff_of_nodup nodup l.nodup_dedup]
    intro a
    rw [mem_dedup]
    exact mem_ofList
  have same : l.dedup.length = l.length := perm.length_eq.symm.trans h
  rw [← (dedup_sublist l).eq_of_length same]
  exact l.nodup_dedup

variable {limits : ReconciliationLimits} {c : ReconciliationCommit}

theorem indexCommit_ok {indexed next : CommitIndex} (h : indexCommit limits indexed c = .ok next) :
    c.parents.Nodup ∧ c.commitId ∉ c.parents ∧ indexed.get? c.commitId = none ∧
      next = indexed.insert c.commitId c := by
  obtain ⟨valid, h⟩ := guard_ok.mp h
  simp only [not_or, not_not, ne_eq, OrdMap.contains, Bool.not_eq_true, Option.isSome_eq_false_iff,
    Option.isNone_iff_eq_none, mem_ofList] at valid
  exact ⟨card_ofList valid.1, valid.2.1, valid.2.2.2.2, (Except.ok.inj h).symm⟩

theorem foldlM_indexCommit : ∀ (commits : List ReconciliationCommit)
    (indexed next : CommitIndex), commits.foldlM (indexCommit limits) indexed = .ok next →
    (∀ c ∈ commits, c.parents.Nodup ∧ c.commitId ∉ c.parents ∧ indexed.get? c.commitId = none) ∧
    ∀ id c, next.get? id = some c ↔ indexed.get? id = some c ∨ (c ∈ commits ∧ c.commitId = id)
  | [], indexed, next, h => by
    cases h
    exact ⟨nofun, by simp⟩
  | first :: rest, indexed, next, h => by
    rw [foldlM_cons] at h
    obtain ⟨middle, step, h⟩ := bind_eq_ok.mp h
    obtain ⟨nodup, noSelf, fresh, hmiddle⟩ := indexCommit_ok step
    obtain ⟨valid, entries⟩ := foldlM_indexCommit rest middle next h
    subst hmiddle
    have unequal : ∀ c ∈ rest, c.commitId ≠ first.commitId ∧ indexed.get? c.commitId = none := by
      intro c hc
      have absent := (valid c hc).2.2
      rw [OrdMap.get?_insert] at absent
      split at absent
      · cases absent
      · rename_i apart
        exact ⟨apart, absent⟩
    refine ⟨forall_mem_cons.mpr ⟨⟨nodup, noSelf, fresh⟩, fun c hc =>
      ⟨(valid c hc).1, (valid c hc).2.1, (unequal c hc).2⟩⟩, ?_⟩
    · intro id c
      rw [entries, OrdMap.get?_insert, mem_cons, or_and_right]
      by_cases same : id = first.commitId
      · subst same
        have later : ¬ (c ∈ rest ∧ c.commitId = first.commitId) := fun h => (unequal c h.1).1 h.2
        rw [if_pos rfl, fresh, or_iff_left later, or_iff_left later, Option.some.injEq]
        exact ⟨fun h => .inr ⟨h.symm, h ▸ rfl⟩, fun h => h.elim nofun (·.1.symm)⟩
      · have notFirst : ¬ (c = first ∧ c.commitId = id) := fun h => same (h.1 ▸ h.2.symm)
        rw [if_neg same, or_iff_right notFirst]

/-- What an accepted page is: its commits by identifier, with distinct parents inside the page. -/
structure Indexes (commits : List ReconciliationCommit) (byId : CommitIndex) : Prop where
  get? : ∀ id c, byId.get? id = some c ↔ c ∈ commits ∧ c.commitId = id
  nodup : ∀ id, (byId.parents id).Nodup
  closed : Closed byId

theorem indexCommits_ok {commits : List ReconciliationCommit}
    {byId : CommitIndex} (h : indexCommits commits limits = .ok byId) : Indexes commits byId := by
  obtain ⟨indexed, fold, h⟩ := bind_eq_ok.mp h
  obtain ⟨valid, entries⟩ := foldlM_indexCommit commits ∅ indexed fold
  obtain ⟨complete, h⟩ := guard_ok.mp h
  cases h
  have entries' : ∀ id c, byId.get? id = some c ↔ c ∈ commits ∧ c.commitId = id := by
    intro id c
    rw [entries]
    exact or_iff_right nofun
  refine ⟨entries', ?_, ?_⟩
  · intro id
    unfold CommitIndex.parents
    split
    · exact nodup_nil
    · rename_i c present
      exact (valid c ((entries' id c).mp present).1).1
  · intro id c present parent hp
    simp only [any_eq_true, Bool.not_eq_true', not_exists, not_and, Bool.not_eq_false,
      OrdMap.contains] at complete
    exact Option.isSome_iff_exists.mp (complete c ((entries' id c).mp present).1 parent hp)

/-! ## Reachability -/

def Parent (p c : NamespaceCommitId) : Prop := p ∈ commits.parents c

/-- The parents still to be pushed: those of the commits that are not selected. -/
def openParentCount (selected : OrdSet NamespaceCommitId) : List (Nat × ReconciliationCommit) → Nat
  | [] => 0
  | e :: rest => (if e.1 ∈ selected then 0 else e.2.parents.length) + openParentCount selected rest

variable {id p x : NamespaceCommitId} {selected : OrdSet NamespaceCommitId}
  {heads seen ordered : List NamespaceCommitId}

theorem openParentCount_absent :
    ∀ {entries : List (Nat × ReconciliationCommit)}, (∀ e ∈ entries, e.1 ≠ id) →
      openParentCount (selected.insert id) entries = openParentCount selected entries
  | [], _ => rfl
  | e :: rest, absent => by
    have apart : e.1 ≠ id := absent e mem_cons_self
    rw [openParentCount, openParentCount,
      openParentCount_absent (fun x hx => absent x (mem_cons_of_mem _ hx))]
    simp [apart]

/-- Selecting a commit takes its parents out of the count. -/
theorem openParentCount_insert (fresh : id ∉ selected) :
    ∀ {entries : List (Nat × ReconciliationCommit)},
    (entries.map Prod.fst).Pairwise (· < ·) → (id, c) ∈ entries →
      openParentCount (selected.insert id) entries + c.parents.length = openParentCount selected entries
  | [], _, mem => by cases mem
  | e :: rest, sorted, mem => by
    obtain ⟨least, sorted⟩ := pairwise_cons.mp sorted
    rw [openParentCount, openParentCount]
    rcases mem_cons.mp mem with first | later
    · subst first
      have absent : ∀ x ∈ rest, x.1 ≠ id := fun x hx => (least x.1 (mem_map_of_mem hx)).ne'
      rw [openParentCount_absent absent, if_pos (mem_insert.mpr (.inl rfl)), if_neg fresh]
      dsimp only
      omega
    · have apart : e.1 ≠ id := (least id (mem_map.mpr ⟨(id, c), later, rfl⟩)).ne
      have tail := openParentCount_insert fresh sorted later
      simp only [mem_insert, apart, false_or]
      omega

theorem openParentCount_empty : ∀ (entries : List (Nat × ReconciliationCommit)),
    openParentCount ∅ entries = ((entries.map Prod.snd).map (·.parents.length)).sum
  | [] => rfl
  | e :: rest => by
    have outside : e.1 ∉ (∅ : OrdSet NamespaceCommitId) := not_mem_empty
    rw [openParentCount, openParentCount_empty rest, if_neg outside]
    rfl

variable {commits : CommitIndex}

/-- The walk ends with a set that holds the selected commits and the stack, is closed under parents,
and holds nothing the stack does not reach. -/
theorem reachableLoop_spec (closed : Closed commits) : ∀ (rounds : Nat)
    (pending : List NamespaceCommitId) (selected : OrdSet NamespaceCommitId),
    pending.length + openParentCount selected commits.entries ≤ rounds →
    (∀ id ∈ pending, ∃ c, commits.get? id = some c) →
    (∀ id, id ∈ selected → ∀ p, Parent commits p id → p ∈ selected ∨ p ∈ pending) →
    ∃ result, reachableLoop commits rounds pending selected = .ok result ∧
      (∀ x, x ∈ selected ∨ x ∈ pending → x ∈ result) ∧
      (∀ id, id ∈ result → ∀ p, Parent commits p id → p ∈ result) ∧
      ∀ x, x ∈ result → x ∈ selected ∨ ∃ h ∈ pending, Relation.ReflTransGen (Parent commits) x h := by
  intro rounds
  induction rounds with
  | zero =>
    intro pending selected enough _ inside
    have done : pending = [] := length_eq_zero_iff.mp (by omega)
    subst done
    exact ⟨selected, rfl, by simp, fun id hid p hp => by simpa using inside id hid p hp, fun x => .inl⟩
  | succ rounds ih =>
    intro pending selected enough present inside
    cases pending with
    | nil =>
      exact ⟨selected, rfl, by simp, fun id hid p hp => by simpa using inside id hid p hp, fun x => .inl⟩
    | cons id rest =>
      have restPresent : ∀ x ∈ rest, ∃ c, commits.get? x = some c :=
        fun x hx => present x (mem_cons_of_mem _ hx)
      simp only [length_cons] at enough
      by_cases chosen : id ∈ selected
      · have known : ∀ x, x ∈ selected ∨ x ∈ id :: rest → x ∈ selected ∨ x ∈ rest := by
          rintro x (old | next)
          · exact .inl old
          · exact (mem_cons.mp next).imp_left fun (same : x = id) => same ▸ chosen
        obtain ⟨result, loop, holds, parents, sound⟩ := ih rest selected (by omega) restPresent
          fun x hx p hp => known p (inside x hx p hp)
        refine ⟨result, by rw [reachableLoop, if_pos chosen, loop], fun x hx => holds x (known x hx),
          parents, fun x hx => (sound x hx).imp_right ?_⟩
        rintro ⟨h, hh, path⟩
        exact ⟨h, mem_cons_of_mem _ hh, path⟩
      · obtain ⟨c, hc⟩ := present id mem_cons_self
        have parentsEq : ∀ p, Parent commits p id ↔ p ∈ c.parents.reverse := by
          simp only [Parent, CommitIndex.parents, hc, mem_reverse, implies_true]
        have fewer := openParentCount_insert chosen commits.sorted (OrdMap.get?_eq_some_iff.mp hc)
        have pushed : ∀ x ∈ c.parents.reverse ++ rest, ∃ c, commits.get? x = some c :=
          forall_mem_append.mpr
            ⟨fun x parent => closed id c hc x (mem_reverse.mp parent), restPresent⟩
        have known : ∀ x, x ∈ selected ∨ x ∈ id :: rest →
            x ∈ selected.insert id ∨ x ∈ c.parents.reverse ++ rest := by
          rintro x (old | next)
          · exact .inl (mem_insert.mpr (.inr old))
          · rcases mem_cons.mp next with same | later
            · exact .inl (mem_insert.mpr (.inl same))
            · exact .inr (mem_append_right _ later)
        have inside' : ∀ x, x ∈ selected.insert id → ∀ p, Parent commits p x →
            p ∈ selected.insert id ∨ p ∈ c.parents.reverse ++ rest := by
          intro x hx p hp
          rcases mem_insert.mp hx with rfl | old
          · exact .inr (mem_append_left _ ((parentsEq p).mp hp))
          · exact known p (inside x old p hp)
        obtain ⟨result, loop, holds, parents, sound⟩ := ih (c.parents.reverse ++ rest) (selected.insert id)
          (by simp only [length_append, length_reverse]; omega) pushed inside'
        refine ⟨result, by rw [reachableLoop, if_neg chosen, hc]; exact loop,
          fun x hx => holds x (known x hx), parents, fun x hx => ?_⟩
        rcases sound x hx with old | ⟨h, hh, path⟩
        · rcases mem_insert.mp old with same | old
          · exact .inr ⟨id, mem_cons_self, same ▸ .refl⟩
          · exact .inl old
        · rcases mem_append.mp hh with parent | later
          · exact .inr ⟨id, mem_cons_self, path.tail ((parentsEq h).mpr parent)⟩
          · exact .inr ⟨h, mem_cons_of_mem _ later, path⟩

/-- `reachable` computes the ancestors of the heads and the heads themselves. -/
theorem reachable_spec (closed : Closed commits) (present : ∀ h ∈ heads, ∃ c, commits.get? h = some c) :
    ∃ result, reachable heads commits = .ok result ∧
      ∀ x, x ∈ result ↔ ∃ h ∈ heads, Relation.ReflTransGen (Parent commits) x h := by
  have enough : heads.reverse.length + openParentCount ∅ commits.entries ≤ reachableRounds commits heads := by
    rw [openParentCount_empty, length_reverse]
    exact le_refl _
  obtain ⟨result, loop, holds, parents, sound⟩ := reachableLoop_spec closed _ heads.reverse ∅ enough
    (fun h hh => present h (mem_reverse.mp hh)) nofun
  refine ⟨result, loop, fun x => ⟨fun hx => ?_, ?_⟩⟩
  · obtain ⟨h, hh, path⟩ := (sound x hx).resolve_left not_mem_empty
    exact ⟨h, mem_reverse.mp hh, path⟩
  · rintro ⟨h, hh, path⟩
    induction path using Relation.ReflTransGen.head_induction_on with
    | refl => exact holds h (.inr (mem_reverse.mpr hh))
    | head step _ ih => exact parents _ ih _ step

/-! ## Selection -/

def CandidateOf (commits : CommitIndex) (included : OrdSet OperationId) (operation : OperationId)
    (id : NamespaceCommitId) : Prop :=
  commits.operation id = operation ∧ operation ∉ included

/-- `chosen` is the least candidate of the operation among `seen`, none when there is no candidate. -/
def LeastOf (commits : CommitIndex) (included : OrdSet OperationId) (seen : List NamespaceCommitId)
    (operation : OperationId) : Option NamespaceCommitId → Prop
  | some id => id ∈ seen ∧ CandidateOf commits included operation id ∧
      ∀ j ∈ seen, CandidateOf commits included operation j → id ≤ j
  | none => ∀ j ∈ seen, ¬ CandidateOf commits included operation j

/-- The map holds the least candidate seen of each operation. -/
def Selects (commits : CommitIndex) (included : OrdSet OperationId) (seen : List NamespaceCommitId)
    (selected : OrdMap OperationId NamespaceCommitId) : Prop :=
  ∀ operation, LeastOf commits included seen operation (selected.get? operation)

variable {included : OrdSet OperationId}

theorem LeastOf.of_not_candidate {next : NamespaceCommitId} {operation : OperationId}
    {chosen : Option NamespaceCommitId} (h : LeastOf commits included seen operation chosen)
    (other : ¬ CandidateOf commits included operation next) :
    LeastOf commits included (seen ++ [next]) operation chosen := by
  have onlySeen : ∀ j ∈ seen ++ [next], CandidateOf commits included operation j → j ∈ seen := by
    intro j hj candidate
    rcases mem_snoc.mp hj with old | rfl
    · exact old
    · exact absurd candidate other
  cases chosen with
  | some id => exact ⟨mem_append_left _ h.1, h.2.1, fun j hj hc => h.2.2 j (onlySeen j hj hc) hc⟩
  | none => exact fun j hj hc => h j (onlySeen j hj hc) hc

theorem Selects.step {selected : OrdMap OperationId NamespaceCommitId}
    (h : Selects commits included seen selected) (next : NamespaceCommitId) :
    Selects commits included (seen ++ [next]) (selectCommit commits included selected next) := by
  intro operation
  unfold selectCommit
  by_cases skipped : commits.operation next ∈ included
  · rw [if_pos skipped]
    exact (h operation).of_not_candidate fun candidate => candidate.2 (candidate.1 ▸ skipped)
  · rw [if_neg skipped]
    by_cases same : operation = commits.operation next
    · subst same
      have candidate : CandidateOf commits included (commits.operation next) next := ⟨rfl, skipped⟩
      have before := h (commits.operation next)
      cases chosen : selected.get? (commits.operation next) with
      | some earlier =>
        rw [chosen] at before
        rw [OrdMap.get?_insert, if_pos rfl]
        have least : ∀ j ∈ seen ++ [next], CandidateOf commits included (commits.operation next) j →
            min earlier next ≤ j := fun j hj hc => by
          rcases mem_snoc.mp hj with old | rfl
          · exact (min_le_left _ _).trans (before.2.2 j old hc)
          · exact min_le_right _ _
        rcases min_choice earlier next with eq | eq <;> rw [eq] at least ⊢
        · exact ⟨mem_append_left _ before.1, before.2.1, least⟩
        · exact ⟨by simp, candidate, least⟩
      | none =>
        rw [chosen] at before
        rw [OrdMap.get?_insert, if_pos rfl]
        refine ⟨by simp, candidate, ?_⟩
        intro j hj hc
        rcases mem_snoc.mp hj with old | rfl
        · exact absurd hc (before j old)
        · exact le_rfl
    · have unchanged : ∀ value, (selected.insert (commits.operation next) value).get? operation =
          selected.get? operation := fun value => OrdMap.get?_insert_ne _ _ same
      have other : ¬ CandidateOf commits included operation next := fun candidate => same candidate.1.symm
      have after := (h operation).of_not_candidate other
      cases selected.get? (commits.operation next)
      all_goals
        rw [unchanged]
        exact after

theorem Selects.foldl :
    ∀ (candidates seen : List NamespaceCommitId) {selected : OrdMap OperationId NamespaceCommitId},
    Selects commits included seen selected →
      Selects commits included (seen ++ candidates) (candidates.foldl (selectCommit commits included) selected)
  | [], seen, _, h => by simpa using h
  | next :: rest, seen, _, h => by
    have tail := Selects.foldl rest (seen ++ [next]) (h.step next)
    simpa using tail

variable {id : NamespaceCommitId}

/-- The selected commits: of each operation that the converged commits do not carry, the least one
that is eligible and not converged. -/
theorem mem_selectPending {eligible converged : OrdSet NamespaceCommitId}
    : id ∈ selectPending commits eligible converged ↔
      id ∈ eligible ∧ (∀ j, j ∈ converged → commits.operation j ≠ commits.operation id) ∧
        ∀ j, j ∈ eligible → commits.operation j = commits.operation id → id ≤ j := by
  unfold selectPending
  set included := ofList (converged.elems.map commits.operation) with hincluded
  set fresh := eligible.elems.filter (fun id => id ∉ converged) with hfresh
  set selected := fresh.foldl (selectCommit commits included) ∅
  have notIncluded : ∀ operation, operation ∉ included ↔
      ∀ j, j ∈ converged → commits.operation j ≠ operation := by
    intro operation
    simp only [hincluded, mem_ofList, mem_map, not_exists, not_and]
    rfl
  have candidates : ∀ j, j ∈ fresh ↔ j ∈ eligible ∧ j ∉ converged := by
    intro j
    rw [hfresh, mem_filter, decide_eq_true_eq]
    rfl
  have selects : Selects commits included fresh selected :=
    Selects.foldl _ [] (fun _ => forall_mem_nil _)
  have values : id ∈ ofList selected.values ↔ ∃ operation, selected.get? operation = some id := by
    simp only [mem_ofList, OrdMap.values, mem_map]
    constructor
    · rintro ⟨entry, mem, rfl⟩
      exact ⟨entry.1, OrdMap.get?_eq_some_iff.mpr mem⟩
    · rintro ⟨operation, present⟩
      exact ⟨(operation, id), OrdMap.get?_eq_some_iff.mp present, rfl⟩
  rw [values]
  constructor
  · rintro ⟨operation, present⟩
    have chosen := selects operation
    rw [present] at chosen
    obtain ⟨mem, ⟨same, fresh⟩, least⟩ := chosen
    subst same
    refine ⟨((candidates id).mp mem).1, (notIncluded _).mp fresh, ?_⟩
    intro j hj same
    refine least j ((candidates j).mpr ⟨hj, fun conv => ?_⟩) ⟨same, fresh⟩
    exact (notIncluded _).mp fresh j conv same
  · rintro ⟨mem, fresh, least⟩
    have apart : id ∉ converged := fun conv => fresh id conv rfl
    have candidate : CandidateOf commits included (commits.operation id) id := ⟨rfl, (notIncluded _).mpr fresh⟩
    refine ⟨commits.operation id, ?_⟩
    have chosen := selects (commits.operation id)
    cases present : selected.get? (commits.operation id) with
    | none =>
      rw [present] at chosen
      exact absurd candidate (chosen id ((candidates id).mpr ⟨mem, apart⟩))
    | some other =>
      rw [present] at chosen
      have lower := chosen.2.2 id ((candidates id).mpr ⟨mem, apart⟩) candidate
      have upper := least other ((candidates other).mp chosen.1).1 chosen.2.1.1
      rw [le_antisymm lower upper]

/-! ## Ancestry -/

/-- Whether `a` is a proper ancestor of `b` in the page. -/
def isAncestor (commits : CommitIndex) (a b : NamespaceCommitId) : Bool :=
  match reachable [b] commits with
  | .ok closure => a ∈ closure ∧ a ≠ b
  | .error _ => false

theorem reachable_absent (absent : commits.get? id = none) :
    reachable [id] commits = .error .missingCommit := by
  have rounds : reachableRounds commits [id] = (commits.values.map (·.parents.length)).sum + 1 :=
    add_comm _ _
  have outside : id ∉ (∅ : OrdSet NamespaceCommitId) := not_mem_empty
  rw [reachable, rounds, reverse_singleton, reachableLoop, if_neg outside, absent]

theorem isAncestor_iff (closed : Closed commits)
    (acyclic : ∀ a, ¬ Relation.TransGen (Parent commits) a a) (a b : NamespaceCommitId) :
    isAncestor commits a b ↔ Relation.TransGen (Parent commits) a b := by
  unfold isAncestor
  cases present : commits.get? b with
  | none =>
    rw [reachable_absent present]
    refine ⟨nofun, fun path => ?_⟩
    obtain ⟨c, _, step⟩ := Relation.TransGen.tail'_iff.mp path
    simp [Parent, CommitIndex.parents, present] at step
  | some c =>
    have headPresent : ∀ h ∈ [b], ∃ c, commits.get? h = some c :=
      fun h hh => ⟨c, (List.mem_singleton.mp hh).symm ▸ present⟩
    obtain ⟨closure, computed, spec⟩ := reachable_spec closed headPresent
    rw [computed]
    simp only [decide_eq_true_eq, spec, mem_singleton, exists_eq_left]
    constructor
    · rintro ⟨path, apart⟩
      exact (Relation.reflTransGen_iff_eq_or_transGen.mp path).resolve_left (apart ·.symm)
    · intro path
      refine ⟨path.to_reflTransGen, ?_⟩
      rintro rfl
      exact acyclic _ path

/-! ## The pending graph -/

/-- The selected commits with the parents that are selected themselves. -/
def pendingGraph (commits : CommitIndex) (pending : OrdSet NamespaceCommitId) : CommitIndex :=
  (commits.retain fun id _ => decide (id ∈ pending)).mapValues fun _ c =>
    { c with parents := c.parents.filter (fun parent => decide (parent ∈ pending)) }

/-- The keys that hold a selected commit back, greatest first. -/
def commitChain (commits : CommitIndex) (pending : OrdSet NamespaceCommitId) (id : NamespaceCommitId) :
    List (Nat ×ₗ Nat) :=
  blockingChain (commitKey commits) (isAncestor (pendingGraph commits pending))
    pending.elems.length pending.elems id

theorem pendingGraph_get? {pending : OrdSet NamespaceCommitId} :
    (pendingGraph commits pending).get? id = some c ↔ ∃ full, commits.get? id = some full ∧ id ∈ pending ∧
      c = { full with parents := full.parents.filter (fun parent => parent ∈ pending) } := by
  rw [pendingGraph, OrdMap.get?_mapValues, Option.map_eq_some_iff]
  simp only [OrdMap.get?_retain_some, decide_eq_true_eq, and_assoc, eq_comm (b := c)]

theorem parent_pendingGraph {pending : OrdSet NamespaceCommitId} {c : NamespaceCommitId} :
    Parent (pendingGraph commits pending) p c ↔
      p ∈ pending ∧ c ∈ pending ∧ p ∈ commits.parents c := by
  unfold Parent CommitIndex.parents
  constructor
  · intro h
    split at h
    · cases h
    rename_i d present
    obtain ⟨full, hfull, selected, rfl⟩ := pendingGraph_get?.mp present
    rw [mem_filter, decide_eq_true_eq] at h
    rw [hfull]
    exact ⟨h.2, selected, h.1⟩
  · rintro ⟨hp, hc, h⟩
    split at h
    · cases h
    · rename_i full hfull
      rw [pendingGraph_get?.mpr ⟨full, hfull, hc, rfl⟩]
      exact mem_filter.mpr ⟨h, decide_eq_true hp⟩

theorem closed_pendingGraph {pending : OrdSet NamespaceCommitId}
    (present : ∀ id, id ∈ pending → ∃ c, commits.get? id = some c) : Closed (pendingGraph commits pending) := by
  intro id c hc parent hp
  obtain ⟨full, _, _, rfl⟩ := pendingGraph_get?.mp hc
  have selected : parent ∈ pending := by
    have := (mem_filter.mp hp).2
    exact of_decide_eq_true this
  obtain ⟨d, hd⟩ := present parent selected
  exact ⟨_, pendingGraph_get?.mpr ⟨d, hd, selected, rfl⟩⟩

theorem commitKey_injective (commits : CommitIndex) (a b : NamespaceCommitId)
    (h : commitKey commits a = commitKey commits b) : a = b :=
  congrArg (fun key => (ofLex key).2) h

theorem kahnResult_ok {total : Nat} {result : Except KahnError (List NamespaceCommitId)}
    (h : kahnResult total result = .ok ordered) : result = .ok ordered ∧ ordered.length = total := by
  unfold kahnResult at h
  split at h
  · cases h
  · cases h
  · obtain ⟨complete, h⟩ := admit_ok.mp h
    cases h
    exact ⟨rfl, complete⟩

/-- An order of the selected commits is greedy over their selected parents. -/
theorem orderPending_greedy {pending : OrdSet NamespaceCommitId}
    (nodup : ∀ id, (commits.parents id).Nodup) (h : orderPending commits pending = .ok ordered) :
    Greedy pending.elems (Parent (pendingGraph commits pending)) (commitKey commits) ordered := by
  obtain ⟨computed, complete⟩ := kahnResult_ok h
  have distinct : pending.elems.Nodup := pending.sorted.imp (·.ne)
  have start : KahnInv pending.elems commits.parents (commitKey commits)
      (kahnStart pending.elems (fun id =>
        ((commits.parents id).filter (fun parent => decide (parent ∈ pending))).length) (commitKey commits)) [] :=
    kahnInv_start (fun c _ => by simp [openParents]; rfl)
  have greedy := kahn_greedy (fun c _ => nodup c) (commitKey_injective commits) (fun _ => rfl)
    distinct _ _ [] ordered start computed complete
  refine ⟨greedy.nodup, greedy.mem, ?_, ?_⟩
  · intro front k back split p step
    exact greedy.ready front k back split p (parent_pendingGraph.mp step)
  · intro front k back split w hw predecessors
    exact greedy.least front k back split w hw (fun p step => predecessors p (parent_pendingGraph.mpr step))

theorem get?_mem_keys : id ∈ commits.keys.elems ↔ ∃ c, commits.get? id = some c := OrdMap.mem_keys

theorem parent_present (closed : Closed commits) {c : NamespaceCommitId} (step : Parent commits p c) :
    (∃ d, commits.get? p = some d) ∧ ∃ d, commits.get? c = some d := by
  unfold Parent CommitIndex.parents at step
  split at step
  · cases step
  · rename_i d present
    exact ⟨closed c d present p step, d, present⟩

theorem validateAcyclic_ok (closed : Closed commits)
    (nodup : ∀ id, (commits.parents id).Nodup) (h : validateAcyclic commits = .ok ()) (a : NamespaceCommitId) :
    ¬ Relation.TransGen (Parent commits) a a := by
  obtain ⟨ordered, computed, _⟩ := bind_eq_ok.mp h
  obtain ⟨computed, complete⟩ := kahnResult_ok computed
  have distinct : commits.keys.elems.Nodup := commits.keys.sorted.imp (·.ne)
  have size : commits.size = commits.keys.elems.length := by
    simp [OrdMap.size, OrdMap.keys]
  have inside : ∀ p c, Parent commits p c → p ∈ commits.keys.elems ∧ c ∈ commits.keys.elems :=
    fun p c step => ⟨get?_mem_keys.mpr (parent_present closed step).1,
      get?_mem_keys.mpr (parent_present closed step).2⟩
  have start : KahnInv commits.keys.elems commits.parents id
      (kahnStart commits.keys.elems (fun id => (commits.parents id).length) id) [] := by
    refine kahnInv_start fun c _ => ?_
    rw [openParents, filter_eq_self.mpr]
    intro p hp
    simpa using (inside p c hp).1
  have greedy := kahn_greedy (fun c _ => nodup c) (fun _ _ same => same) (fun _ => rfl) distinct
    _ _ [] ordered start computed (complete.trans size)
  intro path
  refine greedy.acyclic (fun x y step => ⟨step.1, step.2.1⟩) a ?_
  exact Relation.TransGen.mono (fun x y step => ⟨(inside x y step).1, (inside x y step).2, step⟩) a a path

/-! ## The plan -/

/-- Whether of any two selected commits that are ancestor and descendant in the page the ancestor has
the smaller blocking chain. -/
def causalChains (commits : CommitIndex) (pending : OrdSet NamespaceCommitId) : Bool :=
  pending.elems.all fun x => pending.elems.all (fun y =>
    !isAncestor commits x y || decide (commitChain commits pending x < commitChain commits pending y))

def selectedCommits (commits : List ReconciliationCommit) (frontier : ReconciliationFrontier)
    (limits : ReconciliationLimits) :
    Except ReconciliationError (CommitIndex × OrdSet NamespaceCommitId) := do
  let byId ← indexCommits commits limits
  let converged ← reachable frontier.convergedHead.toList byId
  let eligible ← reachable frontier.eligibleHeads byId
  return (byId, selectPending byId eligible converged)

/-- The selected commits of the input have causal chains. -/
def chainsCausal (commits : List ReconciliationCommit) (frontier : ReconciliationFrontier)
    (limits : ReconciliationLimits) : Bool :=
  match selectedCommits commits frontier limits with
  | .ok (byId, pending) => causalChains byId pending
  | .error _ => false

def ParentIn (commits : List ReconciliationCommit) (p c : NamespaceCommitId) : Prop :=
  ∃ commit ∈ commits, commit.commitId = c ∧ p ∈ commit.parents

def Carried (commits : List ReconciliationCommit) (heads : List NamespaceCommitId) (operation : OperationId)
    (id : NamespaceCommitId) : Prop :=
  (∃ c ∈ commits, c.commitId = id ∧ c.operationId = operation) ∧
    ∃ head ∈ heads, Relation.ReflTransGen (ParentIn commits) id head

/-- The list has exactly one commit of every operation the eligible heads carry and the converged head
does not, and no other commit. -/
structure LosesNothing (commits : List ReconciliationCommit) (frontier : ReconciliationFrontier)
    (ordered : List NamespaceCommitId) : Prop where
  nodup : ordered.Nodup
  each : ∀ operation, (∃ id, Carried commits frontier.eligibleHeads operation id) →
    (¬ ∃ id, Carried commits frontier.convergedHead.toList operation id) →
      ∃! id, id ∈ ordered ∧ Carried commits frontier.eligibleHeads operation id
  only : ∀ id ∈ ordered, ∃ operation, Carried commits frontier.eligibleHeads operation id ∧
    ¬ ∃ other, Carried commits frontier.convergedHead.toList operation other

def CausalOrder (commits : List ReconciliationCommit) (ordered : List NamespaceCommitId) : Prop :=
  ∀ x ∈ ordered, ∀ y ∈ ordered, Relation.TransGen (ParentIn commits) x y → Precedes ordered x y

structure Accepted (commits : List ReconciliationCommit) (frontier : ReconciliationFrontier)
    (limits : ReconciliationLimits) (ordered : List NamespaceCommitId) where
  byId : CommitIndex
  (converged eligible : OrdSet NamespaceCommitId)
  indexes : Indexes commits byId
  indexed : indexCommits commits limits = .ok byId
  convergedComputed : reachable frontier.convergedHead.toList byId = .ok converged
  eligibleComputed : reachable frontier.eligibleHeads byId = .ok eligible
  headsPresent : ∀ h ∈ frontier.heads, ∃ c, byId.get? h = some c
  acyclic : ∀ a, ¬ Relation.TransGen (Parent byId) a a
  order : orderPending byId (selectPending byId eligible converged) = .ok ordered

theorem planReconciliation_ok {commits : List ReconciliationCommit} {frontier : ReconciliationFrontier}
    {plan : ReconciliationPlan} (h : planReconciliation commits frontier limits = .ok plan) :
    Nonempty (Accepted commits frontier limits plan.orderedCommits) := by
  obtain ⟨-, -, byId, indexed, _, namespace_, h⟩ := bind₃_eq_ok.mp h
  obtain ⟨converged, hconverged, eligible, heligible, h⟩ := bind₂_eq_ok.mp h
  obtain ⟨-, h⟩ := guard_ok.mp h
  obtain ⟨_, acyclic, -, -, h⟩ := bind₂_eq_ok.mp h
  obtain ⟨-, h⟩ := guard_ok.mp h
  obtain ⟨ordered, order, _, _, h⟩ := bind₂_eq_ok.mp h
  have indexes := indexCommits_ok indexed
  have heads : ∀ x ∈ frontier.heads, ∃ c, byId.get? x = some c := by
    unfold validateNamespace at namespace_
    split at namespace_
    · cases namespace_
    obtain ⟨-, namespace_⟩ := guard_ok.mp namespace_
    obtain ⟨-, namespace_⟩ := guard_ok.mp namespace_
    split at namespace_
    · cases namespace_
    rename_i present
    intro x hx
    simp only [any_eq_true, Bool.not_eq_true', not_exists, not_and, Bool.not_eq_false,
      OrdMap.contains] at present
    exact Option.isSome_iff_exists.mp (present x hx)
  split at h
  · cases h
  cases h
  exact ⟨{ byId, converged, eligible, indexes, indexed, convergedComputed := hconverged
           eligibleComputed := heligible, headsPresent := heads
           acyclic := validateAcyclic_ok indexes.closed indexes.nodup acyclic, order }⟩

namespace Accepted

variable {commits : List ReconciliationCommit} {frontier : ReconciliationFrontier}
  {limits : ReconciliationLimits} {ordered : List NamespaceCommitId}

def pending (a : Accepted commits frontier limits ordered) : OrdSet NamespaceCommitId :=
  selectPending a.byId a.eligible a.converged

section

variable (a : Accepted commits frontier limits ordered)

include a

theorem parent_iff (p c : NamespaceCommitId) : Parent a.byId p c ↔ ParentIn commits p c := by
  unfold Parent CommitIndex.parents ParentIn
  constructor
  · intro h
    split at h
    · cases h
    · rename_i commit present
      obtain ⟨mem, eq⟩ := (a.indexes.get? c commit).mp present
      exact ⟨commit, mem, eq, h⟩
  · rintro ⟨commit, mem, eq, hp⟩
    rw [(a.indexes.get? c commit).mpr ⟨mem, eq⟩]
    exact hp

theorem parent_eq : Parent a.byId = ParentIn commits := by
  funext p c
  exact propext (a.parent_iff p c)

theorem mem_eligible (x : NamespaceCommitId) :
    x ∈ a.eligible ↔ ∃ h ∈ frontier.eligibleHeads, Relation.ReflTransGen (ParentIn commits) x h := by
  obtain ⟨result, computed, spec⟩ := reachable_spec a.indexes.closed
    (fun h hh => a.headsPresent h (mem_append_right _ hh) : ∀ h ∈ frontier.eligibleHeads, _)
  cases a.eligibleComputed.symm.trans computed
  rw [spec, a.parent_eq]

theorem mem_converged (x : NamespaceCommitId) : x ∈ a.converged ↔
      ∃ h ∈ frontier.convergedHead.toList, Relation.ReflTransGen (ParentIn commits) x h := by
  obtain ⟨result, computed, spec⟩ := reachable_spec a.indexes.closed
    (fun h hh => a.headsPresent h (mem_append_left _ hh) : ∀ h ∈ frontier.convergedHead.toList, _)
  cases a.convergedComputed.symm.trans computed
  rw [spec, a.parent_eq]

theorem present_of_path {h : NamespaceCommitId} (head : h ∈ frontier.heads)
    (path : Relation.ReflTransGen (ParentIn commits) x h) : ∃ c, a.byId.get? x = some c := by
  rw [← a.parent_eq] at path
  rcases Relation.ReflTransGen.cases_head path with same | ⟨y, step, _⟩
  · rw [same]
    exact a.headsPresent h head
  · exact (parent_present a.indexes.closed step).1

theorem carried_iff (inside : ∀ h ∈ heads, h ∈ frontier.heads) (operation : OperationId)
    (x : NamespaceCommitId) : Carried commits heads operation x ↔ a.byId.operation x = operation ∧
      ∃ h ∈ heads, Relation.ReflTransGen (ParentIn commits) x h := by
  unfold Carried CommitIndex.operation
  constructor
  · rintro ⟨⟨c, mem, eq, op⟩, reach⟩
    rw [(a.indexes.get? x c).mpr ⟨mem, eq⟩]
    exact ⟨op, reach⟩
  · rintro ⟨op, h, hh, path⟩
    obtain ⟨c, present⟩ := a.present_of_path (inside h hh) path
    rw [present] at op
    obtain ⟨mem, eq⟩ := (a.indexes.get? x c).mp present
    exact ⟨⟨c, mem, eq, op⟩, h, hh, path⟩

variable (operation : OperationId)

theorem carried_eligible (x : NamespaceCommitId) :
    Carried commits frontier.eligibleHeads operation x ↔
      a.byId.operation x = operation ∧ x ∈ a.eligible := by
  rw [a.carried_iff fun h hh => mem_append_right _ hh, a.mem_eligible]

theorem carried_converged (x : NamespaceCommitId) :
    Carried commits frontier.convergedHead.toList operation x ↔
      a.byId.operation x = operation ∧ x ∈ a.converged := by
  rw [a.carried_iff fun h hh => mem_append_left _ hh, a.mem_converged]

theorem pending_present (x : NamespaceCommitId) (hx : x ∈ a.pending) : ∃ c, a.byId.get? x = some c := by
  obtain ⟨h, hh, path⟩ := (a.mem_eligible x).mp (mem_selectPending.mp hx).1
  exact a.present_of_path (mem_append_right _ hh) path

theorem greedy :
    Greedy a.pending.elems (Parent (pendingGraph a.byId a.pending)) (commitKey a.byId) ordered :=
  orderPending_greedy a.indexes.nodup a.order

theorem edges_within (p c : NamespaceCommitId) (step : Parent (pendingGraph a.byId a.pending) p c) :
    p ∈ a.pending.elems ∧ c ∈ a.pending.elems :=
  ⟨(parent_pendingGraph.mp step).1, (parent_pendingGraph.mp step).2.1⟩

theorem precedes_iff {y : NamespaceCommitId} (hx : x ∈ a.pending) (hy : y ∈ a.pending) :
    Precedes ordered x y ↔
      commitChain a.byId a.pending x < commitChain a.byId a.pending y :=
  a.greedy.precedes_iff a.edges_within
    (isAncestor_iff (closed_pendingGraph a.pending_present) (a.greedy.acyclic a.edges_within))
    (commitKey_injective a.byId) hx hy

/-- The selection half holds of every accepted input. -/
theorem losesNothing : LosesNothing commits frontier ordered where
  nodup := a.greedy.nodup
  each := by
    intro operation ⟨id, carried⟩ fresh
    obtain ⟨same, eligible⟩ := (a.carried_eligible operation id).mp carried
    have notConverged : ∀ j, j ∈ a.converged → a.byId.operation j ≠ operation :=
      fun j hj eq => fresh ⟨j, (a.carried_converged operation j).mpr ⟨eq, hj⟩⟩
    -- the least eligible commit of the operation
    obtain ⟨least, ⟨leastMem, leastSame⟩, minimal⟩ : ∃ n, (n ∈ a.eligible ∧ a.byId.operation n = operation) ∧
        ∀ j, j ∈ a.eligible ∧ a.byId.operation j = operation → n ≤ j :=
      ⟨_, WellFounded.min_mem Nat.lt_wfRel.wf {n | n ∈ a.eligible ∧ a.byId.operation n = operation}
          ⟨id, eligible, same⟩,
        fun j hj => WellFounded.min_le Nat.lt_wfRel.wf hj⟩
    have selected : least ∈ a.pending := by
      rw [pending, mem_selectPending]
      refine ⟨leastMem, ?_, ?_⟩
      · rw [leastSame]
        exact notConverged
      · rw [leastSame]
        exact fun j hj eq => minimal j ⟨hj, eq⟩
    refine ⟨least, ⟨(a.greedy.mem least).mpr selected, (a.carried_eligible _ _).mpr ⟨leastSame, leastMem⟩⟩, ?_⟩
    rintro other ⟨listed, carriedOther⟩
    have otherSelected : other ∈ a.pending := (a.greedy.mem other).mp listed
    obtain ⟨otherSame, otherMem⟩ := (a.carried_eligible operation other).mp carriedOther
    have lower := (mem_selectPending.mp otherSelected).2.2 least leastMem (leastSame.trans otherSame.symm)
    exact le_antisymm lower (minimal other ⟨otherMem, otherSame⟩)
  only := by
    intro id listed
    have selected : id ∈ a.pending := (a.greedy.mem id).mp listed
    obtain ⟨eligible, notConverged, _⟩ := mem_selectPending.mp selected
    refine ⟨a.byId.operation id, (a.carried_eligible _ _).mpr ⟨rfl, eligible⟩, ?_⟩
    rintro ⟨other, carried⟩
    obtain ⟨same, converged⟩ := (a.carried_converged _ _).mp carried
    exact notConverged other converged same

theorem causalOrder_iff : CausalOrder commits ordered ↔ causalChains a.byId a.pending = true := by
  have ancestry : ∀ x y, isAncestor a.byId x y ↔ Relation.TransGen (ParentIn commits) x y := by
    intro x y
    rw [isAncestor_iff a.indexes.closed a.acyclic, a.parent_eq]
  simp only [CausalOrder, causalChains, all_eq_true, Bool.or_eq_true, Bool.not_eq_true',
    decide_eq_true_eq, a.greedy.mem]
  constructor
  · intro causal x hx y hy
    by_cases ancestor : isAncestor a.byId x y
    · exact .inr ((a.precedes_iff hx hy).mp (causal x hx y hy ((ancestry x y).mp ancestor)))
    · exact .inl (by simpa using ancestor)
  · intro chains x hx y hy path
    refine (a.precedes_iff hx hy).mpr ((chains x hx y hy).resolve_left ?_)
    simp [(ancestry x y).mpr path]

end

end Accepted

/-- An accepted plan loses nothing, and it respects causality exactly when the blocking chains of its
selected commits do. -/
theorem plan_causal_iff {commits : List ReconciliationCommit} {frontier : ReconciliationFrontier}
    {limits : ReconciliationLimits} {plan : ReconciliationPlan}
    (h : planReconciliation commits frontier limits = .ok plan) :
    (LosesNothing commits frontier plan.orderedCommits ∧ CausalOrder commits plan.orderedCommits) ↔
      chainsCausal commits frontier limits = true := by
  obtain ⟨a⟩ := planReconciliation_ok h
  have chains : chainsCausal commits frontier limits = causalChains a.byId a.pending := by
    simp only [chainsCausal, selectedCommits, a.indexed, a.convergedComputed, a.eligibleComputed, bind,
      Except.bind]
    rfl
  rw [chains, ← a.causalOrder_iff]
  exact ⟨fun both => both.2, fun causal => ⟨a.losesNothing, causal⟩⟩

namespace Skipped

def commit (commitId : NamespaceCommitId) (operationId : OperationId) (parents : List NamespaceCommitId) :
    ReconciliationCommit :=
  { commitId, branchId := 1, volumeId := 1, rootObjectId := 1, rootObjectRevisionId := commitId, parents,
    operationId, requestDigest := .framed "request" [operationId],
    payload := .mutation (.framed "intent" [commitId]) }

/-- The converged head 1 carries operation 10, and so does commit 3, which is dropped from between
commits 2 and 4. -/
def page (last : OperationId) : List ReconciliationCommit :=
  [commit 1 10 [], commit 2 5 [1], commit 3 10 [2], commit 4 last [3]]

def frontier : ReconciliationFrontier := { convergedHead := some 1, eligibleHeads := [4] }

/-- Commit 2 is an ancestor of commit 4 and is listed after it. -/
theorem descendant_listed_first :
    (planReconciliation (page 1) frontier .default).map (·.orderedCommits) = .ok [4, 2] ∧
      Relation.TransGen (ParentIn (page 1)) 2 4 ∧ ¬ Topological.Precedes [4, 2] 2 4 := by
  refine ⟨by decide +kernel, ?_, ?_⟩
  · have first : ParentIn (page 1) 2 3 := ⟨commit 3 10 [2], by decide, rfl, by decide⟩
    have second : ParentIn (page 1) 3 4 := ⟨commit 4 1 [3], by decide, rfl, by decide⟩
    exact (Relation.TransGen.single first).tail second
  · rintro ⟨front, back, split, later⟩
    rcases front with _ | ⟨a, _ | ⟨b, _ | ⟨c, front⟩⟩⟩ <;> simp at split
    obtain ⟨_, rfl⟩ := split
    cases later

/-- With a later operation on commit 4 the chains are causal, and so is the plan. -/
theorem later_operation_causal : ∃ plan, planReconciliation (page 6) frontier .default = .ok plan ∧
    plan.orderedCommits = [2, 4] ∧ LosesNothing (page 6) frontier plan.orderedCommits ∧
      CausalOrder (page 6) plan.orderedCommits := by
  have accepted : (planReconciliation (page 6) frontier .default).map (·.orderedCommits) = .ok [2, 4] := by
    decide +kernel
  cases planned : planReconciliation (page 6) frontier .default with
  | error err =>
    rw [planned] at accepted
    cases accepted
  | ok plan =>
    rw [planned] at accepted
    exact ⟨plan, rfl, Except.ok.inj accepted, (plan_causal_iff planned).mpr (by decide +kernel)⟩

end Skipped

end Reconciliation

end MeshSpan
