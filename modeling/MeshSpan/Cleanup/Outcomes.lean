import MeshSpan.Cleanup.Invariant

/- Completions, reclamations and the two summaries.

   The summaries are written by the command that records the last row of a cleanup,
   and the code compares numbers only. `Outcomes` ties the numbers to the rows: each
   completion answers a permit, each reclamation its completion, and a summary is
   there exactly when the rows are as many as the sealed inventory has items. -/

namespace MeshSpan.Cleanup

open Rows Repository List

/-! ## Counting rows -/

variable {α : Type} {index : Nat} {part whole rows : List α} {row : Reclamation}

theorem mem_of_nodup_of_length (nodup : part.Nodup) (sub : ∀ a ∈ part, a ∈ whole)
    (length : whole.length ≤ part.length) : ∀ a ∈ whole, a ∈ part :=
  fun _ mem => ((nodup.subperm sub).perm_of_length_le length).mem_iff.mpr mem

theorem length_le_of_nodup (nodup : part.Nodup) (sub : ∀ a ∈ part, a ∈ whole) :
    part.length ≤ whole.length := (nodup.subperm sub).length_le

theorem nodup_second {κ : Type} [DecidableEq κ] {first second : α → κ}
    (keyed : Keyed (fun row => (first row, second row)) rows) (k : κ) :
    ((rows.filter (first · == k)).map second).Nodup := by
  have sub : ((rows.filter (first · == k)).map fun row => (first row, second row)).Nodup :=
    keyed.sublist (filter_sublist.map _)
  have same : (rows.filter (first · == k)).map (fun row => (first row, second row)) =
      ((rows.filter (first · == k)).map second).map fun x => (k, x) := by
    rw [map_map]
    refine map_congr_left fun row mem => ?_
    have key : first row = k := by simpa using (mem_filter.mp mem).2
    rw [key]
    rfl
  rw [same] at sub
  exact sub.of_map _

theorem mem_second {κ ι : Type} [DecidableEq κ] {first : α → κ} {second : α → ι} {k : κ} {x : ι} :
    x ∈ (rows.filter (first · == k)).map second ↔
      ∃ row ∈ rows, first row = k ∧ second row = x := by simp [and_assoc]

/-! ## Completions, reclamations and summaries -/

def Counts (s : Store) (c : OperationId) (count : Nat) : Prop :=
  ∃ inventory, inventory? s c = some inventory ∧ inventory.sealed.isSome ∧
    inventory.expectedItemCount = count

/-- The receipt answers a permit that was issued for an item. -/
def AnswersPermit (s : Store) (c : OperationId) (index sequence : Nat) (receipt : TombstoneReceipt) :
    Prop :=
  ∃ attempt ∈ s.attempts, ∃ item ∈ s.items,
    attempt.cleanupOperationId = c ∧ attempt.itemIndex = index ∧ attempt.attemptSequence = sequence ∧
    item.cleanupOperationId = c ∧ item.itemIndex = index ∧ receiptMatches receipt (attempt.permit item) = true

structure Outcomes (s : Store) : Prop where
  completions : Keyed (fun row => (row.cleanupOperationId, row.itemIndex)) s.completions
  sealed : ∀ row ∈ s.completions, SealedAt s row.cleanupOperationId row.itemIndex
  permitted : ∀ row ∈ s.completions,
    AnswersPermit s row.cleanupOperationId row.itemIndex row.permitAttemptSequence row.receipt
  reclamations : Keyed (fun row => (row.cleanupOperationId, row.itemIndex)) s.reclamations
  tombstoned : ∀ row ∈ s.reclamations, ∃ completion ∈ s.completions,
    completion.cleanupOperationId = row.cleanupOperationId ∧ completion.itemIndex = row.itemIndex ∧
    row.receipt.tombstone = completion.receipt
  summed : ∀ c, (∃ row ∈ s.completionSummaries, row.cleanupOperationId = c) ↔
    Counts s c (completionsOf s c).length
  totals : ∀ row ∈ s.completionSummaries, Counts s row.cleanupOperationId row.itemCount
  reclaimed : ∀ c, (∃ row ∈ s.reclamationSummaries, row.cleanupOperationId = c) ↔
    Counts s c (reclamationsOf s c).length

variable {s s' : Store} {c : OperationId} {count : Nat}

theorem Counts.unique {other : Nat} (h : Counts s c count) (h' : Counts s c other) : count = other := by
  obtain ⟨inventory, found, _, rfl⟩ := h
  obtain ⟨inventory', found', _, rfl⟩ := h'
  rw [found] at found'
  cases found'
  rfl

theorem Counts.bounds (h : Counts s c count) (inside : SealedAt s c index) : index < count := by
  obtain ⟨inventory, mark, found, isSealed, le⟩ := inside
  exact h.unique ⟨inventory, found, by simp [isSealed], rfl⟩ ▸ le

theorem Grows.counts (grows : Grows s s') (h : Counts s c count) : Counts s' c count := by
  obtain ⟨inventory, found, isSealed, full⟩ := h
  exact ⟨inventory, grows.sealed c inventory found isSealed, isSealed, full⟩

theorem Grows.answersPermit (grows : Grows s s') {sequence : Nat} {receipt : TombstoneReceipt}
    (h : AnswersPermit s c index sequence receipt) : AnswersPermit s' c index sequence receipt := by
  obtain ⟨attempt, isAttempt, item, isItem, facts⟩ := h
  exact ⟨attempt, grows.attempts.subset isAttempt, item, grows.items.subset isItem, facts⟩

/-- A count that was reached later, of rows whose cleanup was sealed before, was reached before. -/
theorem Grows.counts_back (grows : Grows s s') (before : SealedAt s c index) (h : Counts s' c count) :
    Counts s c count := by
  obtain ⟨inventory, mark, found, isSealed, _⟩ := before
  have isSome : inventory.sealed.isSome := by simp [isSealed]
  obtain ⟨later, found', _, full⟩ := h
  rw [grows.sealed c inventory found isSome] at found'
  cases found'
  exact ⟨inventory, found, isSome, full⟩

theorem Outcomes.sealed_of_length (h : Outcomes s)
    (some' : (completionsOf s c).length ≠ 0) : ∃ index, SealedAt s c index := by
  obtain ⟨row, mem⟩ := exists_mem_of_length_pos (pos_of_ne_zero some')
  obtain ⟨stored, key⟩ := mem_filter.mp mem
  have key : row.cleanupOperationId = c := by simpa using key
  exact ⟨row.itemIndex, key ▸ h.sealed row stored⟩

theorem length_reclaimed_le {reclamations : List Reclamation} {completions : List Completion}
    (keyed : Keyed (fun row => (row.cleanupOperationId, row.itemIndex)) reclamations)
    (tombstoned : ∀ row ∈ reclamations, ∃ completion ∈ completions,
      completion.cleanupOperationId = row.cleanupOperationId ∧ completion.itemIndex = row.itemIndex ∧
      row.receipt.tombstone = completion.receipt) (c : OperationId) :
    (reclamations.filter (·.cleanupOperationId == c)).length ≤
      (completions.filter (·.cleanupOperationId == c)).length := by
  have sub : ∀ index ∈ (reclamations.filter (·.cleanupOperationId == c)).map
      Reclamation.itemIndex, index ∈
      (completions.filter (·.cleanupOperationId == c)).map Completion.itemIndex := by
    intro index mem
    obtain ⟨row, stored, rfl, rfl⟩ := mem_second.mp mem
    obtain ⟨completion, isStored, cleanup, same, _⟩ := tombstoned row stored
    exact mem_second.mpr ⟨completion, isStored, cleanup, same⟩
  have le := length_le_of_nodup (nodup_second keyed c) sub
  rw [length_map, length_map] at le
  exact le

theorem Outcomes.congr (h : Outcomes s) (listed : Listed s') (grows : Grows s s')
    (completions : s'.completions = s.completions) (reclamations : s'.reclamations = s.reclamations)
    (summaries : s'.completionSummaries = s.completionSummaries)
    (terminal : s'.reclamationSummaries = s.reclamationSummaries) : Outcomes s' where
  completions := by
    rw [completions]
    exact h.completions
  sealed := by
    rw [completions]
    exact fun row mem => grows.sealedAt (h.sealed row mem)
  permitted := by
    rw [completions]
    exact fun row mem => grows.answersPermit (h.permitted row mem)
  reclamations := by
    rw [reclamations]
    exact h.reclamations
  tombstoned := by
    rw [completions, reclamations]
    exact h.tombstoned
  summed c := by
    unfold completionsOf
    rw [summaries, completions]
    refine (h.summed c).trans ⟨grows.counts, fun later => ?_⟩
    obtain ⟨inventory, found, isSealed, full⟩ := later
    have positive := (listed.full c inventory found isSealed).2
    obtain ⟨index, before⟩ := h.sealed_of_length (c := c) (full ▸ positive)
    exact grows.counts_back before ⟨inventory, found, isSealed, full⟩
  totals := by
    rw [summaries]
    exact fun row mem => grows.counts (h.totals row mem)
  reclaimed c := by
    unfold reclamationsOf
    rw [terminal, reclamations]
    refine (h.reclaimed c).trans ⟨grows.counts, fun later => ?_⟩
    obtain ⟨inventory, found, isSealed, full⟩ := later
    have positive := (listed.full c inventory found isSealed).2
    have le : (reclamationsOf s c).length ≤ (completionsOf s c).length :=
      length_reclaimed_le h.reclamations h.tombstoned c
    obtain ⟨index, before⟩ := h.sealed_of_length (c := c) (by
      have : (reclamationsOf s c).length ≠ 0 := full ▸ positive
      omega)
    exact grows.counts_back before ⟨inventory, found, isSealed, full⟩

section

variable {α : Type} {key : α → OperationId} {rows : List α} {summaries : List Summary} {row : α}

theorem length_filter_snoc : ((rows ++ [row]).filter (key · == key row)).length =
      (rows.filter (key · == key row)).length + 1 := by
  rw [filter_append, length_append, filter_singleton, beq_self_eq_true]
  rfl

/-- A table is summed up when the cleanups that have a summary are those whose rows are as many as
the sealed inventory has items. -/
def SummedUp (s : Store) (key : α → OperationId) (rows : List α) (summaries : List Summary) : Prop :=
  ∀ c, (∃ summary ∈ summaries, summary.cleanupOperationId = c) ↔
    Counts s c (rows.filter (key · == c)).length

theorem filter_snoc_of_ne (differs : key row ≠ c) :
    (rows ++ [row]).filter (key · == c) = rows.filter fun r => key r == c := by
  rw [filter_append, filter_singleton, beq_eq_false_iff_ne.mpr differs]
  exact append_nil _

/-- A row that is neither the last of its cleanup nor follows the last needs no summary, -/
theorem SummedUp.add (h : SummedUp s key rows summaries)
    (before : ¬ Counts s (key row) (rows.filter (key · == key row)).length)
    (after : ¬ Counts s (key row) ((rows.filter (key · == key row)).length + 1)) :
    SummedUp s key (rows ++ [row]) summaries := by
  intro c
  refine (h c).trans ?_
  by_cases same : key row = c
  · rw [← same, length_filter_snoc]
    exact iff_of_false before after
  · rw [filter_snoc_of_ne same]

/-- and the last one is summed up by one more. -/
theorem SummedUp.last (h : SummedUp s key rows summaries) {summary : Summary}
    (isKey : summary.cleanupOperationId = key row)
    (after : Counts s (key row) ((rows.filter (key · == key row)).length + 1)) :
    SummedUp s key (rows ++ [row]) (summaries ++ [summary]) := by
  intro c
  by_cases same : key row = c
  · rw [← same, length_filter_snoc]
    exact iff_of_true ⟨summary, mem_append_right _ mem_cons_self, isKey⟩ after
  · rw [filter_snoc_of_ne same, ← h c]
    have other : summary.cleanupOperationId ≠ c := isKey ▸ same
    simp [or_and_right, exists_or, other]

end

/-- The rows after one more completion, before its cleanup is summed up. -/
structure Completing (s : Store) (row : Completion) : Prop where
  fresh : completion? s row.cleanupOperationId row.itemIndex = none
  sealed : SealedAt s row.cleanupOperationId row.itemIndex
  permitted : AnswersPermit s row.cleanupOperationId row.itemIndex row.permitAttemptSequence row.receipt

theorem Completing.keyed {row : Completion} (new : Completing s row) (h : Outcomes s) :
    Keyed (fun row => (row.cleanupOperationId, row.itemIndex)) (s.completions ++ [row]) := by
  refine keyed_append h.completions fun old mem same => ?_
  have keys := Prod.mk.inj same
  have differs := find?_eq_none.mp new.fresh old mem
  simp [keys.1, keys.2] at differs

variable {context : CommandContext} {revision : Revision}

/-- The completion of another item leaves the sums of a cleanup alone; an item of the cleanup
itself is one more. -/
theorem Outcomes.completed {row : Completion} (h : Outcomes s) (new : Completing s row)
    (summed : completeSummaryIfReady { s with completions := s.completions ++ [row] } context
      row.cleanupOperationId revision = .ok s') : Outcomes s' := by
  have sums : SummedUp s Completion.cleanupOperationId s.completions s.completionSummaries := h.summed
  have total : ((s.completions ++ [row]).filter fun r =>
      r.cleanupOperationId == row.cleanupOperationId).length =
      (completionsOf s row.cleanupOperationId).length + 1 := length_filter_snoc
  have sealed := forall_mem_append.mpr ⟨h.sealed, forall_mem_singleton.mpr new.sealed⟩
  have permitted :=
    forall_mem_append.mpr ⟨h.permitted, forall_mem_singleton.mpr new.permitted⟩
  have tombstoned : ∀ r ∈ s.reclamations, ∃ completion ∈ s.completions ++ [row],
      completion.cleanupOperationId = r.cleanupOperationId ∧ completion.itemIndex = r.itemIndex ∧
      r.receipt.tombstone = completion.receipt := by
    intro r mem
    obtain ⟨completion, stored, facts⟩ := h.tombstoned r mem
    exact ⟨completion, mem_append_left _ stored, facts⟩
  obtain ⟨inventory, mark, found, isSealed, outcome⟩ := completeSummaryIfReady_ok summed
  have expected : Counts s row.cleanupOperationId inventory.expectedItemCount :=
    ⟨inventory, found, by simp [isSealed], rfl⟩
  rcases outcome with ⟨short, rfl⟩ | ⟨full, summary, key, count, _, rfl⟩
  · have short : (completionsOf s row.cleanupOperationId).length + 1 < inventory.expectedItemCount :=
      total ▸ short
    refine ⟨new.keyed h, sealed, permitted, h.reclamations, tombstoned,
      sums.add (fun counts => ?_) fun counts => ?_, h.totals, h.reclaimed⟩
    · have same : (completionsOf s row.cleanupOperationId).length = _ := counts.unique expected
      omega
    · have same : (completionsOf s row.cleanupOperationId).length + 1 = _ := counts.unique expected
      omega
  · have full : (completionsOf s row.cleanupOperationId).length + 1 = inventory.expectedItemCount :=
      total ▸ full
    refine ⟨new.keyed h, sealed, permitted, h.reclamations, tombstoned, sums.last key (full ▸ expected),
      forall_mem_append.mpr ⟨h.totals, forall_mem_singleton.mpr ?_⟩, h.reclaimed⟩
    rw [key, count]
    exact expected

theorem Outcomes.completed_le (h : Outcomes s)
    (counts : Counts s c count) : (completionsOf s c).length ≤ count := by
  have sub : ∀ index ∈ (completionsOf s c).map Completion.itemIndex, index ∈ range count := by
    intro index mem
    obtain ⟨row, stored, rfl, rfl⟩ := mem_second.mp mem
    exact mem_range.mpr (counts.bounds (h.sealed row stored))
  have le := length_le_of_nodup (nodup_second h.completions c) sub
  rw [length_map, length_range] at le
  exact le

/-- The reclamation of an item whose completion is stored. -/
structure Reclaiming (s : Store) (row : Reclamation) : Prop where
  fresh : reclamation? s row.cleanupOperationId row.itemIndex = none
  tombstoned : ∃ completion ∈ s.completions,
    completion.cleanupOperationId = row.cleanupOperationId ∧ completion.itemIndex = row.itemIndex ∧
    row.receipt.tombstone = completion.receipt

/-- One more reclamation, without a change of the summaries: all but the last line of
`Outcomes` is kept, and no more items are reclaimed than are complete. -/
theorem Outcomes.reclaiming (h : Outcomes s) (new : Reclaiming s row) :
    Keyed (fun row => (row.cleanupOperationId, row.itemIndex)) (s.reclamations ++ [row]) ∧
    ∀ r ∈ s.reclamations ++ [row], ∃ completion ∈ s.completions,
      completion.cleanupOperationId = r.cleanupOperationId ∧ completion.itemIndex = r.itemIndex ∧
      r.receipt.tombstone = completion.receipt := by
  constructor
  · refine keyed_append h.reclamations fun old mem same => ?_
    have keys := Prod.mk.inj same
    have differs := find?_eq_none.mp new.fresh old mem
    simp [keys.1, keys.2] at differs
  · exact forall_mem_append.mpr ⟨h.tombstoned, forall_mem_singleton.mpr new.tombstoned⟩

theorem Outcomes.confirmed (h : Outcomes s) (new : Reclaiming s row)
    (summed : reclaimSummaryIfReady { s with reclamations := s.reclamations ++ [row] } context
      row.cleanupOperationId revision = .ok s') : Outcomes s' := by
  obtain ⟨keyed, tombstoned⟩ := h.reclaiming new
  have sums : SummedUp s Reclamation.cleanupOperationId s.reclamations s.reclamationSummaries := h.reclaimed
  have total : ((s.reclamations ++ [row]).filter fun r =>
      r.cleanupOperationId == row.cleanupOperationId).length =
      (reclamationsOf s row.cleanupOperationId).length + 1 := length_filter_snoc
  -- with the new row there are still no more reclamations than completions
  have bound : (reclamationsOf s row.cleanupOperationId).length + 1 ≤
      (completionsOf s row.cleanupOperationId).length :=
    total ▸ length_reclaimed_le keyed tombstoned row.cleanupOperationId
  -- before the new row the cleanup was not all reclaimed
  have notBefore : ¬ Counts s row.cleanupOperationId (reclamationsOf s row.cleanupOperationId).length := by
    intro counts
    have le := h.completed_le counts
    omega
  rcases reclaimSummaryIfReady_ok summed with ⟨none, rfl⟩ | ⟨terminal, found, outcome⟩
  · refine ⟨h.completions, h.sealed, h.permitted, keyed, tombstoned, h.summed, h.totals,
      sums.add notBefore fun counts => ?_⟩
    -- all items reclaimed would mean all complete, and then there is a summary
    have le : _ ≤ (reclamationsOf s row.cleanupOperationId).length + 1 := h.completed_le counts
    obtain ⟨summary, stored, key⟩ := (h.summed row.cleanupOperationId).mpr (bound.antisymm le ▸ counts)
    exact get_eq_none.mp none summary stored key
  · obtain ⟨stored, key⟩ := get_mem found
    have expected : Counts s row.cleanupOperationId terminal.itemCount := key ▸ h.totals terminal stored
    rcases outcome with ⟨short, rfl⟩ | ⟨full, summary, isC, rfl⟩
    · refine ⟨h.completions, h.sealed, h.permitted, keyed, tombstoned, h.summed, h.totals,
        sums.add notBefore fun counts => ?_⟩
      have short : (reclamationsOf s row.cleanupOperationId).length + 1 < terminal.itemCount := total ▸ short
      exact short.ne (counts.unique expected)
    · have full : (reclamationsOf s row.cleanupOperationId).length + 1 = terminal.itemCount := total ▸ full
      exact ⟨h.completions, h.sealed, h.permitted, keyed, tombstoned, h.summed, h.totals,
        sums.last isC (full ▸ expected)⟩

theorem Outcomes.effect {scheme : SignatureScheme} {command : Command} (h : Outcomes s) (listed : Listed s')
    (done : Effect scheme s context revision command s') : Outcomes s' := by
  have grows := grows_of_effect done
  cases done with
  | completed command sealed attempt item s' sealedItem absent exact' receipt summed =>
    obtain ⟨isAttempt, cleanup, index, sequence, isItem, itemCleanup, itemIndex⟩ := exactAttempt_ok exact'
    have new : Completing s (completionOf context command revision) :=
      ⟨absent, sealedItem.inventory, attempt, isAttempt, item, isItem, cleanup, index, sequence,
        itemCleanup, itemIndex, receipt⟩
    exact h.completed new summed
  | confirmed command completion s' found receipt absent summed =>
    have stored := mem_of_find?_eq_some found
    have keys : completion.cleanupOperationId = command.cleanupOperationId ∧
        completion.itemIndex = command.itemIndex := by simpa using find?_some found
    simp only [reclamationMatches, Bool.and_eq_true, beq_iff_eq] at receipt
    have new : Reclaiming s (reclamationOf context command revision) :=
      ⟨absent, completion, stored, keys.1, keys.2, receipt.1.1⟩
    exact h.confirmed new summed
  | _ => exact h.congr listed grows rfl rfl rfl rfl

/-! ## After every history -/

structure Consistent (s : Store) : Prop where
  proposals : Proposals s
  listed : Listed s
  permits : Permits s
  outcomes : Outcomes s

theorem consistent_empty : Consistent emptyStore where
  proposals := ⟨nodup_nil, nodup_nil, nofun, nofun⟩
  listed := ⟨fun _ => rfl, Pairwise.nil, nofun⟩
  permits := ⟨fun _ _ => rfl, fun _ _ => Pairwise.nil, nofun, nofun, nofun⟩
  outcomes := {
    completions := nodup_nil
    sealed := nofun
    permitted := nofun
    reclamations := nodup_nil
    tombstoned := nofun
    summed := fun _ => ⟨nofun, nofun⟩
    totals := nofun
    reclaimed := fun _ => ⟨nofun, nofun⟩ }

theorem grows_recorded (s : Store) (revision : Revision) (operations : List OperationId) :
    Grows s (recorded s revision operations) :=
  .congr rfl rfl prefix_rfl prefix_rfl prefix_rfl

variable (scheme : SignatureScheme)

/-- The tables are consistent after every sequence of committed entries. -/
theorem consistent_run (history : List Entry) : Consistent (run scheme history) := by
  refine run_induction consistent_empty ?_ ?_ history
  · intro s context revision command next h done
    have listed := h.listed.effect done
    exact ⟨h.proposals.effect done, listed, h.permits.effect done, h.outcomes.effect listed done⟩
  · intro next revision operations h
    have listed : Listed (recorded next revision operations) := h.listed.congr rfl rfl
    exact ⟨h.proposals.congr rfl rfl, listed, h.permits.congr rfl (grows_recorded _ _ _),
      h.outcomes.congr listed (grows_recorded _ _ _) rfl rfl rfl rfl⟩

theorem grows_step (s : Store) (entry : Entry) : Grows s (step scheme s entry) := by
  rcases step_cases scheme s entry with same | ⟨next, done, same⟩
  · rw [same]
    exact Grows.refl s
  · rw [same]
    exact (grows_of_effect done).trans (grows_recorded _ _ _)

theorem grows_run (before after : List Entry) :
    Grows (run scheme before) (run scheme (before ++ after)) := by
  induction after using reverseRecOn with
  | nil =>
    rw [append_nil]
    exact Grows.refl _
  | append_singleton after entry ih =>
    rw [← append_assoc, run_snoc]
    exact ih.trans (grows_step scheme _ entry)

end MeshSpan.Cleanup
