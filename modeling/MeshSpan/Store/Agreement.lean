import MeshSpan.Store.Driver

/- Core and store agree on what may be persisted.

   `Agrees` ties a waiting-for-nothing core to its store: same term, vote, epoch
   and plan, row for row the same log, and an applied position that the core has
   committed. `begun_accepted` is the step: a mutation that fits and can be stored
   passes every check, those of the plan tables included, and leaves a store that
   agrees with the core as it will be once acknowledged. `store_accepts_core` runs
   it over whole lifetimes. -/

namespace MeshSpan

open Ordered ConsensusCore List Option

/-! ## Rows and entries -/

structure LogRow.Holds (row : LogRow) (e : LogEntry) : Prop where
  index : row.logIndex.val = e.position.index
  term : row.term.val = e.position.term
  version : row.entryVersion = e.commandVersion
  operation : row.operationId = e.operationId
  command : row.command = e.command
  digest : row.payloadDigest = e.entryDigest

abbrev RowsHold (rows : List LogRow) (log : List LogEntry) : Prop := List.Forall₂ LogRow.Holds rows log

variable {e : LogEntry} {row : LogRow} {input : CoreInput}

theorem LogEntry.new_of_validate (h : e.validate = .ok ()) :
    LogEntry.new e.position e.operationId e.commandVersion e.command = .ok e := by
  have hdigest := digest_of_validate h
  obtain ⟨hchecks, h⟩ := guard_ok.mp h
  unfold LogEntry.new
  rw [if_neg]
  · rw [← hdigest]
  · simp only [not_or, not_not] at hchecks ⊢
    exact ⟨hchecks.1, hchecks.2.1, hchecks.2.2.1, hchecks.2.2.2.1, hchecks.2.2.2.2.1⟩

theorem LogEntry.index_pos_of_validate (h : e.validate = .ok ()) : 0 < e.position.index := by
  have hterm := term_pos_of_validate h
  obtain ⟨hchecks, h⟩ := guard_ok.mp h
  simp only [not_or, Bool.not_eq_false, LogPosition.isValid, decide_eq_true_eq] at hchecks
  omega

namespace ConsensusStore

theorem loadEntry_ok (h : row.Holds e) (hvalid : e.validate = .ok ()) : loadEntry row = .ok e := by
  have hterm := LogEntry.term_pos_of_validate hvalid
  have hindex := LogEntry.index_pos_of_validate hvalid
  have hnew := LogEntry.new_of_validate hvalid
  unfold loadEntry
  rw [positiveU64_ok (by rw [h.term]; omega), positiveU64_ok (by rw [h.index]; omega)]
  simp only [h.term, h.index, h.operation, h.version, h.command, hnew, h.digest, ne_eq,
    not_true_eq_false, if_false]

theorem loadEntry_holds (h : loadEntry row = .ok e) : row.Holds e ∧ e.validate = .ok () := by
  unfold loadEntry at h
  split at h
  · rename_i term index hterm hindex
    split at h
    · cases h
    rename_i e' hnew
    obtain ⟨hdigest, h⟩ := guard_ok.mp h
    cases h
    obtain ⟨hposition, hop, hversion, hcommand, hvalid⟩ := LogEntry.new_spec hnew
    have hval : ∀ {v : SqlInt} {n : Nat}, positiveU64 v = .ok n → v.val = n := by
      intro v n hv
      obtain ⟨-, hv⟩ := guard_ok.mp hv
      exact Except.ok.inj hv
    refine ⟨⟨?_, ?_, hversion.symm, hop.symm, hcommand.symm, not_not.mp hdigest⟩, hvalid⟩
    · rw [hposition]
      exact hval hindex
    · rw [hposition]
      exact hval hterm
  · cases h

theorem loadLog_ok : ∀ {rows : List LogRow} {log : List LogEntry}, RowsHold rows log →
    ValidEntries log → loadLog rows = .ok log
  | [], _, h, _ => by
    cases h
    rfl
  | row :: rows, _, h, hvalid => by
    cases h with
    | cons hrow hrows =>
      unfold loadLog
      rw [loadEntry_ok hrow (hvalid _ mem_cons_self),
        loadLog_ok hrows (fun e he => hvalid e (mem_cons_of_mem _ he))]

theorem loadLog_holds : ∀ {rows : List LogRow} {log : List LogEntry}, loadLog rows = .ok log →
    RowsHold rows log ∧ ValidEntries log
  | [], log, h => by
    cases h
    exact ⟨.nil, nofun⟩
  | row :: rows, log, h => by
    unfold loadLog at h
    split at h
    · cases h
    rename_i e he
    split at h
    · cases h
    rename_i es hes
    cases h
    obtain ⟨hrow, hvalid⟩ := loadEntry_holds he
    obtain ⟨hrows, hvalids⟩ := loadLog_holds hes
    exact ⟨.cons hrow hrows, forall_mem_cons.mpr ⟨hvalid, hvalids⟩⟩

variable {rows : List LogRow} {log : List LogEntry}

section

variable (h : RowsHold rows log)

include h

theorem getLast?_holds : (rows = [] ∧ log = []) ∨
      ∃ row e, rows.getLast? = some row ∧ log.getLast? = some e ∧ row.Holds e ∧ e ∈ log := by
  induction h with
  | nil => exact .inl ⟨rfl, rfl⟩
  | cons hrow hrows ih =>
    right
    rcases ih with ⟨rfl, rfl⟩ | ⟨row, e, hr, he, hh, hmem⟩
    · exact ⟨_, _, rfl, rfl, hrow, mem_cons_self⟩
    · exact ⟨row, e, by rw [getLast?_cons, hr]; rfl, by rw [getLast?_cons, he]; rfl, hh,
        mem_cons_of_mem _ hmem⟩

theorem readLastLogIndex_eq (hlog : Contiguous log) : readLastLogIndex rows = log.length := by
  rw [← hlog.lastIndexOf]
  unfold readLastLogIndex lastIndexOf
  rcases getLast?_holds h with ⟨rfl, rfl⟩ | ⟨row, e, hr, he, hh, -⟩
  · rfl
  · simp [hr, he, hh.index]

theorem length_le_i64Max (hlog : Contiguous log) : log.length ≤ i64Max := by
  rw [← readLastLogIndex_eq h hlog]
  unfold readLastLogIndex
  cases rows.getLast? with
  | none => exact Nat.zero_le _
  | some row => exact row.logIndex.le

theorem readLastLogTerm_eq (hvalid : ValidEntries log) : readLastLogTerm rows = .ok (lastTermFrom 0 log) := by
  unfold readLastLogTerm lastTermFrom
  rcases getLast?_holds h with ⟨rfl, rfl⟩ | ⟨row, e, hr, he, hh, hmem⟩
  · rfl
  · have := LogEntry.term_pos_of_validate (hvalid e hmem)
    simp only [hr, he, map_some, getD_some]
    rw [positiveU64_ok (by rw [hh.term]; omega), hh.term]

end

variable {log : List LogEntry} {rows : List LogRow} {term epoch : Nat} {durable : DurableQuorumPlan}

theorem row_of_entry (h : RowsHold rows log) :
    ∀ {i : Nat} {e : LogEntry}, log[i]? = some e → ∃ row, rows[i]? = some row ∧ row.Holds e := by
  induction h with
  | nil => intro i e he; simp at he
  | cons hrow hrows ih =>
    intro i e he
    cases i with
    | zero =>
      cases he
      exact ⟨_, rfl, hrow⟩
    | succ i => exact ih (by simpa using he)

theorem entry_of_row (h : RowsHold rows log) :
    ∀ {i : Nat} {row : LogRow}, rows[i]? = some row → ∃ e, log[i]? = some e ∧ row.Holds e := by
  induction h with
  | nil => intro i row he; simp at he
  | cons hrow hrows ih =>
    intro i row he
    cases i with
    | zero =>
      cases he
      exact ⟨_, rfl, hrow⟩
    | succ i => exact ih (by simpa using he)

theorem filter_holds (h : RowsHold rows log) (first : Nat) :
    RowsHold (rows.filter fun row => decide (row.logIndex.val < first))
      (log.filter fun e => decide (e.position.index < first)) := by
  induction h with
  | nil => exact .nil
  | cons hrow hrows ih =>
    rw [filter_cons, filter_cons, hrow.index]
    split
    · exact .cons hrow ih
    · exact ih

theorem insertEntries_ok : ∀ {entries : List LogEntry} {rows : List LogRow} {log : List LogEntry}
    {first previousTerm : Nat}, RowsHold rows log → Follows first entries →
    Ascends previousTerm entries → (∀ e ∈ entries, e.position.index ≤ i64Max ∧ e.position.term ≤ i64Max) →
    ∃ rows', insertEntries (first + 1) previousTerm rows entries = .ok rows' ∧
      RowsHold rows' (log ++ entries)
  | [], rows, log, first, _, h, _, _, _ => ⟨rows, rfl, by simpa using h⟩
  | e :: es, rows, log, first, previousTerm, h, hfollows, hascends, hfits => by
    obtain ⟨hindex, hterm⟩ := hfits e mem_cons_self
    have hhead := hfollows.head
    have hnext : checkedAdd (first + 1) 1 = some (first + 1 + 1) := by
      refine if_pos ?_
      rw [hhead] at hindex
      unfold i64Max at hindex
      unfold u64Max
      omega
    have hrow : LogRow.Holds { logIndex := ⟨e.position.index, hindex⟩, term := ⟨e.position.term, hterm⟩, entryVersion := e.commandVersion, operationId := e.operationId, command := e.command, payloadDigest := e.entryDigest } e := ⟨rfl, rfl, rfl, rfl, rfl, rfl⟩
    obtain ⟨rows', hrows', hheld⟩ := insertEntries_ok (rel_append h (.cons hrow .nil)) hfollows.tail
      hascends.2 fun x hx => hfits x (mem_cons_of_mem _ hx)
    refine ⟨rows', ?_, by simpa using hheld⟩
    unfold insertEntries
    rw [if_neg (by simp only [not_or, not_not, not_lt]; exact ⟨hhead, hascends.1⟩)]
    simp only [toI64_ok hindex, toI64_ok hterm, hnext]
    exact hrows'

end ConsensusStore

/-! ## Agreement -/

/-- The vote row is the core's term and vote under the epoch; no row stands for term zero. -/
def VoteHolds (core : ConsensusCore) (epoch : Nat) : Option VoteRow → Prop
  | none => core.currentTerm = 0
  | some row => row.currentTerm.val = core.currentTerm ∧ row.votedFor = core.votedFor ∧
      row.membershipEpoch.val = epoch

/-- Core and store have the same term, vote and log, with the vote row under `epoch`. -/
structure Durables (core : ConsensusCore) (store : ConsensusStore) (epoch : Nat) : Prop where
  inv : core.LocalInv
  ordered : core.OrderedLog
  vote : VoteHolds core epoch store.vote
  rows : RowsHold store.log core.log
  applied : store.appliedIndex.val ≤ core.commitIndex
  appliedTerm : store.appliedIndex.val ≠ 0 →
    ∃ e, core.log[store.appliedIndex.val - 1]? = some e ∧ e.position.term = store.appliedTerm.val

/-- Core and store also have the same active plan. -/
structure Agrees (core : ConsensusCore) (store : ConsensusStore) : Prop
    extends Durables core store core.activeEpoch where
  plan : store.loadPlan = .ok (some core.activePlan)
  recorded : store.PlansApplied

theorem ActiveQuorumPlan.epoch_ne_zero (plan : ActiveQuorumPlan) : plan.membershipEpoch ≠ 0 := by
  cases plan with
  | stable plan => exact plan.facts.epochPositive
  | joint plan =>
    show plan.membershipEpoch ≠ 0
    rw [plan.epoch_eq]
    exact plan.new.facts.epochPositive

namespace ConsensusCore

variable {core : ConsensusCore} {store : ConsensusStore} {m : DurableMutation}

theorem acknowledged_term (core : ConsensusCore) (m : DurableMutation) :
    (core.acknowledged m).currentTerm = core.termAfter m := acknowledged_currentTerm core m

theorem Fits.commit_le_kept (hinv : core.LocalInv) (hfits : core.Fits m) :
    core.commitIndex ≤ (core.keptLog m.truncateFrom).length := by
  cases ht : m.truncateFrom with
  | none => exact hinv.committed
  | some index =>
    obtain ⟨hlt, hle⟩ := hfits.truncate index ht
    simp only [keptLog, length_take]
    omega

theorem keptLog_initial (core : ConsensusCore) (truncateFrom : Option Nat) :
    core.keptLog truncateFrom <+: core.log := by
  cases truncateFrom with
  | none => exact prefix_rfl
  | some index => exact take_prefix _ _

theorem acknowledged_localInv (hinv : core.LocalInv) (hfits : core.Fits m) :
    (core.acknowledged m).LocalInv := by
  obtain ⟨hcommit, happlied, -⟩ := acknowledged_indices core m
  have hkept := hfits.commit_le_kept hinv
  refine ⟨?_, ?_, ?_, ?_⟩
  · rw [acknowledged_log]
    exact (keptLog_contiguous hinv.contiguous _).append hfits.follows
  · rw [hcommit, happlied]
    exact hinv.applied
  · rw [hcommit, acknowledged_log, length_append]
    omega
  · rw [acknowledged_log, length_append]
    exact hfits.bounded

theorem termAfter_ge (hfits : core.Fits m) : core.currentTerm ≤ core.termAfter m := by
  unfold termAfter
  cases hv : m.voteState with
  | none => exact le_rfl
  | some v => exact (hfits.vote v.1 v.2 hv).2.1

theorem acknowledged_ordered (hordered : core.OrderedLog) (hfits : core.Fits m)
    (hstores : core.Stores m) : (core.acknowledged m).OrderedLog := by
  have hsub : ∀ e ∈ core.keptLog m.truncateFrom, e ∈ core.log := fun e he =>
    (keptLog_initial core m.truncateFrom).subset he
  refine ⟨?_, hstores.ascends, ?_, ?_⟩
  · exact ValidEntries.append (fun e he => hordered.valid e (hsub e he)) hfits.valid
  · intro e he
    rw [acknowledged_term]
    rcases mem_append.mp he with h | h
    · exact (hordered.terms e (hsub e h)).trans (termAfter_ge hfits)
    · exact (hstores.entries e h).2.2
  · intro hzero
    rw [acknowledged_term] at hzero
    rw [acknowledged_votedFor]
    unfold termAfter at hzero
    cases hv : m.voteState with
    | none =>
      rw [hv] at hzero
      exact hordered.votes hzero
    | some v =>
      rw [hv] at hzero
      exact absurd hzero (hfits.vote v.1 v.2 hv).1

/-- The core's own log keeps its applied entry, whatever fits. -/
theorem acknowledged_applied (hinv : core.LocalInv) (hfits : core.Fits m) {index : Nat}
    (hle : index ≤ core.commitIndex) (hne : index ≠ 0) :
    (core.acknowledged m).log[index - 1]? = core.log[index - 1]? := by
  have hkept := hfits.commit_le_kept hinv
  rw [acknowledged_log, getElem?_append_left (by omega)]
  obtain ⟨rest, hrest⟩ := keptLog_initial core m.truncateFrom
  rw [← hrest, getElem?_append_left (by omega)]

end ConsensusCore

namespace ConsensusStore

variable {core : ConsensusCore} {store : ConsensusStore} {m : DurableMutation}

theorem validateEntriesAfter_ok : ∀ {entries : List LogEntry} {first : Nat} {previous : Option LogEntry},
    Follows first entries → ValidEntries entries →
    Ascends ((previous.map (·.position.term)).getD 0) entries →
    (∀ prior, previous = some prior → prior.position.index = first) →
    (∀ e ∈ entries, e.position.index ≤ i64Max) → validateEntriesAfter previous entries = .ok ()
  | [], _, _, _, _, _, _, _ => rfl
  | e :: es, first, previous, hfollows, hvalid, hascends, hprevious, hfits => by
    have hrest := @validateEntriesAfter_ok es (first + 1) (some e) hfollows.tail
      (fun x hx => hvalid x (mem_cons_of_mem _ hx)) hascends.2
      (fun prior hp => by cases hp; exact hfollows.head)
      (fun x hx => hfits x (mem_cons_of_mem _ hx))
    have hindex := hfits e mem_cons_self
    have hcheck : previous.any (fun prior => decide
        (e.position.index ≠ saturatingAdd prior.position.index 1 ∨
          e.position.term < prior.position.term)) = false := by
      cases previous with
      | none => rfl
      | some prior =>
        have hfirst := hprevious prior rfl
        have hhead := hfollows.head
        have hterm : prior.position.term ≤ e.position.term := hascends.1
        have hsat : saturatingAdd prior.position.index 1 = prior.position.index + 1 := by
          unfold saturatingAdd
          unfold i64Max at hindex
          unfold u64Max
          omega
        simp only [any_some, decide_eq_false_iff_not, hsat]
        omega
    unfold validateEntriesAfter
    rw [hvalid e mem_cons_self]
    simp only [hcheck, Bool.false_eq_true, if_false]
    exact hrest

theorem Stores.append_ascends (hstores : core.Stores m) :
    Ascends (lastTermFrom 0 (core.keptLog m.truncateFrom)) m.append := hstores.ascends.of_append.2

theorem Ascends.from_zero {entries : List LogEntry} (h : Ascends term entries) : Ascends 0 entries := by
  cases entries with
  | nil => trivial
  | cons e es => exact ⟨Nat.zero_le _, h.2⟩

section

variable (h : Durables core store core.activeEpoch)

include h

/-- What the store needs of the numbers of a mutation, given what it already holds. -/
theorem append_fits (hstores : core.Stores m) :
    ∀ e ∈ m.append, e.position.index ≤ i64Max ∧ e.position.term ≤ i64Max := by
  intro e he
  obtain ⟨hindex, hterm, -⟩ := hstores.entries e he
  refine ⟨hindex, hterm.elim id fun heq => ?_⟩
  have hvote := h.vote
  cases hrow : store.vote with
  | none =>
    rw [hrow] at hvote
    rw [heq, show core.currentTerm = 0 from hvote]
    exact Nat.zero_le _
  | some row =>
    rw [hrow] at hvote
    rw [heq, ← hvote.1]
    exact row.currentTerm.le

theorem validateMutationEntries_accepts (hfits : core.Fits m) (hstores : core.Stores m) :
    validateMutationEntries m = .ok () :=
  validateEntriesAfter_ok hfits.follows hfits.valid
    (Ascends.from_zero (Stores.append_ascends hstores)) nofun
    (fun e he => (append_fits h hstores e he).1)

omit h in
theorem wellShaped_accepts (hfits : core.Fits m) (hstores : core.Stores m) :
    wellShaped core.activeEpoch m = true := by
  have hepoch : core.activeEpoch ≠ 0 := core.activePlan.epoch_ne_zero
  have hphase := hfits.phase
  have hsomething := hstores.something
  cases hq : m.quorumPlan with
  | none =>
    rw [hq] at hphase
    simp only [map_none] at hphase
    simp only [wellShaped, hq, hphase]
    simp only [hphase, isSome_none, Bool.false_eq_true, or_false] at hsomething
    simp [hepoch]
    tauto
  | some plan =>
    rw [hq] at hphase
    simp only [map_some] at hphase
    simp [wellShaped, hq, hphase, hepoch]

omit h in
theorem verifyEpoch_accepts (hplan : store.loadPlan = .ok (some core.activePlan)) :
    store.verifyEpoch core.activeEpoch = .ok () := by
  unfold verifyEpoch
  rw [hplan]
  exact if_pos rfl

omit h in
theorem epoch_fits (hplan : store.loadPlan = .ok (some core.activePlan))
    (hstores : core.Stores m) : m.membershipEpoch.getD core.activeEpoch ≤ i64Max := by
  have hactive : core.activeEpoch ≤ i64Max := epoch_le_of_loadPlan hplan
  cases he : m.membershipEpoch with
  | none => exact hactive
  | some epoch =>
    rcases hstores.epoch epoch he with rfl | hle
    · exact hactive
    · exact hle

theorem checkVote_accepts (hfits : core.Fits m) (hstores : core.Stores m) :
    store.checkVote core.activeEpoch m = .ok () := by
  have hvote := h.vote
  unfold checkVote
  cases hrow : store.vote with
  | none =>
    rw [hrow] at hvote
    cases hv : m.voteState with
    | none => exact absurd hvote (hstores.known hv)
    | some v => rfl
  | some row =>
    rw [hrow] at hvote
    obtain ⟨hterm, hfor, hepoch⟩ := hvote
    have hkeeps : m.voteState.any (fun v => v.1 < row.currentTerm.val ∨
        (v.1 = row.currentTerm.val ∧ row.votedFor.isSome ∧ v.2 ≠ row.votedFor)) = false := by
      cases hv : m.voteState with
      | none => rfl
      | some v =>
        obtain ⟨-, hle, honce⟩ := hfits.vote v.1 v.2 hv
        simp only [any_some, decide_eq_false_iff_not, hterm, hfor, not_or, not_and]
        refine ⟨by omega, fun heq hsome => ?_⟩
        rw [honce heq] at hsome
        cases hsome
    simp only
    rw [positiveU64_ok (by rw [hepoch]; exact core.activePlan.epoch_ne_zero)]
    simp only
    rw [if_neg (not_not.mpr hepoch), if_neg (by rw [hkeeps]; exact Bool.false_ne_true)]

theorem persistVote_accepts (hplan : store.loadPlan = .ok (some core.activePlan))
    (hfits : core.Fits m) (hstores : core.Stores m) :
    ∃ row, store.persistVote core.activeEpoch m = .ok { store with vote := row } ∧
      VoteHolds (core.acknowledged m) (m.membershipEpoch.getD core.activeEpoch) row := by
  have htargetFits := epoch_fits hplan hstores
  have htarget : ¬ (m.membershipEpoch.getD core.activeEpoch ≠ core.activeEpoch ∧
      m.membershipEpoch.getD core.activeEpoch ≠ saturatingAdd core.activeEpoch 1) := by
    cases he : m.membershipEpoch with
    | none => simp
    | some epoch =>
      have := hfits.epoch epoch he
      simp only [getD_some]
      tauto
  have hterm := acknowledged_term core m
  have hfor := acknowledged_votedFor core m
  unfold persistVote
  rw [if_neg htarget, checkVote_accepts h hfits hstores]
  unfold writeVote
  cases hv : m.voteState with
  | some v =>
    obtain ⟨term, votedFor⟩ := v
    have hfitsTerm := hstores.vote term votedFor hv
    simp only [termAfter, hv, map_some, getD_some] at hterm hfor
    simp only [if_neg (hfits.vote term votedFor hv).1, toI64_ok hfitsTerm, toI64_ok htargetFits, bind,
      Except.bind, pure, Except.pure]
    exact ⟨_, rfl, hterm.symm, hfor.symm, rfl⟩
  | none =>
    have hvote := h.vote
    simp only [termAfter, hv, map_none, getD_none] at hterm hfor
    cases hrow : store.vote with
    | none =>
      rw [hrow] at hvote
      exact absurd hvote (hstores.known hv)
    | some row =>
      rw [hrow] at hvote
      obtain ⟨hterm', hfor', hepoch'⟩ := hvote
      cases he : m.membershipEpoch with
      | none =>
        refine ⟨some row, by simp [← hrow], ?_⟩
        exact ⟨hterm'.trans hterm.symm, hfor'.trans hfor.symm, hepoch'⟩
      | some epoch =>
        rw [he] at htargetFits
        simp only [isSome_some, if_true, toI64_ok htargetFits, bind, Except.bind, pure,
          Except.pure]
        exact ⟨_, rfl, hterm'.trans hterm.symm, hfor'.trans hfor.symm, rfl⟩

theorem truncate_accepts (hfits : core.Fits m) :
    ∃ kept, truncate store.log store.appliedIndex.val m.truncateFrom = .ok kept ∧
      RowsHold kept (core.keptLog m.truncateFrom) := by
  cases ht : m.truncateFrom with
  | none => exact ⟨store.log, rfl, h.rows⟩
  | some first =>
    obtain ⟨hlt, hle⟩ := hfits.truncate first ht
    have happlied := h.applied
    have hlen := length_le_i64Max h.rows h.inv.contiguous
    have hpresent : ¬ first > saturatingAdd (readLastLogIndex store.log) 1 := by
      rw [readLastLogIndex_eq h.rows h.inv.contiguous]
      unfold saturatingAdd
      have := h.inv.bounded
      omega
    refine ⟨store.log.filter fun row => decide (row.logIndex.val < first), ?_, ?_⟩
    · unfold truncate
      simp only
      rw [if_neg (by omega), if_neg hpresent, toI64_ok (hle.trans hlen)]
    · simp only [keptLog]
      rw [← h.inv.contiguous.filter_lt]
      exact filter_holds h.rows first

/-- The log rows pass, and the written ones hold the core's log after the mutation; no recorded plan
is lost. -/
theorem persistLog_accepts (hrecorded : store.PlansApplied) (hfits : core.Fits m)
    (hstores : core.Stores m) (row : Option VoteRow) :
    ∃ rows plans, persistLog { store with vote := row } m =
        .ok { store with vote := row, log := rows, plans } ∧
      RowsHold rows (core.acknowledged m).log ∧
      ∀ index record, plans.get? index = some record ↔ store.plans.get? index = some record := by
  obtain ⟨kept, hkept, hheld⟩ := truncate_accepts h hfits
  have hcontig := keptLog_contiguous h.inv.contiguous m.truncateFrom
  have hvalid : ValidEntries (core.keptLog m.truncateFrom) := fun e he =>
    h.ordered.valid e ((keptLog_initial core m.truncateFrom).subset he)
  obtain ⟨rows, hrows, hall⟩ := insertEntries_ok hheld hfits.follows (Stores.append_ascends hstores)
    (append_fits h hstores)
  have hnext : checkedAdd (readLastLogIndex kept) 1 =
      some ((core.keptLog m.truncateFrom).length + 1) := by
    rw [readLastLogIndex_eq hheld hcontig]
    have hlen := length_le_i64Max hheld hcontig
    refine if_pos ?_
    unfold i64Max at hlen
    unfold u64Max
    omega
  refine ⟨rows, m.truncateFrom.elim store.plans fun first => store.plans.retain fun index _ => index < first,
    ?_, hall, fun index record => ?_⟩
  · unfold persistLog
    simp only [bind, Except.bind, hkept, hnext, readLastLogTerm_eq hheld hvalid, hrows, pure, Except.pure]
  · -- plans are recorded at applied entries, and these are not truncated
    cases ht : m.truncateFrom with
    | none => rfl
    | some first =>
      have hfirst := (hfits.truncate first ht).1
      have happlied := h.applied
      simp only [elim_some, OrdMap.get?_retain_some, decide_eq_true_eq, and_iff_left_iff_imp]
      intro hindex
      have := hrecorded index record hindex
      omega

end

/-- A mutation that fits and can be stored passes every check, and the written store holds what the
core will hold once it is acknowledged, under the plan it had. -/
theorem persistOwn_accepts (h : Agrees core store) (hfits : core.Fits m) (hstores : core.Stores m) :
    ∃ written, store.persistOwn core.activeEpoch m = .ok written ∧
      Durables (core.acknowledged m) written (m.membershipEpoch.getD core.activeEpoch) ∧
      written.loadPlan = .ok (some core.activePlan) ∧ written.PlansApplied ∧
      written.appliedIndex = store.appliedIndex ∧ written.membership = store.membership := by
  have hd := h.toDurables
  obtain ⟨row, hvote, hvoteHolds⟩ := persistVote_accepts hd h.plan hfits hstores
  obtain ⟨rows, plans, hlog, hrows, hplans⟩ := persistLog_accepts hd h.recorded hfits hstores row
  obtain ⟨hcommit, -, -⟩ := acknowledged_indices core m
  refine ⟨{ store with vote := row, log := rows, plans }, ?_, ?_, ?_, ?_, rfl, rfl⟩
  · unfold persistOwn
    rw [wellShaped_accepts hfits hstores, validateMutationEntries_accepts hd hfits hstores,
      verifyEpoch_accepts h.plan]
    simp only [Bool.true_eq_false, if_false, hvote, hlog]
  · refine ⟨acknowledged_localInv hd.inv hfits, acknowledged_ordered hd.ordered hfits hstores,
      hvoteHolds, hrows, ?_, fun hne => ?_⟩
    · rw [hcommit]
      exact hd.applied
    · rw [acknowledged_applied hd.inv hfits hd.applied hne]
      exact hd.appliedTerm hne
  · refine loadPlan_kept h.recorded rfl (fun old hold hle => ?_) (fun index record => (hplans index record).mpr)
      h.plan
    -- an applied row holds an entry that the acknowledged core still has
    obtain ⟨i, hi⟩ := mem_iff_getElem?.mp hold
    obtain ⟨e, he, hholds⟩ := entry_of_row hd.rows hi
    have hindex := hd.inv.contiguous i e he
    have hcommitted : i + 1 ≤ core.commitIndex := by
      have := hholds.index
      have := hd.applied
      omega
    have hkept := acknowledged_applied hd.inv hfits hcommitted (by omega)
    obtain ⟨kept, hk, hkholds⟩ := row_of_entry hrows (hkept.trans he)
    exact ⟨kept, mem_of_getElem? hk, hkholds.index.trans hholds.index.symm,
      hkholds.term.trans hholds.term.symm⟩
  · exact fun index record hindex => h.recorded index record ((hplans index record).mp hindex)

/-- An admissible plan whose entry the core has committed is taken, and core and store still agree. -/
theorem persistPlan_accepts {current : ActiveQuorumPlan} (h : Durables core store epoch)
    (hplan : store.loadPlan = .ok (some current)) (hrecorded : store.PlansApplied)
    (hepoch : durable.activePlan.membershipEpoch ≤ i64Max)
    (hentry : core.entry durable.activatedPosition.index = some e)
    (hterm : e.position.term = durable.activatedPosition.term)
    (hcommitted : durable.activatedPosition.index ≤ core.commitIndex)
    (hadmits : Admissible current store.appliedIndex.val store.membership durable) :
    ∃ written, store.persistPlan durable = .ok written ∧ Durables core written epoch ∧
      written.loadPlan = .ok (some durable.activePlan) ∧ written.PlansApplied := by
  obtain ⟨hpos, -⟩ := entry_le h.inv.contiguous hentry
  rw [entry_of_contiguous h.inv.contiguous hpos] at hentry
  obtain ⟨row, hrow, hholds⟩ := row_of_entry h.rows hentry
  have hindex : e.position.index = durable.activatedPosition.index := by
    rw [h.inv.contiguous _ e hentry]
    omega
  have hvalid : durable.activatedPosition.isValid = true := by
    have := LogEntry.term_pos_of_validate (h.ordered.valid e (mem_of_getElem? hentry))
    simp only [LogPosition.isValid, decide_eq_true_eq]
    omega
  obtain ⟨written, hwritten, hinstalls⟩ := persistPlan_ok hplan hrecorded hvalid
    ⟨row, mem_of_getElem? hrow, hholds.index.trans hindex, hholds.term.trans hterm⟩ hepoch hadmits
  refine ⟨written, hwritten, ⟨h.inv, h.ordered, ?_, ?_, ?_, fun _ => ⟨e, ?_, ?_⟩⟩, hinstalls.loads,
    hinstalls.applied⟩
  · rw [hinstalls.vote]
    exact h.vote
  · rw [hinstalls.log]
    exact h.rows
  · rw [hinstalls.index]
    exact hcommitted
  · rw [hinstalls.index]
    exact hentry
  · rw [hinstalls.term]
    exact hterm

end ConsensusStore

/-! ## Loading back -/

section Load

variable {core : ConsensusCore} {store : ConsensusStore}

open ConsensusStore

theorem validateRecoveredFrom_ok {currentTerm : Nat} : ∀ {log : List LogEntry} {first previousTerm : Nat},
    Follows first log → Ascends previousTerm log → (∀ e ∈ log, e.position.term ≤ currentTerm) →
    first + log.length < u64Max →
    validateRecoveredFrom currentTerm (first + 1) previousTerm log = .ok (first + log.length + 1)
  | [], _, _, _, _, _, _ => rfl
  | e :: es, first, previousTerm, hfollows, hascends, hterms, hbound => by
    simp only [length_cons] at hbound ⊢
    have hnext : checkedAdd (first + 1) 1 = some (first + 1 + 1) := if_pos (by omega)
    have hrest := validateRecoveredFrom_ok hfollows.tail hascends.2
      (fun x hx => hterms x (mem_cons_of_mem _ hx)) (by omega)
    have hcheck : ¬ (e.position.index ≠ first + 1 ∨ e.position.term < previousTerm ∨
        e.position.term > currentTerm) := by
      have h1 := hfollows.head
      have h2 := hascends.1
      have h3 := hterms e mem_cons_self
      omega
    unfold validateRecoveredFrom
    rw [if_neg hcheck, hnext]
    simp only
    rw [hrest]
    congr 1
    omega

theorem validateRecoveredFrom_spec {currentTerm : Nat} : ∀ {log : List LogEntry}
    {expected previousTerm last : Nat},
    validateRecoveredFrom currentTerm expected previousTerm log = .ok last →
    Ascends previousTerm log ∧ ∀ e ∈ log, e.position.term ≤ currentTerm
  | [], _, _, _, _ => ⟨trivial, nofun⟩
  | e :: es, expected, previousTerm, last, h => by
    obtain ⟨hchecks, h⟩ := guard_ok.mp h
    split at h
    · cases h
    obtain ⟨hascends, hterms⟩ := validateRecoveredFrom_spec h
    exact ⟨⟨by omega, hascends⟩, forall_mem_cons.mpr ⟨by omega, hterms⟩⟩

/-- What the store loads back: the core's term, vote and log, and its own applied index. -/
def recovered (core : ConsensusCore) (store : ConsensusStore) : DurableCoreState :=
  { currentTerm := core.currentTerm, votedFor := core.votedFor, log := core.log
    appliedIndex := store.appliedIndex.val }

theorem Agrees.loadVote (h : Agrees core store) :
    store.loadVote core.activeEpoch = .ok (core.currentTerm, core.votedFor) := by
  have hvote := h.vote
  unfold ConsensusStore.loadVote
  cases hrow : store.vote with
  | none =>
    rw [hrow] at hvote
    have hzero : core.currentTerm = 0 := hvote
    rw [hzero, h.ordered.votes hzero]
  | some row =>
    rw [hrow] at hvote
    obtain ⟨hterm, hfor, hepoch⟩ := hvote
    have hcast : ¬ (row.currentTerm.val = 0 ∧ row.votedFor.isSome = true) := by
      rintro ⟨hzero, hsome⟩
      rw [hfor, h.ordered.votes (by omega)] at hsome
      cases hsome
    simp only
    rw [positiveU64_ok (by rw [hepoch]; exact core.activePlan.epoch_ne_zero)]
    simp only
    rw [if_neg (not_not.mpr hepoch), if_neg hcast, hterm, hfor]

theorem Agrees.appliedPresent (h : Agrees core store) : store.appliedPresent core.log = true := by
  unfold ConsensusStore.appliedPresent
  by_cases hzero : store.appliedIndex.val = 0
  · simp [hzero]
  · obtain ⟨e, he, hterm⟩ := h.appliedTerm hzero
    simp [he, hterm]

/-- A store that agrees with a core loads exactly that core's durable state. -/
theorem Agrees.loadState (h : Agrees core store) :
    store.loadState core.activeEpoch = .ok (recovered core store) := by
  have hlen := length_le_i64Max h.rows h.inv.contiguous
  have hbound : core.log.length < u64Max := by
    unfold i64Max at hlen
    unfold u64Max
    omega
  have hfrom := @validateRecoveredFrom_ok core.currentTerm core.log 0 0
    (fun i e he => by rw [h.inv.contiguous i e he]; omega) h.ordered.ascends h.ordered.terms (by omega)
  have hrecovered : validateRecoveredState (recovered core store) = .ok () := by
    have happlied := h.applied
    have hcommitted := h.inv.committed
    unfold validateRecoveredState recovered
    simp only [hfrom]
    rw [if_neg (by omega)]
  have hterm : ¬ (core.currentTerm = 0 ∧ core.log ≠ []) := by
    rintro ⟨hzero, hne⟩
    obtain ⟨e, he⟩ := exists_mem_of_ne_nil _ hne
    have := LogEntry.term_pos_of_validate (h.ordered.valid e he)
    have := h.ordered.terms e he
    omega
  have hepoch : core.activeEpoch ≠ 0 := core.activePlan.epoch_ne_zero
  unfold ConsensusStore.loadState
  rw [if_neg hepoch, verifyEpoch_accepts h.plan]
  simp only [h.loadVote, loadLog_ok h.rows h.ordered.valid]
  rw [if_neg hterm, if_neg (by rw [h.appliedPresent]; decide)]
  simp only [recovered] at hrecovered
  rw [hrecovered]
  rfl

variable {epoch : Nat}

theorem loadVote_spec {votedFor : Option NodeId} (h : store.loadVote epoch = .ok (term, votedFor)) :
    (term = 0 → votedFor = none) ∧
      ∀ core : ConsensusCore, core.currentTerm = term → core.votedFor = votedFor →
        VoteHolds core epoch store.vote := by
  unfold ConsensusStore.loadVote at h
  split at h
  · rename_i hrow
    cases h
    rw [hrow]
    exact ⟨fun _ => rfl, fun core hterm _ => hterm⟩
  · rename_i row hrow
    split at h
    · cases h
    rename_i stored hstored
    obtain ⟨hsame, h⟩ := guard_ok.mp h
    obtain ⟨hcast, h⟩ := guard_ok.mp h
    cases h
    have hepoch : row.membershipEpoch.val = epoch := by
      obtain ⟨-, hstored⟩ := guard_ok.mp hstored
      rw [Except.ok.inj hstored]
      exact not_not.mp hsame
    rw [hrow]
    refine ⟨fun hzero => ?_, fun core hterm hfor => ⟨hterm.symm, hfor.symm, hepoch⟩⟩
    cases hvoted : row.votedFor with
    | none => rfl
    | some node => exact absurd ⟨hzero, by rw [hvoted]; rfl⟩ hcast

theorem loadState_spec {durable : DurableCoreState} (h : store.loadState epoch = .ok durable) :
    store.verifyEpoch epoch = .ok () ∧
      store.loadVote epoch = .ok (durable.currentTerm, durable.votedFor) ∧
      loadLog store.log = .ok durable.log ∧ store.appliedPresent durable.log = true ∧
      validateRecoveredState durable = .ok () ∧ durable.appliedIndex = store.appliedIndex.val := by
  obtain ⟨-, h⟩ := guard_ok.mp h
  split at h
  · cases h
  rename_i hverify
  split at h
  · cases h
  rename_i currentTerm votedFor hvote
  split at h
  · cases h
  rename_i log hrows
  obtain ⟨-, h⟩ := guard_ok.mp h
  obtain ⟨hpresent, h⟩ := guard_ok.mp h
  simp only at h
  split at h
  · cases h
  · rename_i hrecovered
    cases h
    exact ⟨hverify, hvote, hrows, by simpa using hpresent, hrecovered, rfl⟩

/-- A core restored from what a store loads agrees with the store. -/
theorem agrees_of_restore {config : CoreConfig} {durable : DurableCoreState} {plan : ActiveQuorumPlan}
    (hload : store.loadState epoch = .ok durable) (hplan : store.loadPlan = .ok (some plan))
    (hrecorded : store.PlansApplied) (hrestore : restoreActive config durable plan = .ok core) :
    Agrees core store := by
  obtain ⟨hinv, hcommit⟩ := restoreActive_localInv hrestore
  obtain ⟨history, -, -, hrestored⟩ := restoreActive_eq hrestore
  have hterm : core.currentTerm = durable.currentTerm := by rw [hrestored]
  have hfor : core.votedFor = durable.votedFor := by rw [hrestored]
  have hlog : core.log = durable.log := by rw [hrestored]
  have hactive : core.activePlan = plan := by rw [hrestored]
  obtain ⟨hverify, hvote, hrows, hpresent, hrecovered, happlied⟩ := loadState_spec hload
  obtain ⟨hvotes, hvoteHolds⟩ := loadVote_spec hvote
  obtain ⟨hheld, hvalid⟩ := loadLog_holds hrows
  have hepoch : epoch = core.activeEpoch := by
    unfold verifyEpoch at hverify
    rw [hplan] at hverify
    obtain ⟨hsame, -⟩ := admit_ok.mp hverify
    rw [activeEpoch, hactive, ← hsame]
  have hordered : Ascends 0 durable.log ∧ ∀ e ∈ durable.log, e.position.term ≤ durable.currentTerm := by
    unfold validateRecoveredState at hrecovered
    split at hrecovered
    · cases hrecovered
    · rename_i hfrom
      exact validateRecoveredFrom_spec hfrom
  rw [← hlog, ← hterm] at hordered
  rw [← hterm, ← hfor] at hvotes
  rw [← hlog] at hheld hvalid hpresent
  refine ⟨⟨hinv, ⟨hvalid, hordered.1, hordered.2, hvotes⟩, hepoch ▸ hvoteHolds core hterm hfor, hheld,
    by rw [hcommit, happlied], fun hne => ?_⟩, hactive ▸ hplan, hrecorded⟩
  unfold ConsensusStore.appliedPresent at hpresent
  simp only [hne, decide_false, Bool.false_or] at hpresent
  cases he : core.log[store.appliedIndex.val - 1]? with
  | none => simp [he] at hpresent
  | some e => exact ⟨e, rfl, by simpa [he] using hpresent⟩

end Load

/-! ## Driver runs -/

section Runs

variable {core core' : ConsensusCore} {store : ConsensusStore} {m : DurableMutation}
  {input : CoreInput} {action : AfterPersistence}

/-- Volatile fields do not matter to the store, as long as the commit index does not fall. -/
theorem Durables.of_volatile (h : Durables core store epoch) (hv : Volatile core core')
    (hinv : core'.LocalInv) (hcommit : core.commitIndex ≤ core'.commitIndex) :
    Durables core' store epoch := by
  have hterm : core'.currentTerm = core.currentTerm := by rw [hv]
  have hfor : core'.votedFor = core.votedFor := by rw [hv]
  have hlog : core'.log = core.log := by rw [hv]
  refine ⟨hinv, ⟨hlog ▸ h.ordered.valid, hlog ▸ h.ordered.ascends, ?_, ?_⟩, ?_, hlog ▸ h.rows,
    h.applied.trans hcommit, ?_⟩
  · rw [hlog, hterm]
    exact h.ordered.terms
  · rw [hterm, hfor]
    exact h.ordered.votes
  · have hvote := h.vote
    cases hrow : store.vote with
    | none =>
      rw [hrow] at hvote
      exact hterm.trans hvote
    | some row =>
      rw [hrow] at hvote
      exact ⟨hvote.1.trans hterm.symm, hvote.2.1.trans hfor.symm, hvote.2.2⟩
  · rw [hlog]
    exact h.appliedTerm

theorem Agrees.of_volatile (h : Agrees core store) (hv : Volatile core core') (hinv : core'.LocalInv)
    (hcommit : core.commitIndex ≤ core'.commitIndex) : Agrees core' store := by
  have hactive : core'.activePlan = core.activePlan := by rw [hv]
  refine ⟨?_, hactive ▸ h.plan, h.recorded⟩
  rw [activeEpoch, hactive]
  exact h.toDurables.of_volatile hv hinv hcommit

/-- A plan is activated where its input says, at an applied entry, by a mutation that changes nothing
else. -/
theorem ConsensusCore.Begins.plan_position (h : core.Begins input m action)
    (hq : m.quorumPlan = some durable) : input.activates = some durable ∧
      (core.acknowledged m).log = core.log ∧ ∃ e, core.entry durable.activatedPosition.index = some e ∧
        e.position.term = durable.activatedPosition.term ∧
        durable.activatedPosition.index ≤ core.appliedIndex := by
  cases h with
  | activateJoint hactive hdigest hepoch hinc hpres hposition =>
    cases hq
    exact ⟨rfl, append_nil _, validAppliedTransitionPosition_spec hposition⟩
  | activateStable hactive hdigest hepoch hinc hpres hposition =>
    cases hq
    exact ⟨rfl, append_nil _, validAppliedTransitionPosition_spec hposition⟩
  | _ => cases hq

/-- An acknowledged core has left its commit index and everything below it alone. -/
theorem awaiting_keeps (hinv : core.LocalInv) (m : DurableMutation) (action : AfterPersistence)
    (id : Nat) : let after := ((core.awaiting m action).step (.persisted id)).1
    after.LocalInv ∧ core.commitIndex ≤ after.commitIndex := by
  have hwait : (core.awaiting m action).LocalInv :=
    { hinv with }
  have hk := (step_advances hwait (.persisted id)).1
  exact ⟨hk.inv, hk.commit⟩

/-- The store takes a mutation the core begins and again agrees with the core that has acknowledged
it. -/
theorem begun_accepted (h : Agrees core store) (hpending : core.pending = none)
    (hbegins : core.Begins input m action) (hstores : core.Stores m)
    (hadmits : ∀ durable, input.activates = some durable →
      ConsensusStore.Admissible core.activePlan store.appliedIndex.val store.membership durable) :
    ∃ written, store.persistMutation core.activeEpoch m = .ok written ∧
      let result := (core.awaiting m action).step (.persisted core.nextPersistenceId)
      Agrees result.1 written ∧ result.1.pending = none ∧ NoPersist (effectsOf result.2) := by
  have hfits := hbegins.fits h.inv h.ordered.valid
  obtain ⟨hinv', hcommit'⟩ := awaiting_keeps h.inv m action core.nextPersistenceId
  have hstep := persisted_step hpending h.inv hfits action
  obtain ⟨entered, hentered, hlight⟩ :=
    finishAction_light hbegins (core.acknowledged m) core.nextPersistenceId
  rw [← hstep] at hlight
  obtain ⟨own, hown, hdurables, hplan, hrecorded, hindex, hmembership⟩ :=
    ConsensusStore.persistOwn_accepts h hfits hstores
  obtain ⟨hcommit, -, hactive⟩ := acknowledged_indices core m
  have hnone : entered.pending = none := by
    rw [← hpending, ← acknowledged_pending core m]
    cases hentered <;> rfl
  unfold ConsensusStore.persistMutation
  rw [hown]
  cases hentered with
  | same hq =>
    have hphase := hfits.phase
    rw [hq] at hphase
    simp only [map_none] at hphase
    rw [hphase] at hdurables
    refine ⟨own, by simp only [hq], ?_, hlight.1.pending.trans hnone, hlight.2⟩
    have hagrees : Agrees (core.acknowledged m) own := by
      refine ⟨?_, by rw [hactive]; exact hplan, hrecorded⟩
      rw [activeEpoch, hactive]
      exact hdurables
    exact hagrees.of_volatile hlight.1 hinv' (hcommit.le.trans hcommit')
  | @plan durable hq incarnations =>
    have hphase := hfits.phase
    rw [hq] at hphase
    simp only [map_some] at hphase
    have hepochFits := ConsensusStore.epoch_fits h.plan hstores
    rw [hphase, getD_some] at hdurables hepochFits
    obtain ⟨hinput, hlog, e, he, hterm, happlied⟩ := hbegins.plan_position hq
    have hentry : (core.acknowledged m).entry durable.activatedPosition.index = some e := by
      unfold entry at he ⊢
      rw [hlog]
      exact he
    obtain ⟨written, hwritten, hdurables', hloads, hrecorded'⟩ :=
      ConsensusStore.persistPlan_accepts hdurables hplan hrecorded hepochFits hentry hterm
        (by rw [hcommit]; exact happlied.trans h.inv.applied)
        (by rw [hindex, hmembership]; exact hadmits durable hinput)
    refine ⟨written, by simp only [hq]; exact hwritten, ?_, hlight.1.pending.trans hnone, hlight.2⟩
    have hagrees : Agrees ((core.acknowledged m).enterPlan durable.activePlan incarnations
        durable.activatedPosition) written := by
      refine ⟨?_, hloads, hrecorded'⟩
      obtain ⟨hinv, hordered, hvote, hrows, happ, happTerm⟩ := hdurables'
      exact ⟨{ hinv with }, { hordered with }, hvote, hrows, happ, happTerm⟩
    exact hagrees.of_volatile hlight.1 hinv' (hcommit.le.trans hcommit')

end Runs

namespace PartitionConsensusDriver

variable {d : PartitionConsensusDriver}

theorem process_noPersist (d : PartitionConsensusDriver) :
    ∀ {effects : List CoreEffect}, NoPersist effects → process d effects = (d, .ok effects)
  | [], _ => by rw [process]
  | effect :: rest, h => by
    have hrest := process_noPersist d fun e he => h e (mem_cons_of_mem _ he)
    have hsafe := h effect mem_cons_self
    cases effect with
    | persist id mutation => cases hsafe
    | _ => simp only [process, hrest]

variable {base : ConsensusCore} {m : DurableMutation} {action : AfterPersistence}
  {store : ConsensusStore} {blocked : Option BlockedPersistence}

theorem process_stored {written : ConsensusStore}
    (hstored : store.persistMutation base.activeEpoch m = .ok written)
    (hsafe : NoPersist (effectsOf
      ((base.awaiting m action).step (.persisted base.nextPersistenceId)).2)) :
    (process { core := base.awaiting m action, store, blocked } [.persist base.nextPersistenceId m]).1 =
      { core := ((base.awaiting m action).step (.persisted base.nextPersistenceId)).1
        store := written, blocked } := by
  rw [process]
  simp only [show (base.awaiting m action).activeEpoch = base.activeEpoch from rfl, hstored]
  split
  · rename_i core err heq
    rw [heq]
  · rename_i core effects heq
    simp only [heq, effectsOf] at hsafe ⊢
    rw [append_nil, process_noPersist _ hsafe]

theorem process_refused {err : ConsensusStoreError}
    (hrefused : store.persistMutation base.activeEpoch m = .error err) :
    (process { core := base.awaiting m action, store, blocked } [.persist base.nextPersistenceId m]).1 =
      { core := base.awaiting m action, store, blocked := some
          { id := base.nextPersistenceId, membershipEpoch := base.activeEpoch, mutation := m } } := by
  rw [process]
  simp only [show (base.awaiting m action).activeEpoch = base.activeEpoch from rfl, hrefused]

/-- The driver waits for nothing and agrees with its store. -/
structure Sound (d : PartitionConsensusDriver) : Prop where
  unblocked : d.blocked = none
  idle : d.core.pending = none
  agrees : Agrees d.core d.store

theorem step_sound (h : d.Sound) (hs : d.Storable input) : (d.step input).1.Sound := by
  obtain ⟨hblocked, hpending, hagrees⟩ := h
  unfold step
  rw [if_neg (by rw [hblocked]; decide)]
  have hk := (step_advances hagrees.inv input).1
  rcases step_persists hpending input with ⟨hvolatile, hsafe⟩ | ⟨m, action, hbegins, hwait⟩
  · have hagrees' := hagrees.of_volatile hvolatile hk.inv hk.commit
    have hpending' := hvolatile.pending.trans hpending
    split
    · rename_i core err heq
      rw [heq] at hagrees' hpending'
      exact ⟨hblocked, hpending', hagrees'⟩
    · rename_i core effects heq
      simp only [heq, effectsOf] at hagrees' hpending' hsafe
      rw [process_noPersist _ hsafe]
      exact ⟨hblocked, hpending', hagrees'⟩
  · obtain ⟨written, hwritten, hagrees', hnone, hsafe⟩ := begun_accepted hagrees hpending hbegins
      (hbegins.stores hagrees.inv hagrees.ordered hs.1) hs.2
    rw [hwait]
    simp only
    rw [process_stored hwritten hsafe]
    exact ⟨hblocked, hnone, hagrees'⟩

/-- Applying a committed entry moves the applied position to an entry the core has committed. -/
theorem Agrees.apply {core : ConsensusCore} (h : Agrees core store)
    (hrow : store.log[store.appliedIndex.val]? = some row)
    (hcommitted : row.logIndex.val ≤ core.commitIndex) (membership : MembershipTables) :
    Agrees core { store with appliedIndex := row.logIndex, appliedTerm := row.term, membership } := by
  obtain ⟨e, he, hholds⟩ := ConsensusStore.entry_of_row h.rows hrow
  have hindex : row.logIndex.val = store.appliedIndex.val + 1 := by
    rw [hholds.index, h.inv.contiguous _ e he]
  refine ⟨⟨h.inv, h.ordered, h.vote, h.rows, hcommitted, fun _ => ⟨e, ?_, hholds.term.symm⟩⟩, h.plan,
    fun index record hrecord => ?_⟩
  · rw [show row.logIndex.val - 1 = store.appliedIndex.val by omega]
    exact he
  · have := h.recorded index record hrecord
    show index ≤ row.logIndex.val
    omega

theorem applyNext_sound (h : d.Sound) (membership : MembershipTables) : (d.applyNext membership).Sound := by
  unfold applyNext
  split
  · exact h
  rename_i row hrow
  split
  · rename_i hle
    exact ⟨h.unblocked, h.idle, Agrees.apply h.agrees hrow hle membership⟩
  · exact h

/-- Every input that reaches the driver over a run can be stored. -/
def StorableRun (d : PartitionConsensusDriver) : List DriverAction → Prop
  | [] => True
  | a :: as => (∀ input, a = .step input → d.Storable input) ∧ (d.act a).StorableRun as

theorem act_sound (h : d.Sound) {a : DriverAction} (hs : ∀ input, a = .step input → d.Storable input) :
    (d.act a).Sound := by
  cases a with
  | step input => exact step_sound h (hs input rfl)
  | retryPersistence =>
    show d.retryPersistence.1.Sound
    unfold retryPersistence
    rw [h.unblocked]
    exact h
  | applyNext membership => exact applyNext_sound h membership

theorem run_sound : ∀ {actions : List DriverAction} {d : PartitionConsensusDriver}, d.Sound →
    d.StorableRun actions → (d.run actions).Sound
  | [], _, h, _ => h
  | a :: as, d, h, hs => by
    show ((d.act a).run as).Sound
    exact run_sound (act_sound h hs.1) hs.2

theorem StorableRun.of_append : ∀ {before after : List DriverAction} {d : PartitionConsensusDriver},
    d.StorableRun (before ++ after) → d.StorableRun before
  | [], _, _, _ => trivial
  | _ :: _, _, _, h => ⟨h.1, StorableRun.of_append h.2⟩

/-- From a core restored out of its store, over any inputs that can be stored: the store accepts every
mutation the core asks for, the driver is never blocked, and the store always loads back the core's
term, vote and log. -/
theorem store_accepts_core {config : CoreConfig} {durable : DurableCoreState} {plan : ActiveQuorumPlan}
    {epoch : Nat} {core : ConsensusCore} {store : ConsensusStore}
    (hload : store.loadState epoch = .ok durable) (hplan : store.loadPlan = .ok (some plan))
    (hrecorded : store.PlansApplied) (hrestore : restoreActive config durable plan = .ok core)
    (actions : List DriverAction) (hs : StorableRun { core, store, blocked := none } actions) :
    ∀ before after, actions = before ++ after →
      let d := run { core, store, blocked := none } before
      (∀ input, d.Storable input → ∀ id m, .persist id m ∈ effectsOf (d.core.step input).2 →
        ∃ written, d.store.persistMutation d.core.activeEpoch m = .ok written) ∧
      d.blocked = none ∧
      d.store.loadState d.core.activeEpoch = .ok (recovered d.core d.store) := by
  intro before after hsplit
  obtain ⟨history, -, -, hrestored⟩ := restoreActive_eq hrestore
  have hpending : core.pending = none := by rw [hrestored]
  have hstart : Sound { core, store, blocked := none } :=
    ⟨rfl, hpending, agrees_of_restore hload hplan hrecorded hrestore⟩
  obtain ⟨hblocked, hpending, hagrees⟩ := run_sound hstart (StorableRun.of_append (hsplit ▸ hs))
  refine ⟨fun input hinput id m hmem => ?_, hblocked, hagrees.loadState⟩
  rcases step_persists hpending input with ⟨-, hsafe⟩ | ⟨m', action, hbegins, hwait⟩
  · cases hsafe _ hmem
  rw [hwait] at hmem
  cases mem_singleton.mp hmem
  obtain ⟨written, hwritten, -⟩ := begun_accepted hagrees hpending hbegins
    (hbegins.stores hagrees.inv hagrees.ordered hinput.1) hinput.2
  exact ⟨written, hwritten⟩

/-! ## Inputs the store can never take

Node 2 of a two-voter partition, on an empty store.  A peer sends an append whose second entry has
a lower term than its first: the core takes it, the store never will.  So with a vote request whose
term does not fit the store's column. -/

namespace Unstorable

def spec : QuorumPlanSpec :=
  { planId := 12, formatVersion := 1, membershipEpoch := 1
    voters := OrdSet.ofList [1, 2], learners := OrdSet.empty
    eligibleLeaders := OrdSet.ofList [1, 2]
    election := .all [.voter 1, .voter 2], commit := .voter 1, read := .voter 1 }

def plan : CompiledQuorumPlan := (compilePlan spec).toOption.get (by decide +kernel)

def config : CoreConfig :=
  { localNodeId := 2, localIncarnation := 1, plan
    memberIncarnations := .firstTwo }

def emptyStore : ConsensusStore :=
  { vote := none, log := [], appliedIndex := .zero, appliedTerm := .zero
    activePlan := some ⟨.stable plan, ⟨1, one_le_i64Max⟩, plan.proofDigest, .zero, .zero⟩
    plans := OrdMap.empty, membership := ⟨none, OrdMap.empty, OrdMap.empty⟩ }

def emptyState : DurableCoreState :=
  { currentTerm := 0, votedFor := none, log := [], appliedIndex := 0 }

def started : ConsensusCore :=
  (restoreActive config emptyState (.stable plan)).toOption.get (by decide +kernel)

theorem restoreActive_started : restoreActive config emptyState (.stable plan) = .ok started := by
  decide +kernel

def entry (term index : Nat) : LogEntry :=
  { position := ⟨term, index⟩, operationId := 31, commandVersion := 1, command := [9]
    commandDigest := .command 1 [9] }

/-- Terms 2 then 1 at indices 1 and 2. -/
def fallingTerms : AppendRequest :=
  { probeId := 1, term := 2, leader := 1, leaderIncarnation := 1, previous := .genesis
    previousDigest := zeroDigest, entries := [entry 2 1, entry 1 2], leaderCommitIndex := 0
    readBarrierId := none, membershipEpoch := 1, planDigest := plan.proofDigest }

def hugeTerm : VoteRequest :=
  { term := 2 ^ 63, candidate := 1, candidateIncarnation := 1, lastLog := .genesis
    membershipEpoch := 1, planDigest := plan.proofDigest }

/-- The driver node 2 is left with when the store refuses a mutation. -/
def stuck (m : DurableMutation) (action : AfterPersistence) : PartitionConsensusDriver :=
  { core := started.awaiting m action, store := emptyStore
    blocked := some { id := started.nextPersistenceId, membershipEpoch := 1, mutation := m } }

theorem step_stuck {m : DurableMutation} {action : AfterPersistence} (hstep : started.step input =
      (started.awaiting m action, .ok [.persist started.nextPersistenceId m]))
    (hrefused : emptyStore.persistMutation 1 m = .error .invalidMutation) :
    (step { core := started, store := emptyStore, blocked := none } input).1 = stuck m action ∧
      (stuck m action).retryPersistence.1 = stuck m action := by
  constructor
  · unfold step
    rw [if_neg (by decide), hstep]
    exact process_refused hrefused
  · simp only [retryPersistence, stuck, hrefused]

/-- The core waits for both entries. -/
def fallingStuck : PartitionConsensusDriver :=
  stuck { voteState := some (2, none), append := fallingTerms.entries }
    (.appendReply 1 1 0 (started.appendReply fallingTerms true))

/-- The core waits for the vote. -/
def hugeStuck : PartitionConsensusDriver :=
  stuck { voteState := some (2 ^ 63, some 1) } (.voteReply 1 true)

theorem store_never_accepts : emptyStore.loadState 1 = .ok emptyState ∧
    restoreActive config emptyState (.stable plan) = .ok started ∧
    ((step { core := started, store := emptyStore, blocked := none }
        (.message 1 1 (.appendRequest fallingTerms))).1 = fallingStuck ∧
      fallingStuck.retryPersistence.1 = fallingStuck) ∧
    (step { core := started, store := emptyStore, blocked := none }
        (.message 1 1 (.voteRequest hugeTerm))).1 = hugeStuck ∧
      hugeStuck.retryPersistence.1 = hugeStuck := by
  have hload : emptyStore.loadState 1 = .ok emptyState := by decide +kernel
  refine ⟨hload, restoreActive_started, step_stuck ?_ ?_, step_stuck ?_ ?_⟩ <;> decide +kernel

/-- Terms 1 then 2 pass, and the store loads back what the core holds. -/
def risingTerms : AppendRequest :=
  { fallingTerms with entries := [entry 1 1, entry 2 2] }

theorem risingTerms_accepted :
    let d : PartitionConsensusDriver := { core := started, store := emptyStore, blocked := none }
    let after := d.run [.step (.message 1 1 (.appendRequest risingTerms))]
    after.store.loadState after.core.activeEpoch = .ok (recovered after.core after.store) := by
  have hs : StorableRun { core := started, store := emptyStore, blocked := none }
      [.step (.message 1 1 (.appendRequest risingTerms))] := by
    refine ⟨fun input h => ?_, trivial⟩
    cases h
    exact ⟨⟨by decide, by decide, by decide, by decide, trivial⟩, nofun⟩
  exact (store_accepts_core (by decide +kernel : emptyStore.loadState 1 = .ok emptyState) rfl nofun
    restoreActive_started _ hs _ [] (append_nil _).symm).2.2

end Unstorable

end PartitionConsensusDriver

end MeshSpan
