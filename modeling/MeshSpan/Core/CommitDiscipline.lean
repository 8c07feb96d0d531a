import MeshSpan.Core.Reactions

/- Local commit discipline under hostile input.

   One core, from any restored state, under any sequence of calls: messages may be
   malformed, replayed or contradictory.

   What is proved:
     1. `LocalInv`: the log is contiguous and `applied ≤ commit ≤ last index`.
     2. `call_keeps`: a call lowers neither term nor commit, and keeps every committed entry.
     3. `call_ready`: what a call reports in `CommitReady` is exactly what it committed, unless
        it is an append response taken when the append-probe counter is used up.
     4. The run theorem, by induction over the calls.

   The exception in 3 is real: the response handler advances the commit index,
   then fails to number the next probe, and the collected effects are dropped. -/

namespace MeshSpan

open Ordered List Option

/-- Entry `i` of a log carries index `i + 1`. -/
def Contiguous (log : List LogEntry) : Prop :=
  ∀ i e, log[i]? = some e → e.position.index = i + 1

variable {log : List LogEntry}

theorem Contiguous.take (h : Contiguous log) (n : Nat) : Contiguous (log.take n) := by
  intro i e he
  rw [getElem?_take] at he
  split at he
  · exact h i e he
  · cases he

theorem Contiguous.concat {e : LogEntry} (h : Contiguous log)
    (he : e.position.index = log.length + 1) : Contiguous (log ++ [e]) := by
  intro i x hx
  rcases lt_trichotomy i log.length with hi | hi | hi
  · rw [getElem?_append_left hi] at hx
    exact h i x hx
  · subst hi
    simp only [getElem?_concat_length, some.injEq] at hx
    subst hx
    exact he
  · rw [getElem?_eq_none (by simp; omega)] at hx
    cases hx

theorem Contiguous.filter_lt (h : Contiguous log) (index : Nat) :
    log.filter (fun e => e.position.index < index) = log.take (index - 1) := by
  -- by induction on the log, with the index of the first entry as the offset
  suffices hs : ∀ (l : List LogEntry) (k : Nat), (∀ i e, l[i]? = some e → e.position.index = k + i + 1) →
      l.filter (fun e => e.position.index < index) = l.take (index - 1 - k) by
    simpa using hs log 0 fun i e he => by simpa using h i e he
  intro l
  induction l with
  | nil => intro k _; simp
  | cons x xs ih =>
    intro k hk
    have hx : x.position.index = k + 1 := by simpa using hk 0 x rfl
    have hxs := ih (k + 1) fun i e he => by
      have := hk (i + 1) e (by simpa using he)
      omega
    by_cases hlt : k + 1 < index
    · have hn : index - 1 - k = (index - 1 - (k + 1)) + 1 := by omega
      rw [hn, take_succ_cons, filter_cons_of_pos (by simp [hx, hlt]), hxs]
    · have hn : index - 1 - k = 0 := by omega
      have hn' : index - 1 - (k + 1) = 0 := by omega
      rw [hn, take_zero, filter_cons_of_neg (by simp [hx, hlt]), hxs, hn', take_zero]

theorem Contiguous.lastIndexOf (h : Contiguous log) : lastIndexOf log = log.length := by
  unfold MeshSpan.lastIndexOf
  cases hl : log.getLast? with
  | none => simp [getLast?_eq_none_iff.mp hl]
  | some e =>
    rw [getLast?_eq_getElem?] at hl
    have hlen : 0 < log.length := by
      rcases eq_zero_or_pos log.length with h0 | h0
      · rw [getElem?_eq_none (by omega)] at hl; cases hl
      · exact h0
    have := h _ e hl
    simp only [map_some, getD_some]
    omega

namespace ConsensusCore

variable {core core' : ConsensusCore}

theorem lastPosition_index (core : ConsensusCore) : core.lastPosition.index = lastIndexOf core.log := by
  unfold lastPosition lastIndexOf
  cases core.log.getLast? <;> rfl

theorem lastPosition_of_contiguous (h : Contiguous core.log) :
    core.lastPosition.index = core.log.length := by
  rw [lastPosition_index, h.lastIndexOf]

variable {index : Nat}

theorem entry_of_contiguous (h : Contiguous core.log) (hpos : 0 < index) :
    core.entry index = core.log[index - 1]? := by
  unfold entry
  rw [if_neg (by omega)]
  cases he : core.log[index - 1]? with
  | none => rfl
  | some e =>
    have := h _ e he
    simp [show e.position.index = index by omega]

/-! ## The invariant -/

/-- Applied is at most committed, committed at most present, and the log has no gap. -/
structure LocalInv (core : ConsensusCore) : Prop where
  contiguous : Contiguous core.log
  applied : core.appliedIndex ≤ core.commitIndex
  committed : core.commitIndex ≤ core.log.length
  bounded : core.log.length ≤ u64Max

/-- What a call may do to the committed part of a core. -/
structure Keeps (core core' : ConsensusCore) : Prop where
  inv : core'.LocalInv
  term : core.currentTerm ≤ core'.currentTerm
  commit : core.commitIndex ≤ core'.commitIndex
  entries : core'.log.take core.commitIndex = core.log.take core.commitIndex

/-- The entries that `CommitReady` effects report, in order. -/
def readyEntries (effects : List CoreEffect) : List LogEntry :=
  effects.flatMap fun effect => match effect with
    | .commitReady entries => entries
    | _ => []

/-- A result reports exactly the entries that became committed. -/
def Reports (core core' : ConsensusCore) (result : Except CoreError (List CoreEffect)) : Prop :=
  readyEntries (effectsOf result) = (core'.log.take core'.commitIndex).drop core.commitIndex

@[simp] theorem readyEntries_nil : readyEntries [] = [] := rfl

@[simp] theorem readyEntries_append (a b : List CoreEffect) :
    readyEntries (a ++ b) = readyEntries a ++ readyEntries b := flatMap_append

variable {effects : List CoreEffect}

theorem readyEntries_eq_nil
    (h : ∀ effect ∈ effects, ∀ entries, effect ≠ .commitReady entries) : readyEntries effects = [] := by
  induction effects with
  | nil => rfl
  | cons e es ih =>
    have hes := ih fun x hx => h x (mem_cons_of_mem _ hx)
    have he := h e mem_cons_self
    rw [show e :: es = [e] ++ es from rfl, readyEntries_append, hes]
    cases e <;> first | rfl | exact absurd rfl (he _)

structure SameLog (core core' : ConsensusCore) : Prop where
  log : core'.log = core.log
  commit : core'.commitIndex = core.commitIndex
  applied : core'.appliedIndex = core.appliedIndex
  term : core'.currentTerm = core.currentTerm

theorem SameLog.refl : SameLog core core := ⟨rfl, rfl, rfl, rfl⟩

variable {core'' : ConsensusCore} {result : Except CoreError (List CoreEffect)}

theorem SameLog.trans (h : SameLog core core') (h' : SameLog core' core'') : SameLog core core'' :=
  ⟨h'.log.trans h.log, h'.commit.trans h.commit, h'.applied.trans h.applied, h'.term.trans h.term⟩

theorem SameLog.inv (h : SameLog core core') (hinv : core.LocalInv) : core'.LocalInv := by
  obtain ⟨hlog, hcommit, happlied, _⟩ := h
  exact ⟨hlog ▸ hinv.contiguous, by rw [hcommit, happlied]; exact hinv.applied,
    by rw [hcommit, hlog]; exact hinv.committed, hlog ▸ hinv.bounded⟩

theorem SameLog.keeps (h : SameLog core core') (hinv : core.LocalInv) : core.Keeps core' :=
  ⟨h.inv hinv, h.term.ge, h.commit.ge, by rw [h.log]⟩

theorem SameLog.reports (h : SameLog core core') (hquiet : readyEntries (effectsOf result) = []) :
    core.Reports core' result := by
  unfold Reports
  rw [hquiet, h.log, h.commit]
  simp

theorem Keeps.trans (h : core.Keeps core') (h' : core'.Keeps core'') : core.Keeps core'' := by
  refine ⟨h'.inv, h.term.trans h'.term, h.commit.trans h'.commit, ?_⟩
  have hcut : ∀ l : List LogEntry, l.take core.commitIndex =
      (l.take core'.commitIndex).take core.commitIndex := by
    intro l
    rw [take_take, min_eq_left h.commit]
  rw [hcut, h'.entries, ← hcut, h.entries]

/-! ## Commit effects -/

theorem mapM_entry (h : Contiguous core.log) : ∀ (n old : Nat), old + n ≤ core.log.length →
    (range' (old + 1) n).mapM core.entry = some ((core.log.drop old).take n)
  | 0, old, _ => by simp
  | n + 1, old, hle => by
    obtain ⟨e, he⟩ : ∃ e, core.log[old]? = some e := ⟨_, getElem?_eq_getElem (by omega)⟩
    have hdrop : core.log.drop old = e :: core.log.drop (old + 1) := by
      rw [drop_eq_getElem_cons (by omega)]
      rw [getElem?_eq_getElem (by omega)] at he
      rw [some.inj he]
    have hentry : core.entry (old + 1) = some e := by
      rw [entry_of_contiguous h (by omega)]
      simpa using he
    rw [range'_succ, mapM_cons, hentry, mapM_entry h n (old + 1) (by omega), hdrop]
    simp

/-- Reporting a commit always succeeds, with exactly the entries it added. -/
theorem commitEffects_ok (hinv : core.LocalInv) {old : Nat} (hold : old ≤ core.commitIndex) :
    ∃ effects, core.commitEffects old = .ok effects ∧
      readyEntries effects = (core.log.take core.commitIndex).drop old := by
  unfold commitEffects
  have hdrop : (core.log.take core.commitIndex).drop old =
      (core.log.drop old).take (core.commitIndex - old) := by
    rw [drop_take]
  split
  · rename_i hle
    refine ⟨[], rfl, ?_⟩
    rw [hdrop, show core.commitIndex - old = 0 by omega]
    simp
  · have hcommitted := hinv.committed
    rw [mapM_entry hinv.contiguous _ old (by omega)]
    exact ⟨_, rfl, by simp [readyEntries, hdrop]⟩

/-- A commit index inside the log may be raised to any later index inside it. -/
theorem LocalInv.raise (hinv : core.LocalInv) (hle : core.commitIndex ≤ index)
    (hlog : index ≤ core.log.length) : LocalInv { core with commitIndex := index } :=
  ⟨hinv.contiguous, hinv.applied.trans hle, hlog, hinv.bounded⟩

theorem advance_of_raise (hinv : core.LocalInv) (hle : core.commitIndex ≤ index)
    (hlog : index ≤ core.log.length) : core.Keeps { core with commitIndex := index } ∧
    ∃ effects, commitEffects { core with commitIndex := index } core.commitIndex = .ok effects ∧
      core.Reports { core with commitIndex := index } (.ok effects) := by
  have hraised := hinv.raise hle hlog
  obtain ⟨effects, heff, hready⟩ := commitEffects_ok hraised hle
  exact ⟨⟨hraised, le_rfl, hle, rfl⟩, effects, heff, hready⟩

/-- Only the commit index is raised, and what it then covers is reported. -/
def Raises (core core' : ConsensusCore) (result : Except CoreError (List CoreEffect)) : Prop :=
  core.Keeps core' ∧ core.Reports core' result ∧ (∃ effects, result = .ok effects) ∧
    ∃ index, core' = { core with commitIndex := index }

theorem advanceFollowerCommit_spec (hinv : core.LocalInv) (limit : Nat)
    (h : core.advanceFollowerCommit limit = (core', result)) : core.Raises core' result := by
  unfold advanceFollowerCommit at h
  rw [lastPosition_of_contiguous hinv.contiguous] at h
  have hcommitted := hinv.committed
  obtain ⟨hkeeps, effects, heff, hreports⟩ := advance_of_raise hinv
    (le_max_right (min limit core.log.length) core.commitIndex) (by omega)
  simp only [heff] at h
  cases h
  exact ⟨hkeeps, hreports, ⟨effects, rfl⟩, _, rfl⟩

theorem quorumIndex_no_error (hinv : core.LocalInv) {matched : OrdMap NodeId Nat} :
    ∀ {candidates : List Nat}, (∀ i ∈ candidates, 0 < i ∧ i ≤ core.log.length) →
      ∀ err, core.quorumIndex matched candidates ≠ .error err
  | [], _, err => by
    unfold quorumIndex
    rintro ⟨⟩
  | candidate :: rest, h, err => by
    obtain ⟨hpos, hle⟩ := h candidate mem_cons_self
    have ih := @quorumIndex_no_error hinv matched rest
      (fun i hi => h i (mem_cons_of_mem _ hi)) err
    unfold quorumIndex
    rw [entry_of_contiguous hinv.contiguous hpos, getElem?_eq_getElem (by omega)]
    simp only
    split
    · exact ih
    · split
      · rintro ⟨⟩
      · exact ih

theorem advanceLeaderCommit_spec (hinv : core.LocalInv) (h : core.advanceLeaderCommit = (core', result)) :
    core.Raises core' result := by
  have hself : core.Keeps core ∧ ∃ effects, core.commitEffects core.commitIndex = .ok effects ∧
      core.Reports core (.ok effects) := advance_of_raise hinv le_rfl hinv.committed
  obtain ⟨hkeeps, effects, heff, hreports⟩ := hself
  unfold advanceLeaderCommit at h
  rw [lastPosition_of_contiguous hinv.contiguous] at h
  split at h
  · rename_i state hrole
    have hrange : ∀ i ∈ (range' (core.commitIndex + 1) (core.log.length - core.commitIndex)).reverse,
        core.commitIndex < i ∧ i ≤ core.log.length := by
      intro i hi
      rw [mem_reverse, mem_range'_1] at hi
      omega
    simp only at h
    split at h
    · rename_i err herr
      exact absurd herr (quorumIndex_no_error hinv (fun i hi => by
        have := hrange i hi
        omega) err)
    · rw [heff] at h
      cases h
      exact ⟨hkeeps, hreports, ⟨_, rfl⟩, core.commitIndex, rfl⟩
    · rename_i index hindex
      obtain ⟨hmem, _, _⟩ := quorumIndex_spec hindex
      have hlt := hrange index hmem
      obtain ⟨hkeeps, effects, heff, hreports⟩ := advance_of_raise hinv hlt.1.le hlt.2
      rw [heff] at h
      cases h
      exact ⟨hkeeps, hreports, ⟨_, rfl⟩, index, rfl⟩
  · cases h
    exact ⟨hkeeps, SameLog.refl.reports rfl, ⟨_, rfl⟩, core.commitIndex, rfl⟩

/-! ## Calls that commit nothing -/

/-- Bookkeeping: only the role, the known leader and the probe counter moved. -/
def Books (core core' : ConsensusCore) : Prop :=
  core' = { core with
    role := core'.role, leaderId := core'.leaderId, nextAppendProbeId := core'.nextAppendProbeId }

theorem Books.refl : Books core core := rfl

theorem Books.trans (h : Books core core') (h' : Books core' core'') : Books core core'' := by
  unfold Books at *
  rw [h', h]

theorem Books.sameLog (h : Books core core') : SameLog core core' := by
  rw [h]
  exact ⟨rfl, rfl, rfl, rfl⟩

theorem Probed.books (h : core.Probed core') : Books core core' := by
  rcases h with rfl | ⟨_, _, _, _, rfl⟩ <;> rfl

theorem Barriered.books (h : core.Barriered core') : Books core core' := by
  rcases h with rfl | ⟨_, _, _, rfl⟩ <;> rfl

/-- The effect neither asks for persistence nor reports a commit. -/
def isPlain : CoreEffect → Bool
  | .persist _ _ => false
  | .commitReady _ => false
  | _ => true

def Plain (effects : List CoreEffect) : Prop := ∀ effect ∈ effects, isPlain effect = true

theorem Plain.ready (h : Plain effects) : readyEntries effects = [] := by
  refine readyEntries_eq_nil fun effect hmem entries heq => ?_
  have hplain := h effect hmem
  rw [heq] at hplain
  cases hplain

theorem Plain.append {a b : List CoreEffect} (ha : Plain a) (hb : Plain b) : Plain (a ++ b) :=
  forall_mem_append.mpr ⟨ha, hb⟩

variable {effect : CoreEffect} {peer : NodeId}

theorem Plain.one (h : isPlain effect) : Plain [effect] :=
  forall_mem_singleton.mpr h

/-- A result of bookkeeping only: nothing is committed and nothing is to be persisted. -/
def Routine (core : ConsensusCore) (result : StepResult) : Prop :=
  Books core result.1 ∧ Plain (effectsOf result.2)

theorem Routine.error (h : Books core core') (err : CoreError) : core.Routine (core', .error err) :=
  ⟨h, nofun⟩

theorem Routine.one (h : Books core core') (he : isPlain effect) :
    core.Routine (core', .ok [effect]) := ⟨h, .one he⟩

variable {result : StepResult}

theorem Routine.of_books (hr : core'.Routine result) (h : Books core core') : core.Routine result :=
  ⟨h.trans hr.1, hr.2⟩

theorem probeAll_routine (core : ConsensusCore) (probes : List (NodeId × ProbeKind × Option Nat)) :
    core.Routine (core.probeAll probes) := by
  obtain ⟨hprobed, heff⟩ := @probeAll_spec probes core _ _ rfl
  refine ⟨hprobed.books, fun effect hmem => ?_⟩
  cases hr : (core.probeAll probes).2 with
  | error err => simp [hr, effectsOf] at hmem
  | ok effects =>
    rw [hr] at hmem
    obtain ⟨_, _, _, _, _, rfl, _⟩ := heff effects hr _ hmem
    rfl

theorem withEffects_routine (heff : Plain effects) (h : core.Routine result) :
    core.Routine (withEffects effects result) := by
  obtain ⟨core₁, r⟩ := result
  cases r with
  | error err => exact ⟨h.1, nofun⟩
  | ok more => exact ⟨h.1, heff.append h.2⟩

theorem ready_only_routine (hb : Books core core')
    (h : ∀ effect ∈ effects, ∃ id index, effect = CoreEffect.readBarrierReady id index) :
    core.Routine (core', .ok effects) := by
  refine ⟨hb, fun effect hmem => ?_⟩
  obtain ⟨_, _, rfl⟩ := h _ hmem
  rfl

theorem acknowledgeReadBarrier_routine (core : ConsensusCore) (sender : NodeId) (barrier : Option Nat) :
    core.Routine (core.acknowledgeReadBarrier sender barrier) := by
  generalize hr : core.acknowledgeReadBarrier sender barrier = r
  obtain ⟨core₁, result⟩ := r
  obtain ⟨hb, _, heff⟩ := acknowledgeReadBarrier_spec hr
  cases result with
  | error err => exact .error hb.books err
  | ok effects => exact ready_only_routine hb.books (heff effects rfl)

theorem becomeLeader_routine (core : ConsensusCore) : core.Routine core.becomeLeader := by
  unfold becomeLeader
  simp only
  split
  · exact .error .refl _
  · exact withEffects_routine (.one rfl) (Routine.of_books (probeAll_routine _ _) rfl)

theorem finishCampaign_routine (core : ConsensusCore) : core.Routine core.finishCampaign := by
  unfold finishCampaign
  simp only
  split
  · exact withEffects_routine (.one rfl) (Routine.of_books (becomeLeader_routine _) rfl)
  · refine ⟨rfl, forall_mem_cons.mpr ⟨rfl, fun effect hmem => ?_⟩⟩
    obtain ⟨_, _, rfl⟩ := mem_map.mp hmem
    rfl

theorem beginReadBarrier_routine (core : ConsensusCore) (id : Nat) :
    core.Routine (core.beginReadBarrier id) := by
  unfold beginReadBarrier
  split
  · exact .error .refl _
  simp only
  split
  · rename_i state hrole
    split
    · exact .error .refl _
    split
    · obtain ⟨hb, heff⟩ := completeReadBarriers_spec (Prod.mk.eta.symm)
      exact ready_only_routine (Barriered.of_table hrole hb).books heff
    · exact Routine.of_books (probeAll_routine _ _) (by rfl)
  · exact .error .refl _

theorem cancelReadBarrier_routine (core : ConsensusCore) (id : Nat) :
    core.Routine (core.cancelReadBarrier id) := by
  unfold cancelReadBarrier
  split
  · exact .error .refl _
  · split <;> exact ⟨rfl, nofun⟩

theorem replayMembershipPrefix_plain (core : ConsensusCore) (peer : NodeId)
    (response : AppendResponse) : Plain (effectsOf (core.replayMembershipPrefix peer response)) := by
  unfold replayMembershipPrefix
  split
  · nofun
  split
  · nofun
  split
  · nofun
  simp only
  split
  · nofun
  · exact .one rfl

theorem settlePlan_routine (core : ConsensusCore) : core.Routine core.settlePlan := by
  unfold settlePlan
  simp only
  split
  · exact probeAll_routine _ _
  split
  · exact ⟨.refl, nofun⟩
  · split
    · exact ⟨rfl, nofun⟩
    · exact .one (by rfl) rfl

theorem absorbProof_books (core : ConsensusCore) (state : LeaderState) (sender : NodeId)
    (response : AppendResponse) (proof : ProbeResult) :
    Books core (core.absorbProof state sender response proof).1 := by
  unfold absorbProof
  split
  · rfl
  · simp only
    split
    · rfl
    · split <;> rfl
  · simp only
    split
    · split <;> rfl
    · rfl

theorem rebaseLeader_books (core : ConsensusCore) (nextIndex : Nat) :
    Books core (core.rebaseLeader nextIndex) := by
  unfold rebaseLeader
  split <;> rfl

/-- A result after which log, indices and term are as before and nothing is reported. -/
def Quiet (core : ConsensusCore) (result : StepResult) : Prop :=
  SameLog core result.1 ∧ readyEntries (effectsOf result.2) = []

theorem Quiet.error (h : SameLog core core') (err : CoreError) : core.Quiet (core', .error err) :=
  ⟨h, rfl⟩

theorem Routine.quiet (h : core.Routine result) : core.Quiet result := ⟨h.1.sameLog, h.2.ready⟩

theorem Quiet.of_sameLog (hq : core'.Quiet result) (h : SameLog core core') :
    core.Quiet result := ⟨h.trans hq.1, hq.2⟩

theorem beginPersistence_quiet (core : ConsensusCore) (mutation : DurableMutation)
    (action : AfterPersistence) : core.Quiet (core.beginPersistence mutation action) := by
  unfold beginPersistence
  split
  · exact .error .refl _
  · exact ⟨⟨rfl, rfl, rfl, rfl⟩, rfl⟩

/-! ## Calls that may commit -/

/-- A result that keeps what was committed and reports exactly what it adds. -/
def Advances (core : ConsensusCore) (result : StepResult) : Prop :=
  core.Keeps result.1 ∧ core.Reports result.1 result.2

theorem Quiet.advances (h : core.Quiet result) (hinv : core.LocalInv) :
    core.Advances result := ⟨h.1.keeps hinv, h.1.reports h.2⟩

/-- A result that keeps what was committed, and under a condition reports what it adds. -/
def AdvancesIf (core : ConsensusCore) (p : Prop) (result : StepResult) : Prop :=
  core.Keeps result.1 ∧ (p → core.Advances result)

variable {p : Prop}

theorem Advances.always (h : core.Advances result) : core.AdvancesIf p result :=
  ⟨h.1, fun _ => h⟩

theorem Quiet.always (h : core.Quiet result) (hinv : core.LocalInv) : core.AdvancesIf p result :=
  (h.advances hinv).always

theorem Advances.of_keeps (h : core'.Advances result)
    (hk : core.Keeps core') (hcommit : core'.commitIndex = core.commitIndex) :
    core.Advances result := by
  refine ⟨hk.trans h.1, ?_⟩
  have hr := h.2
  unfold Reports at hr ⊢
  rw [hr, hcommit]

theorem Advances.then_quiet (h : core.Advances (core', .ok effects)) (hq : core'.Quiet result) :
    core.Keeps result.1 ∧
      (∀ more, result.2 = .ok more → core.Reports result.1 (.ok (effects ++ more))) := by
  refine ⟨h.1.trans (hq.1.keeps h.1.inv), fun more hmore => ?_⟩
  have hr : readyEntries effects = _ := h.2
  have hmore' : readyEntries more = [] := by simpa [hmore, effectsOf] using hq.2
  unfold Reports
  rw [hq.1.log, hq.1.commit]
  simp only [effectsOf, readyEntries_append, hr, hmore', append_nil]

theorem followLeader_sameLog (core : ConsensusCore) (leader : Option NodeId) :
    SameLog core (core.followLeader leader) := ⟨rfl, rfl, rfl, rfl⟩

theorem advanceFollowerCommit_reply (hinv : core.LocalInv) (limit : Nat)
    (reply : ConsensusCore → CoreEffect) (hreply : ∀ c entries, reply c ≠ .commitReady entries) :
    core.Advances (thenReply reply (core.advanceFollowerCommit limit)) := by
  generalize hr : core.advanceFollowerCommit limit = r
  obtain ⟨core₁, result⟩ := r
  obtain ⟨hkeeps, hreports, ⟨effects, rfl⟩, _⟩ := advanceFollowerCommit_spec hinv limit hr
  have hquiet : core₁.Quiet (core₁, .ok [reply core₁]) := by
    refine ⟨.refl, readyEntries_eq_nil fun effect hmem entries heq => ?_⟩
    rw [mem_singleton.mp hmem] at heq
    exact hreply core₁ entries heq
  obtain ⟨hk, hrep⟩ := Advances.then_quiet ⟨hkeeps, hreports⟩ hquiet
  exact ⟨hk, hrep _ rfl⟩

theorem finishCommittedPrefix_advances (hinv : core.LocalInv) (sender : NodeId) (index : Nat) :
    core.Advances (core.finishCommittedPrefix sender index) := by
  have hfollow := followLeader_sameLog core none
  unfold finishCommittedPrefix
  exact (advanceFollowerCommit_reply (hfollow.inv hinv) _ _ fun _ _ h => by cases h).of_keeps
    (hfollow.keeps hinv) rfl

variable {state : LeaderState}

/-- A probe towards a peer whose next index is inside the log fails only when no probe id is left. -/
theorem probeEffect_replication_ok (hinv : core.LocalInv) (hrole : core.role = .leader state)
    (hnext : (state.next.get? peer).getD 1 ≤ core.log.length) (hids : core.nextAppendProbeId < u64Max) :
    ∃ c effect, core.probeEffect peer .replication none = (c, .ok effect) := by
  have hbounded := hinv.bounded
  have hprev : previousIndex state peer .replication = max ((state.next.get? peer).getD 1) 1 - 1 := rfl
  obtain ⟨request, hreq⟩ : ∃ request, core.probeRequest state peer .replication none = .ok request := by
    unfold probeRequest
    have hpos : ∃ p, core.positionAt (previousIndex state peer .replication) = some p := by
      unfold positionAt
      by_cases hzero : previousIndex state peer .replication = 0
      · exact ⟨_, if_pos hzero⟩
      · have hlt : previousIndex state peer .replication - 1 < core.log.length := by omega
        rw [if_neg hzero, entry_of_contiguous hinv.contiguous (by omega), getElem?_eq_getElem hlt]
        exact ⟨_, rfl⟩
    obtain ⟨⟨previous, digest⟩, hp⟩ := hpos
    have hadd : checkedAdd (previousIndex state peer .replication) 1 =
        some (previousIndex state peer .replication + 1) := by
      have hle : previousIndex state peer .replication + 1 ≤ u64Max := by
        have : 0 < u64Max := by decide
        omega
      exact if_pos hle
    simp only [hp, hadd, map_some]
    exact ⟨_, rfl⟩
  obtain ⟨number, hnum⟩ : ∃ number, core.probeNumber state peer .replication request = .ok number := by
    have hadd : checkedAdd core.nextAppendProbeId 1 = some (core.nextAppendProbeId + 1) := by
      unfold checkedAdd
      rw [if_pos (by omega)]
    unfold probeNumber
    simp only [hadd]
    split <;> exact ⟨_, rfl⟩
  unfold probeEffect
  simp only [hrole, hreq, hnum]
  exact ⟨_, _, rfl⟩

theorem Barriered.leader (h : core.Barriered core') (hrole : core.role = .leader state) :
    (∃ state', core'.role = .leader state' ∧ state'.next = state.next) ∧
      core'.nextAppendProbeId = core.nextAppendProbeId := by
  rcases h with rfl | ⟨state', barriers, hrole', rfl⟩
  · exact ⟨⟨state, hrole, rfl⟩, rfl⟩
  · rw [hrole] at hrole'
    cases hrole'
    exact ⟨⟨_, rfl, rfl⟩, rfl⟩

theorem probeAll_one_ok (hinv : core.LocalInv) (hrole : core.role = .leader state)
    (hnext : (state.next.get? peer).getD 1 ≤ core.lastPosition.index)
    (hids : core.nextAppendProbeId < u64Max) :
    ∃ more, (core.probeAll [(peer, .replication, none)]).2 = .ok more := by
  rw [lastPosition_of_contiguous hinv.contiguous] at hnext
  obtain ⟨core₁, effect, hone⟩ := probeEffect_replication_ok hinv hrole hnext hids
  exact ⟨[effect], by simp [probeAll, hone]⟩

/-- The response handler keeps what was committed; it also reports all of it while probe ids last. -/
theorem finishResponse_advances (hinv : core.LocalInv)
    (hrole : core.role = .leader state) (sender : NodeId) (response : AppendResponse)
    (hbarrier : response.readBarrierId ≠ some 0) :
    core.AdvancesIf (core.nextAppendProbeId < u64Max) (core.finishResponse sender response) := by
  unfold finishResponse
  generalize hadv : core.advanceLeaderCommit = adv
  obtain ⟨core₁, result₁⟩ := adv
  obtain ⟨hkeeps, hreports, ⟨committed, rfl⟩, index, hcore₁⟩ := advanceLeaderCommit_spec hinv hadv
  have hrole₁ : core₁.role = .leader state := by rw [hcore₁]; exact hrole
  have hids₁ : core₁.nextAppendProbeId = core.nextAppendProbeId := by rw [hcore₁]
  simp only
  generalize hack : core₁.acknowledgeReadBarrier sender response.readBarrierId = ack
  obtain ⟨core₂, result₂⟩ := ack
  have hroutine : core₁.Routine (core₂, result₂) := hack ▸ acknowledgeReadBarrier_routine core₁ sender _
  obtain ⟨hbarriered, herr, _⟩ := acknowledgeReadBarrier_spec hack
  cases result₂ with
  | error err => exact absurd (herr err rfl) hbarrier
  | ok ready =>
    obtain ⟨hk₂, hr₂⟩ := Advances.then_quiet ⟨hkeeps, hreports⟩ hroutine.quiet
    have hadv₂ : core.Advances (core₂, .ok (committed ++ ready)) := ⟨hk₂, hr₂ ready rfl⟩
    simp only
    split
    · rename_i hnext
      obtain ⟨⟨state₂, hrole₂, hnext₂⟩, hids₂⟩ := hbarriered.leader hrole₁
      obtain ⟨hk₃, hr₃⟩ := hadv₂.then_quiet (probeAll_routine core₂ [(sender, .replication, none)]).quiet
      have hkeeps₃ : core.Keeps (withEffects (committed ++ ready)
          (core₂.probeAll [(sender, .replication, none)])).1 := by
        unfold withEffects
        split <;> rename_i heq <;> rw [heq] at hk₃ <;> exact hk₃
      refine ⟨hkeeps₃, fun hids => ⟨hkeeps₃, ?_⟩⟩
      have hpeer : core.peerNext sender = (state.next.get? sender).getD 1 := by
        simp [peerNext, hrole]
      obtain ⟨more, hmore⟩ := probeAll_one_ok hk₂.inv hrole₂
        (by rw [hnext₂, ← hpeer]; exact hnext) (by rw [hids₂, hids₁]; exact hids)
      have := hr₃ more hmore
      generalize core₂.probeAll [(sender, .replication, none)] = all at this hmore
      obtain ⟨core₃, result₃⟩ := all
      cases hmore
      exact this
    · exact hadv₂.always

theorem absorbProof_leader (core : ConsensusCore) (state : LeaderState) (sender : NodeId)
    (response : AppendResponse) (proof : ProbeResult) (hrole : core.role = .leader state) :
    (∃ state', (core.absorbProof state sender response proof).1.role = .leader state') ∧
      (core.absorbProof state sender response proof).1.nextAppendProbeId = core.nextAppendProbeId := by
  unfold absorbProof
  split
  · exact ⟨⟨_, hrole⟩, rfl⟩
  · simp only
    split
    · exact ⟨⟨_, hrole⟩, rfl⟩
    · split <;> exact ⟨⟨_, rfl⟩, rfl⟩
  · simp only
    split
    · split
      · exact ⟨⟨_, hrole⟩, rfl⟩
      · exact ⟨⟨_, rfl⟩, rfl⟩
    · exact ⟨⟨_, hrole⟩, rfl⟩

theorem proofTaken_advances (hinv : core.LocalInv) {sender : NodeId} {response : AppendResponse}
    (hwell : malformedResponse response = false) (state : LeaderState) (probes : AppendProbes)
    (proof : ProbeResult) : core.AdvancesIf (core.nextAppendProbeId < u64Max)
      (core.proofTaken state sender response probes proof) := by
  unfold proofTaken
  simp only
  split
  · exact (Routine.of_books (acknowledgeReadBarrier_routine _ _ _) (by rfl)).quiet.always hinv
  have hbarrier : response.readBarrierId ≠ some 0 := by
    intro h0
    simp [malformedResponse, h0] at hwell
  generalize hcore₀ : ({ core with role := _ } : ConsensusCore) = core₀
  have hsame₀ : SameLog core core₀ := by rw [← hcore₀]; exact ⟨rfl, rfl, rfl, rfl⟩
  have hids₀ : core₀.nextAppendProbeId = core.nextAppendProbeId := by rw [← hcore₀]
  generalize hstate₀ : ({ state with probes := _ } : LeaderState) = state₀ at hcore₀ ⊢
  have hrole₀ : core₀.role = .leader state₀ := by rw [← hcore₀]
  have hsame₁ := (absorbProof_books core₀ state₀ sender response proof).sameLog
  obtain ⟨⟨state₁, hrole₁⟩, hids₁⟩ := absorbProof_leader core₀ state₀ sender response proof hrole₀
  generalize core₀.absorbProof state₀ sender response proof = absorbed at *
  obtain ⟨core₁, result₁⟩ := absorbed
  have hsame := hsame₀.trans hsame₁
  cases result₁ with
  | error err => exact (Quiet.error hsame _).always hinv
  | ok u =>
    obtain ⟨hk, hadv⟩ := finishResponse_advances (hsame.inv hinv) hrole₁ sender response hbarrier
    exact ⟨(hsame.keeps hinv).trans hk, fun hids =>
      (hadv (by rw [hids₁, hids₀]; exact hids)).of_keeps (hsame.keeps hinv) hsame.commit⟩

/-! ## Persistence -/

def KeepsCommit (core core' : ConsensusCore) : Prop :=
  core.Keeps core' ∧ core'.commitIndex = core.commitIndex

theorem KeepsCommit.trans (h : core.KeepsCommit core') (h' : core'.KeepsCommit core'') :
    core.KeepsCommit core'' :=
  ⟨h.1.trans h'.1, h'.2.trans h.2⟩

theorem SameLog.keepsCommit (h : SameLog core core') (hinv : core.LocalInv) : core.KeepsCommit core' :=
  ⟨h.keeps hinv, h.commit⟩

section

variable (hinv : core.LocalInv)

include hinv

theorem push_keeps {e : LogEntry} (hindex : e.position.index = core.log.length + 1)
    (hbound : core.log.length + 1 ≤ u64Max) :
    core.KeepsCommit { core with log := core.log ++ [e] } := by
  have hcommitted := hinv.committed
  refine ⟨⟨⟨hinv.contiguous.concat hindex, hinv.applied, ?_, ?_⟩, le_rfl, le_rfl, ?_⟩, rfl⟩
  · simp
    omega
  · simpa using hbound
  · exact take_append_of_le_length hcommitted

omit hinv in
theorem appendDurable_keeps : ∀ {entries : List LogEntry} {core : ConsensusCore}, core.LocalInv →
    core.KeepsCommit (core.appendDurable entries).1
  | [], core, hinv => SameLog.refl.keepsCommit hinv
  | e :: es, core, hinv => by
    unfold appendDurable
    split
    · exact SameLog.refl.keepsCommit hinv
    split
    · exact SameLog.refl.keepsCommit hinv
    rename_i expected hadd
    rw [lastPosition_of_contiguous hinv.contiguous] at hadd
    obtain ⟨hexp, hbound⟩ := checkedAdd_some hadd
    split
    · exact SameLog.refl.keepsCommit hinv
    · rename_i hindex
      have hpush := @push_keeps core hinv e (by omega) hbound
      exact hpush.trans (appendDurable_keeps hpush.1.inv)

theorem truncateLog_keeps {truncateFrom : Option Nat}
    (h : ∀ index, truncateFrom = some index → core.commitIndex < index) :
    core.KeepsCommit (core.truncateLog truncateFrom) := by
  cases truncateFrom with
  | none => exact SameLog.refl.keepsCommit hinv
  | some index =>
    have hindex := h index rfl
    have hcommitted := hinv.committed
    have hbounded := hinv.bounded
    simp only [truncateLog, hinv.contiguous.filter_lt]
    refine ⟨⟨⟨hinv.contiguous.take _, hinv.applied, ?_, ?_⟩, le_rfl, le_rfl, ?_⟩, rfl⟩
    · simp only [length_take]
      omega
    · simp only [length_take]
      omega
    · simp only [take_take]
      rw [min_eq_left (by omega)]

theorem installVote_keeps {voteState : Option (Nat × Option NodeId)}
    (h : ∀ v, voteState = some v → core.currentTerm ≤ v.1) :
    core.KeepsCommit (core.installVote voteState) := by
  cases voteState with
  | none => exact SameLog.refl.keepsCommit hinv
  | some v =>
    have hterm := h v rfl
    simp only [installVote]
    split <;> exact ⟨⟨{ hinv with }, hterm, le_rfl, rfl⟩, rfl⟩

theorem applyDurableMutation_keeps (mutation : DurableMutation) :
    core.KeepsCommit (core.applyDurableMutation mutation).1 := by
  unfold applyDurableMutation
  split
  · exact SameLog.refl.keepsCommit hinv
  split
  · exact SameLog.refl.keepsCommit hinv
  rename_i hvote
  have hk₁ : core.KeepsCommit (core.installVote mutation.voteState) := by
    refine installVote_keeps hinv fun v hv => ?_
    simp only [hv, any_some, decide_eq_true_eq, not_or, not_lt] at hvote
    exact hvote.1
  simp only
  split
  · exact hk₁
  rename_i htruncate
  have hbelow : ∀ index, mutation.truncateFrom = some index →
      (core.installVote mutation.voteState).commitIndex < index := by
    intro index hindex
    simp only [hindex, any_some, decide_eq_true_eq, not_or, not_le] at htruncate
    exact htruncate.1
  have hk₂ := truncateLog_keeps hk₁.1.inv hbelow
  exact (hk₁.trans hk₂).trans (appendDurable_keeps hk₂.1.inv)

theorem finishProposal_advances (proposalId : Nat) (position : LogPosition) :
    core.Advances (core.finishProposal proposalId position) := by
  unfold finishProposal
  split
  · simp only
    split
    · exact Quiet.advances ⟨⟨rfl, rfl, rfl, rfl⟩, rfl⟩ hinv
    generalize hcore₀ : ({ core with role := _ } : ConsensusCore) = core₀
    have hsame₀ : SameLog core core₀ := by rw [← hcore₀]; exact ⟨rfl, rfl, rfl, rfl⟩
    have hroutine : core₀.Routine core₀.replicateAll := probeAll_routine core₀ _
    have hquiet := hroutine.quiet.of_sameLog hsame₀
    generalize core₀.replicateAll = sends at hquiet ⊢
    obtain ⟨core₁, result₁⟩ := sends
    cases result₁ with
    | error err => exact hquiet.advances hinv
    | ok effects =>
      have hready : readyEntries effects = [] := hquiet.2
      have hk₁ := hquiet.1.keepsCommit hinv
      simp only
      generalize hadv : core₁.advanceLeaderCommit = adv
      obtain ⟨core₂, result₂⟩ := adv
      obtain ⟨hkeeps, hreports, ⟨committed, rfl⟩, _⟩ := advanceLeaderCommit_spec hk₁.1.inv hadv
      refine Advances.of_keeps ⟨hkeeps, ?_⟩ hk₁.1 hk₁.2
      have hr : readyEntries committed = _ := hreports
      unfold Reports
      simp only [withEffects, effectsOf, readyEntries_append, hr]
      rw [show readyEntries (CoreEffect.proposalAppended proposalId position :: effects) =
        readyEntries effects from rfl, hready, nil_append]
  · exact (Quiet.error .refl _).advances hinv

omit hinv in
theorem finishPlanActivation_quiet (core : ConsensusCore) (plan : ActiveQuorumPlan)
    (incarnations : MemberIncarnations) (position : LogPosition) :
    core.Quiet (core.finishPlanActivation plan incarnations position) := by
  have hentered : SameLog core (core.enterPlan plan incarnations position) := ⟨rfl, rfl, rfl, rfl⟩
  unfold finishPlanActivation
  simp only
  split
  · exact .error hentered _
  · exact (settlePlan_routine _).quiet.of_sameLog (hentered.trans (rebaseLeader_books _ _).sameLog)

theorem finishAction_advances (pending : PendingPersistence) :
    core.Advances (core.finishAction pending) := by
  unfold finishAction
  split
  · exact (finishCampaign_routine core).quiet.advances hinv
  · exact Quiet.advances ⟨followLeader_sameLog core none, rfl⟩ hinv
  · rename_i recipient leader limit reply haction
    have hfollow := followLeader_sameLog core (some leader)
    split
    · exact (advanceFollowerCommit_reply (hfollow.inv hinv) _ _ fun _ _ h => by cases h).of_keeps
        (hfollow.keeps hinv) rfl
    · exact Quiet.advances ⟨hfollow, rfl⟩ hinv
  · exact finishProposal_advances hinv _ _
  · exact Quiet.advances ⟨followLeader_sameLog core none, rfl⟩ hinv
  · exact finishCommittedPrefix_advances hinv _ _
  · split
    · exact (Quiet.error .refl _).advances hinv
    · exact (finishPlanActivation_quiet _ _ _ _).advances hinv
  · split
    · exact (Quiet.error .refl _).advances hinv
    · exact (finishPlanActivation_quiet _ _ _ _).advances hinv

theorem finishPersistence_advances (id : Nat) : core.Advances (core.finishPersistence id) := by
  unfold finishPersistence
  split
  · exact (Quiet.error .refl _).advances hinv
  rename_i pending hpending
  split
  · exact (Quiet.error .refl _).advances hinv
  generalize hcore₀ : ({ core with pending := none } : ConsensusCore) = core₀
  have hsame : SameLog core core₀ := by rw [← hcore₀]; exact ⟨rfl, rfl, rfl, rfl⟩
  have hk₀ := hsame.keepsCommit hinv
  have hk₁ := hk₀.trans (applyDurableMutation_keeps hk₀.1.inv pending.mutation)
  generalize core₀.applyDurableMutation pending.mutation = applied at *
  obtain ⟨core₁, result₁⟩ := applied
  cases result₁ with
  | error err =>
    refine ⟨hk₁.1, ?_⟩
    unfold Reports
    have hcommit : core₁.commitIndex = core.commitIndex := hk₁.2
    simp [effectsOf, hcommit]
  | ok u => exact (finishAction_advances hk₁.1.inv pending).of_keeps hk₁.1 hk₁.2

/-! ## Calls and lifetimes -/

theorem appliedThrough_advances (index : Nat) : core.Advances (core.appliedThrough index) := by
  unfold appliedThrough
  split
  · exact (Quiet.error .refl _).advances hinv
  rename_i hrange
  simp only [not_or, not_lt] at hrange
  generalize hcore₀ : ({ core with appliedIndex := index } : ConsensusCore) = core₀
  have hk₀ : core.KeepsCommit core₀ := by
    rw [← hcore₀]
    exact ⟨⟨⟨hinv.contiguous, hrange.2, hinv.committed, hinv.bounded⟩, le_rfl, le_rfl, rfl⟩, rfl⟩
  generalize hcomplete : core₀.completeReadBarriers = r
  obtain ⟨core₁, effects⟩ := r
  obtain ⟨hb, heff⟩ := completeReadBarriers_spec hcomplete
  exact ((ready_only_routine hb.books heff).quiet.advances hk₀.1.inv).of_keeps hk₀.1 hk₀.2

end

/-- An append response that the core would take with its last append-probe id already given out. -/
def ResponseWithoutProbeId (core : ConsensusCore) : CoreCall → Prop
  | .step (.message _ _ (.appendResponse _)) => u64Max ≤ core.nextAppendProbeId
  | _ => False

/-- A reaction keeps what was committed, and reports what it commits unless probe ids ran out. -/
theorem Reacts.advances {input : CoreInput} (h : core.Reacts input result) (hinv : core.LocalInv) :
    core.AdvancesIf (¬ core.ResponseWithoutProbeId (.step input)) result := by
  have quiet : ∀ {result : StepResult} {p : Prop}, core.Quiet result → core.AdvancesIf p result :=
    fun h => h.always hinv
  cases h with
  | refuses err => exact quiet (.error .refl err)
  | ignores => exact quiet ⟨.refl, rfl⟩
  | begins h => exact quiet (beginPersistence_quiet _ _ _)
  | probes hrole probes => exact quiet (probeAll_routine _ _).quiet
  | notices peer hint => exact quiet ⟨.refl, rfl⟩
  | replays peer response => exact quiet ⟨.refl, (replayMembershipPrefix_plain _ _ _).ready⟩
  | votes granted hgranted => exact quiet ⟨.refl, rfl⟩
  | counts hterm hrole => exact quiet ⟨⟨rfl, rfl, rfl, rfl⟩, rfl⟩
  | wins hterm hrole hquorum =>
    exact quiet (Routine.of_books (becomeLeader_routine _) (by rfl)).quiet
  | declines => exact quiet ⟨.refl, rfl⟩
  | @follows sender => exact quiet ⟨followLeader_sameLog core (some sender), rfl⟩
  | @holds sender =>
    have hfollow := followLeader_sameLog core (some sender)
    exact ((advanceFollowerCommit_reply (hfollow.inv hinv) _ _
      (fun _ _ h => by cases h)).of_keeps (hfollow.keeps hinv) rfl).always
  | answers hwell hterm hrole hfound hreceive =>
    obtain ⟨hk, hadv⟩ := proofTaken_advances hinv hwell _ _ _
    exact ⟨hk, fun hids => hadv (by simpa [ResponseWithoutProbeId] using hids)⟩
  | finishes hvalid hplan hmatch hdelta => exact (finishCommittedPrefix_advances hinv _ _).always
  | reads id => exact quiet (beginReadBarrier_routine _ _).quiet
  | cancels id => exact quiet (cancelReadBarrier_routine _ _).quiet
  | applies index => exact (appliedThrough_advances hinv _).always

theorem step_advances (hinv : core.LocalInv) (input : CoreInput) :
    core.AdvancesIf (¬ core.ResponseWithoutProbeId (.step input)) (core.step input) := by
  cases hpending : core.pending with
  | none => exact (step_reacts hpending input).advances hinv
  | some pending =>
    rcases step_waiting hpending input with ⟨id, rfl, hstep⟩ | hstep
    · rw [hstep]
      exact (finishPersistence_advances hinv id).always
    · rw [hstep]
      exact (Quiet.error .refl _).always hinv

/-- One call keeps what was committed, and reports what it commits unless probe ids ran out. -/
theorem call_advances (hinv : core.LocalInv) (c : CoreCall) :
    core.AdvancesIf (¬ core.ResponseWithoutProbeId c) (core.call c) := by
  cases c with
  | step input => exact step_advances hinv input
  | setReplicationBudgets default peers =>
    have h : core.Quiet (core.call (.setReplicationBudgets default peers)) := by
      by_cases hp : peers.keys.elems.any (fun peer => peer ∉ core.activePlan.members) = true
      · simp only [call, setReplicationBudgets, hp, if_true]
        exact .error .refl _
      · simp only [call, setReplicationBudgets, hp]
        exact ⟨⟨rfl, rfl, rfl, rfl⟩, rfl⟩
    exact h.always hinv
  | clearReplicationBudgetOverrides =>
    have h : core.Quiet (core.call .clearReplicationBudgetOverrides) := ⟨⟨rfl, rfl, rfl, rfl⟩, rfl⟩
    exact h.always hinv

/-- Every append response of a lifetime is taken with an append-probe id to spare. -/
def ProbeIdsLast (core : ConsensusCore) : List CoreCall → Prop
  | [] => True
  | c :: cs => ¬ core.ResponseWithoutProbeId c ∧ (core.call c).1.ProbeIdsLast cs

instance (core : ConsensusCore) : DecidablePred core.ResponseWithoutProbeId := fun c => by
  unfold ResponseWithoutProbeId
  split <;> infer_instance

instance decidableProbeIdsLast : ∀ (core : ConsensusCore) (calls : List CoreCall),
    Decidable (core.ProbeIdsLast calls)
  | _, [] => .isTrue trivial
  | core, c :: cs =>
    have := decidableProbeIdsLast (core.call c).1 cs
    inferInstanceAs (Decidable (_ ∧ _))

theorem run_cons (core : ConsensusCore) (c : CoreCall) (cs : List CoreCall) :
    core.run (c :: cs) = (((core.call c).1.run cs).1,
      effectsOf (core.call c).2 ++ ((core.call c).1.run cs).2) := rfl

theorem run_append (core : ConsensusCore) : ∀ (cs ds : List CoreCall), core.run (cs ++ ds) =
      (((core.run cs).1.run ds).1, (core.run cs).2 ++ ((core.run cs).1.run ds).2)
  | [], ds => rfl
  | c :: cs, ds => by
    rw [cons_append, run_cons, run_cons, run_append (core.call c).1 cs ds, append_assoc]

theorem run_keeps : ∀ {core : ConsensusCore} (calls : List CoreCall), core.LocalInv →
    core.Keeps (core.run calls).1
  | core, [], hinv => SameLog.refl.keeps hinv
  | core, c :: cs, hinv => by
    have hk := (call_advances hinv c).1
    exact hk.trans (run_keeps cs hk.inv)

theorem slices_append (log : List LogEntry) {a b c : Nat} (hab : a ≤ b) (hbc : b ≤ c)
    (hc : c ≤ log.length) : (log.take b).drop a ++ (log.take c).drop b = (log.take c).drop a := by
  have hb : log.take b = (log.take c).take b := by rw [take_take, min_eq_left hbc]
  have hlen : a ≤ ((log.take c).take b).length := by
    simp only [length_take]
    omega
  rw [hb, ← drop_append_of_le_length hlen, take_append_drop]

/-- Over a lifetime the reported entries are the committed ones above the first commit index. -/
theorem run_ready : ∀ {core : ConsensusCore} (calls : List CoreCall), core.LocalInv →
    core.ProbeIdsLast calls → readyEntries (core.run calls).2 =
      ((core.run calls).1.log.take (core.run calls).1.commitIndex).drop core.commitIndex
  | core, [], hinv, _ => by
    rw [run, drop_eq_nil_of_le (by simp)]
    rfl
  | core, c :: cs, hinv, hids => by
    obtain ⟨hk, hreports⟩ := (call_advances hinv c).2 hids.1
    have hk' := run_keeps cs hk.inv
    have ih := run_ready cs hk.inv hids.2
    have hr : readyEntries (effectsOf (core.call c).2) = _ := hreports
    rw [run_cons, readyEntries_append, hr, ih, ← hk'.entries]
    exact slices_append _ hk.commit hk'.commit hk'.inv.committed

/-! ## Restored cores -/

theorem validateDurableLog_spec {term : Nat} : ∀ {log : List LogEntry} {expected previous : Nat},
    validateDurableLog term expected previous log = .ok () →
    (∀ i e, log[i]? = some e → e.position.index = expected + i) ∧
      (log ≠ [] → expected + log.length ≤ u64Max)
  | [], expected, previous, _ => ⟨fun i e he => by simp at he, fun hne => absurd rfl hne⟩
  | x :: xs, expected, previous, h => by
    unfold validateDurableLog at h
    split at h
    · cases h
    split at h
    · cases h
    rename_i hbad
    simp only [not_or, not_not] at hbad
    split at h
    · cases h
    rename_i next hadd
    obtain ⟨hnext, hbound⟩ := checkedAdd_some hadd
    obtain ⟨hindex, hlen⟩ := validateDurableLog_spec h
    refine ⟨fun i e he => ?_, fun _ => ?_⟩
    · cases i with
      | zero =>
        simp only [getElem?_cons_zero, some.injEq] at he
        rw [← he]
        exact hbad.1
      | succ i =>
        have := hindex i e (by simpa using he)
        omega
    · simp only [length_cons]
      by_cases hxs : xs = []
      · simp [hxs]
        omega
      · have := hlen hxs
        omega

variable {durable : DurableCoreState}

theorem validateDurableState_ok (h : validateDurableState durable = .ok ()) :
    Contiguous durable.log ∧ durable.appliedIndex ≤ durable.log.length ∧
      durable.log.length ≤ u64Max := by
  unfold validateDurableState at h
  split at h
  · cases h
  rename_i hlog
  obtain ⟨hindex, hlen⟩ := validateDurableLog_spec hlog
  have hcontig : Contiguous durable.log := fun i e he => by
    rw [hindex i e he]
    omega
  obtain ⟨happlied, -⟩ := guard_ok.mp h
  rw [hcontig.lastIndexOf, not_lt] at happlied
  refine ⟨hcontig, happlied, ?_⟩
  by_cases hne : durable.log = []
  · simp [hne]
  · have := hlen hne
    omega

theorem restoreActive_eq {config : CoreConfig}
    {plan : ActiveQuorumPlan} (h : restoreActive config durable plan = .ok core) :
    ∃ history, validateDurableState durable = .ok () ∧
      MembershipHistory.restore durable.log durable.appliedIndex plan = .ok history ∧
      core =
        { config, activePlan := plan, membershipHistory := history
          currentTerm := durable.currentTerm, votedFor := durable.votedFor, log := durable.log
          commitIndex := durable.appliedIndex, appliedIndex := durable.appliedIndex
          leaderId := none, role := .follower, pending := none
          nextPersistenceId := 1, nextAppendProbeId := 1
          replicationDefault := .default, replicationPeers := .empty } := by
  obtain ⟨-, h⟩ := guard_ok.mp h
  split at h
  · cases h
  rename_i restored hrestore
  split at h
  · cases h
  rename_i history hhistory
  cases h
  unfold restore at hrestore
  obtain ⟨-, hrestore⟩ := guard_ok.mp hrestore
  split at hrestore
  · cases hrestore
  · rename_i hvalid
    cases hrestore
    exact ⟨history, hvalid, hhistory, rfl⟩

theorem restoreActive_localInv {config : CoreConfig}
    {plan : ActiveQuorumPlan} (h : restoreActive config durable plan = .ok core) :
    core.LocalInv ∧ core.commitIndex = durable.appliedIndex := by
  obtain ⟨history, hvalid, -, rfl⟩ := restoreActive_eq h
  obtain ⟨hcontig, happlied, hbound⟩ := validateDurableState_ok hvalid
  exact ⟨⟨hcontig, le_rfl, happlied, hbound⟩, rfl⟩

/-- The entries at the `n` indices above `first`. -/
def segment (core : ConsensusCore) (first n : Nat) : List LogEntry :=
  (range' (first + 1) n).filterMap core.entry

theorem filterMap_of_mapM {f : Nat → Option LogEntry} : ∀ {l : List Nat} {r : List LogEntry},
    l.mapM f = some r → l.filterMap f = r
  | [], r, h => by
    simp only [mapM_nil, Option.pure_def, some.injEq] at h
    exact h
  | x :: xs, r, h => by
    rw [mapM_cons] at h
    obtain ⟨y, hy, h⟩ := bind_eq_some_iff.mp h
    obtain ⟨ys, hys, h⟩ := bind_eq_some_iff.mp h
    rw [filterMap_cons_some hy, filterMap_of_mapM hys]
    exact some.inj h

theorem segment_eq (hinv : core.LocalInv) {first : Nat} (hle : first ≤ core.commitIndex) :
    core.segment first (core.commitIndex - first) = (core.log.take core.commitIndex).drop first := by
  have hcommitted := hinv.committed
  rw [segment, filterMap_of_mapM (mapM_entry hinv.contiguous _ first (by omega)), drop_take]

theorem entry_eq_of_take (hinv : core.LocalInv) (hinv' : core'.LocalInv) {n : Nat}
    (h : core'.log.take n = core.log.take n) (hle : index ≤ n) :
    core'.entry index = core.entry index := by
  rcases eq_zero_or_pos index with rfl | hpos
  · rfl
  · rw [entry_of_contiguous hinv.contiguous hpos, entry_of_contiguous hinv'.contiguous hpos]
    have hlt : index - 1 < n := by omega
    rw [← getElem?_take_of_lt hlt, h, getElem?_take_of_lt hlt]

/-- Over every lifetime of a restored core the indices stay ordered, neither term nor commit index
falls and no committed entry changes; and as long as every append response finds an append-probe
id to spare, `CommitReady` reports exactly the entries above the restored applied index, in order. -/
theorem lifetime_commit_discipline {config : CoreConfig} {durable : DurableCoreState}
    {plan : ActiveQuorumPlan} {core : ConsensusCore}
    (hrestore : restoreActive config durable plan = .ok core) (calls : List CoreCall) :
    (∀ before after, calls = before ++ after →
      let middle := (core.run before).1
      let final := (core.run calls).1
      middle.appliedIndex ≤ middle.commitIndex ∧ middle.commitIndex ≤ middle.lastPosition.index ∧
      middle.commitIndex ≤ final.commitIndex ∧ middle.currentTerm ≤ final.currentTerm ∧
      ∀ index, index ≤ middle.commitIndex → final.entry index = middle.entry index) ∧
    (core.ProbeIdsLast calls →
      let final := (core.run calls).1
      readyEntries (core.run calls).2 =
        final.segment durable.appliedIndex (final.commitIndex - durable.appliedIndex)) := by
  obtain ⟨hinv, hcommit⟩ := restoreActive_localInv hrestore
  refine ⟨fun before after hsplit => ?_, fun hids => ?_⟩
  · have hmiddle := run_keeps before hinv
    have hfinal := run_keeps after hmiddle.inv
    rw [show ((core.run before).1.run after).1 = (core.run calls).1 by
      rw [hsplit, run_append]] at hfinal
    refine ⟨hmiddle.inv.applied, ?_, hfinal.commit, hfinal.term, fun index hle => ?_⟩
    · rw [lastPosition_of_contiguous hmiddle.inv.contiguous]
      exact hmiddle.inv.committed
    · exact entry_eq_of_take hmiddle.inv hfinal.inv hfinal.entries hle
  · have hk := run_keeps calls hinv
    have hle : durable.appliedIndex ≤ (core.run calls).1.commitIndex := hcommit ▸ hk.commit
    simp only
    rw [segment_eq hk.inv hle, ← hcommit]
    exact run_ready calls hinv hids

/-! ## A lifetime that loses a report

Two voters; node 1 alone elects and reads, both together commit.  Node 1 leads and appends two
entries, then heartbeats until its last append-probe id is given out.  When node 2 now acknowledges
the first entry, `append_response` commits it, and then fails to number the next append: the error
drops the `CommitReady` effect, and no later call repeats it. -/

namespace ProbeExhaustion

def spec : QuorumPlanSpec :=
  { planId := 11, formatVersion := 1, membershipEpoch := 1
    voters := OrdSet.ofList [1, 2], learners := OrdSet.empty
    eligibleLeaders := OrdSet.ofList [1]
    election := .voter 1, commit := .all [.voter 1, .voter 2], read := .voter 1 }

def plan : CompiledQuorumPlan := (compilePlan spec).toOption.get (by decide +kernel)

def config : CoreConfig :=
  { localNodeId := 1, localIncarnation := 1, plan
    memberIncarnations := .firstTwo }

def emptyState : DurableCoreState :=
  { currentTerm := 0, votedFor := none, log := [], appliedIndex := 0 }

def started : ConsensusCore :=
  (restoreActive config emptyState (.stable plan)).toOption.get (by decide +kernel)

theorem restoreActive_started : restoreActive config emptyState (.stable plan) = .ok started := by
  decide +kernel

/-- Node 1 elects itself and appends two entries. -/
def appendCalls : List CoreCall :=
  [.step .electionTimeout, .step (.persisted 1),
    .step (.propose 1 21 1 [7]), .step (.persisted 2),
    .step (.propose 2 22 1 [8]), .step (.persisted 3)]

def first : LogEntry :=
  { position := ⟨1, 1⟩, operationId := 21, commandVersion := 1, command := [7]
    commandDigest := .command 1 [7] }

def second : LogEntry :=
  { position := ⟨1, 2⟩, operationId := 22, commandVersion := 1, command := [8]
    commandDigest := .command 1 [8] }

def electionProbe : AppendProbe :=
  { previous := .genesis, previousDigest := zeroDigest, through := .genesis
    digest := zeroDigest, readBarrierId := none }

def probeThrough (e : LogEntry) : AppendProbe :=
  { electionProbe with through := e.position, digest := e.entryDigest }

variable (contacts : OrdMap Nat AppendProbe)

/-- The leader's view of node 2 while nothing is acknowledged. -/
def unanswered : LeaderState :=
  { probes := OrdMap.empty.insert 2
      { replication := ((OrdMap.empty.insert 1 electionProbe).insert 2 (probeThrough first)).insert 3
          (probeThrough second)
        contacts, latestReplication := some 3 }
    matched := (OrdMap.empty.insert 1 2).insert 2 0
    next := (OrdMap.empty.insert 1 3).insert 2 1
    readBarriers := .empty }

/-- The leader's view of node 2 once it has acknowledged the first entry. -/
def answered : LeaderState :=
  { probes := OrdMap.empty.insert 2
      { replication := (OrdMap.empty.insert 1 electionProbe).insert 3 (probeThrough second)
        contacts, latestReplication := some 3 }
    matched := (OrdMap.empty.insert 1 2).insert 2 1
    next := (OrdMap.empty.insert 1 3).insert 2 2
    readBarriers := .empty }

def leading (state : LeaderState) (commitIndex nextAppendProbeId : Nat) : ConsensusCore :=
  { config, activePlan := .stable plan, membershipHistory := {}
    currentTerm := 1, votedFor := some 1, log := [first, second]
    commitIndex, appliedIndex := 0, leaderId := some 1, role := .leader state
    pending := none, nextPersistenceId := 4, nextAppendProbeId
    replicationDefault := .default, replicationPeers := .empty }

theorem run_appendCalls : (started.run appendCalls).1 = leading (unanswered .empty) 0 4 ∧
    readyEntries (started.run appendCalls).2 = [] := by
  decide +kernel

def contactRequest (counter : Nat) : AppendRequest :=
  { probeId := counter, term := 1, leader := 1, leaderIncarnation := 1, previous := .genesis
    previousDigest := zeroDigest, entries := [], leaderCommitIndex := 0, readBarrierId := none
    membershipEpoch := 1, planDigest := plan.proofDigest }

/-- A heartbeat repeats the outstanding replication probe and gives one id to a contact probe. -/
theorem heartbeat_leading {counter : Nat} (h : counter < u64Max) :
    ((leading (unanswered contacts) 0 counter).call (.step .heartbeat)).1 =
      leading (unanswered (AppendProbes.outstanding contacts (contactRequest counter))) 0
        (counter + 1) := by
  generalize hcore : leading (unanswered contacts) 0 counter = core
  have hadd : checkedAdd counter 1 = some (counter + 1) := if_pos (by omega)
  have hrole : core.role = .leader (unanswered contacts) := hcore ▸ rfl
  have hreplicate : ∃ e, core.probeEffect 2 .replication none = (core, .ok e) :=
    ⟨_, by rw [← hcore]; rfl⟩
  have hrequest : core.probeRequest (unanswered contacts) 2 .contact none =
      .ok (contactRequest counter) := hcore ▸ rfl
  have hnumber : core.probeNumber (unanswered contacts) 2 .contact (contactRequest counter) =
      .ok (counter, counter + 1) := by
    unfold probeNumber
    simp only [show core.nextAppendProbeId = counter from hcore ▸ rfl, hadd]
  have hcontact : ∃ e, core.probeEffect 2 .contact none =
      (leading (unanswered (AppendProbes.outstanding contacts (contactRequest counter))) 0
        (counter + 1), .ok e) := by
    unfold probeEffect
    simp only [hrole, hrequest, hnumber]
    exact ⟨_, by rw [← hcore]; rfl⟩
  obtain ⟨e, he⟩ := hreplicate
  obtain ⟨e', he'⟩ := hcontact
  have hstep : core.call (.step .heartbeat) =
      core.probeAll [(2, .replication, none), (2, .contact, none)] := by
    rw [← hcore]
    rfl
  rw [hstep]
  simp only [probeAll, he, he']

theorem heartbeats_leading : ∀ (n : Nat) (contacts : OrdMap Nat AppendProbe) (counter : Nat),
    counter + n ≤ u64Max → let calls := replicate n (CoreCall.step .heartbeat)
    let core := leading (unanswered contacts) 0 counter
    (∃ contacts', (core.run calls).1 = leading (unanswered contacts') 0 (counter + n)) ∧
      readyEntries (core.run calls).2 = []
  | 0, contacts, counter, _ => ⟨⟨contacts, rfl⟩, rfl⟩
  | n + 1, contacts, counter, h => by
    obtain ⟨⟨contacts', hrun⟩, hready⟩ := heartbeats_leading n
      (AppendProbes.outstanding contacts (contactRequest counter)) (counter + 1) (by omega)
    simp only
    rw [replicate_succ, run_cons, heartbeat_leading contacts (by omega), readyEntries_append,
      hready, append_nil]
    exact ⟨⟨contacts', by rw [hrun]; congr 1; omega⟩, (probeAll_routine _ _).quiet.2⟩

def acknowledgement : AppendResponse :=
  { probeId := some 2, matchedDigest := first.entryDigest, term := 1, accepted := true
    matchedIndex := 1, nextIndexHint := 2, readBarrierId := none, membershipEpoch := 1
    planDigest := plan.proofDigest }

theorem advanceLeaderCommit_answered : (leading (answered contacts) 0 u64Max).advanceLeaderCommit =
      (leading (answered contacts) 1 u64Max, .ok [.commitReady [first]]) := by
  generalize hcore : leading (answered contacts) 0 u64Max = core
  have hplan : core.activePlan = .stable plan := hcore ▸ rfl
  have hterm : core.currentTerm = 1 := hcore ▸ rfl
  have hrole : core.role = .leader (answered contacts) := hcore ▸ rfl
  have hfirst : core.entry 1 = some first := hcore ▸ rfl
  have hsecond : core.entry 2 = some second := hcore ▸ rfl
  have hacks₁ : ((answered contacts).matched.retain fun _ m => decide (m ≥ 1)).keys =
      OrdSet.ofList [1, 2] := rfl
  have hacks₂ : ((answered contacts).matched.retain fun _ m => decide (m ≥ 2)).keys =
      OrdSet.ofList [1] := rfl
  have hboth : plan.satisfies .commit (OrdSet.ofList [1, 2]) = true := rfl
  have halone : plan.satisfies .commit (OrdSet.ofList [1]) = false := rfl
  have hquorum : core.quorumIndex (answered contacts).matched [2, 1] = .ok (some 1) := by
    simp [quorumIndex, hfirst, hsecond, hterm, hplan, hacks₁, hacks₂, ActiveQuorumPlan.satisfies,
      hboth, halone, first, second]
  have hcandidates : (range' (core.commitIndex + 1)
      (core.lastPosition.index - core.commitIndex)).reverse = [2, 1] := hcore ▸ rfl
  unfold advanceLeaderCommit
  simp only [hrole, hcandidates, hquorum]
  rw [← hcore]
  rfl

/-- The acknowledgement commits the first entry and reports an error in place of it. -/
theorem acknowledgement_leading : (leading (unanswered contacts) 0 u64Max).call
        (.step (.message 2 1 (.appendResponse acknowledgement))) =
      (leading (answered contacts) 1 u64Max, .error .exhausted) := by
  have hfinish : (leading (unanswered contacts) 0 u64Max).call
      (.step (.message 2 1 (.appendResponse acknowledgement))) =
      (leading (answered contacts) 0 u64Max).finishResponse 2 acknowledgement := rfl
  rw [hfinish]
  simp only [finishResponse, advanceLeaderCommit_answered]
  rfl

def calls : List CoreCall :=
  appendCalls ++ (replicate (u64Max - 4) (.step .heartbeat) ++
    [.step (.message 2 1 (.appendResponse acknowledgement))])

theorem commit_ready_lost : restoreActive config emptyState (.stable plan) = .ok started ∧
    (started.run calls).1.commitIndex = 1 ∧ (started.run calls).1.entry 1 = some first ∧
    readyEntries (started.run calls).2 = [] := by
  obtain ⟨hstart, hready₀⟩ := run_appendCalls
  obtain ⟨⟨contacts, hbeats⟩, hready₁⟩ := heartbeats_leading (u64Max - 4) .empty 4 (by decide)
  rw [show 4 + (u64Max - 4) = u64Max from rfl] at hbeats
  rw [calls, run_append, hstart, run_append, hbeats, run_cons, acknowledgement_leading]
  refine ⟨restoreActive_started, rfl, rfl, ?_⟩
  simp only [readyEntries_append, hready₀, hready₁]
  rfl

def earlyCalls : List CoreCall :=
  appendCalls ++ [.step (.message 2 1 (.appendResponse acknowledgement))]

/-- With ids to spare the same acknowledgement is reported. -/
theorem acknowledgement_reported : restoreActive config emptyState (.stable plan) = .ok started ∧
    (started.run earlyCalls).1.commitIndex = 1 ∧
    readyEntries (started.run earlyCalls).2 = (started.run earlyCalls).1.segment 0 1 := by
  have hcommit : (started.run earlyCalls).1.commitIndex = 1 := by decide +kernel
  have hids : started.ProbeIdsLast earlyCalls := by decide +kernel
  have hready := (lifetime_commit_discipline restoreActive_started earlyCalls).2 hids
  simp only [hcommit] at hready
  exact ⟨restoreActive_started, hcommit, hready⟩

end ProbeExhaustion

end ConsensusCore

end MeshSpan
