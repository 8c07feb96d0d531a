import MeshSpan.Cluster.Invariant

/- Every handler of the core is a move of the ledger.

   `Handles tr n k result` says of what a handler of node `n` returned that the
   history can be continued by events of `n` so that the core it leaves behind is
   accounted for again, and so that every message it sends and every entry it
   reports as committed is backed by the continued history. A handler that fails
   half way still has to leave such a core; its effects are dropped.

   The lemmas follow core/state.rs from the parts (probes, commit, election) to
   the message handlers. Those that finish a persisted mutation start from the
   core before the mutation, since it is the state the request was checked
   against. -/

namespace MeshSpan

open Ordered Ledger ConsensusCore ConsensusCore List Option

section

variable (first : CompiledQuorumPlan)

/-- The result is accounted for by a continuation of the history by node `n`. -/
def Handles (tr : History NodeId LogEntry) (n : NodeId) (k : Nat) (result : StepResult) : Prop :=
  ∃ tr', Extends n tr tr' ∧ (electorate first).Valid tr' ∧ CoreInv first tr' n k result.1 ∧
    ∀ effect ∈ effectsOf result.2, EffectOk first tr' n effect

end

variable {first : CompiledQuorumPlan} {tr : History NodeId LogEntry} {n : NodeId} {k : Nat}
  {core core' : ConsensusCore}

/-! ## Putting handlers together -/

section

variable (v : (electorate first).Valid tr) (h : CoreInv first tr n k core')

include v h

theorem Handles.quiet {result : Except CoreError (List CoreEffect)}
    (effects : ∀ effect ∈ effectsOf result, EffectOk first tr n effect) :
    Handles first tr n k (core', result) :=
  ⟨tr, .refl, v, h, effects⟩

theorem Handles.error (err : CoreError) : Handles first tr n k (core', .error err) :=
  .quiet v h nofun

theorem Handles.none : Handles first tr n k (core', .ok []) :=
  .quiet v h nofun

theorem Handles.one {effect : CoreEffect} (ok : EffectOk first tr n effect) :
    Handles first tr n k (core', .ok [effect]) := by
  refine .quiet v h ?_
  intro effect' mem
  rw [mem_singleton.mp mem]
  exact ok

end

variable {result : StepResult}

theorem Handles.after {tr' : History NodeId LogEntry} (ext : Extends n tr tr')
    (h : Handles first tr' n k result) : Handles first tr n k result := by
  obtain ⟨tr'', ext', rest⟩ := h
  exact ⟨tr'', ext.trans ext', rest⟩

variable {effects : List CoreEffect}

theorem Handles.withEffects (h : Handles first tr n k (core', .ok effects))
    (next : ∀ tr', Extends n tr tr' → (electorate first).Valid tr' → CoreInv first tr' n k core' →
      Handles first tr' n k result) :
    Handles first tr n k (withEffects effects result) := by
  obtain ⟨tr', ext, v, inv, ok⟩ := h
  obtain ⟨tr'', ext', v', inv', ok'⟩ := next tr' ext v inv
  obtain ⟨core'', r⟩ := result
  refine ⟨tr'', ext.trans ext', v', ?_⟩
  cases r with
  | error err => exact ⟨inv', nofun⟩
  | ok more =>
    refine ⟨inv', ?_⟩
    intro effect mem
    rcases mem_append.mp mem with old | new
    · exact (ok effect old).mono ext' v'
    · exact ok' effect new

theorem Handles.thenReply {reply : ConsensusCore → CoreEffect} (h : Handles first tr n k result)
    (ok : ∀ tr' core', Extends n tr tr' → (electorate first).Valid tr' → result.1 = core' →
      CoreInv first tr' n k core' → EffectOk first tr' n (reply core')) :
    Handles first tr n k (thenReply reply result) := by
  obtain ⟨tr', ext, v, inv, effects⟩ := h
  obtain ⟨core'', r⟩ := result
  refine ⟨tr', ext, v, ?_⟩
  cases r with
  | error err => exact ⟨inv, nofun⟩
  | ok more =>
    refine ⟨inv, ?_⟩
    intro effect mem
    rcases mem_snoc.mp mem with old | rfl
    · exact effects effect old
    · exact ok tr' core'' ext v rfl inv

/-! ## Probes -/

theorem CoreInv.phase (h : CoreInv first tr n k core) : InPhase first tr k core.activeDigest :=
  ⟨core.activePlan, h.sound.plan, rfl⟩

theorem CoreInv.known (h : CoreInv first tr n k core) : core.log.take core.commitIndex <+: committed tr :=
  h.sound.known

variable {state : LeaderState}

theorem standing_leader (role : core.role = .leader state) :
    core.role.standing = .leader := by rw [role]; rfl

variable {request : AppendRequest}

theorem RequestOf.ok (h : CoreInv first tr n k core) (leads : core.role.standing = .leader) {peer : NodeId}
    {barrier : Option Nat} (of : core.RequestOf peer barrier request) : AppendOk first tr request := by
  obtain ⟨e, leadsE, -, log⟩ := h.sound.leads leads
  have log : led tr core.currentTerm = core.log := log
  rw [← of.term] at log
  have range : ∃ m, request.entries =
      ((core.log.take u64Max).drop request.previous.index).take m := by
    rcases of.entries with nil | all
    · exact ⟨0, by rw [nil, take_zero]⟩
    · rw [all]
      exact replicationEntries_take h.ordered.contiguous peer _ _
  obtain ⟨m, range⟩ := range
  obtain ⟨len, describes, -⟩ := describes_take h.ordered.contiguous of.attaches u64Max m
  refine ⟨⟨e, leadsE.elected, leadsE.term.trans of.term.symm⟩,
    ⟨core.log.take len, k, ?_, range ▸ describes, ?_, ?_, ?_⟩, core.log.take core.commitIndex, ?_, ?_, ?_⟩
  · rw [log]
    exact take_prefix ..
  · exact fun x mem => h.valid x (mem_of_mem_take mem)
  · rw [of.digest]
    exact h.phase
  · exact (Electorate.members_mono ( take_prefix ..)).trans h.sound.room
  · rw [length_take, of.commit, min_eq_left h.ordered.committed]
  · rw [log]
    exact take_prefix ..
  · exact h.known

theorem probeAll_leads {probes : List (NodeId × ProbeKind × Option Nat)}
    (h : core.probeAll probes = (core', .ok effects)) (ne : effects ≠ []) :
    core.role.standing = .leader := by
  cases probes with
  | nil =>
    cases h
    exact absurd rfl ne
  | cons probe rest =>
    obtain ⟨peer, kind, barrier⟩ := probe
    unfold probeAll at h
    split at h
    · cases h
    rename_i core₁ effect one
    rcases probeEffect_cases one with ⟨-, err, bad⟩ | ⟨state, _, _, _, role, -⟩
    · cases bad
    · exact standing_leader role

theorem probeAll_handles (v : (electorate first).Valid tr) (h : CoreInv first tr n k core)
    (probes : List (NodeId × ProbeKind × Option Nat)) : Handles first tr n k (core.probeAll probes) := by
  generalize result : core.probeAll probes = r
  obtain ⟨core', r⟩ := r
  obtain ⟨probed, sends⟩ := probeAll_spec result
  refine .quiet v (h.probed probed) ?_
  intro effect mem
  cases r with
  | error err => cases mem
  | ok effects =>
    have leads := probeAll_leads result (ne_nil_of_mem mem)
    obtain ⟨peer, kind, barrier, request, -, rfl, of⟩ := sends effects rfl effect mem
    exact RequestOf.ok h leads of

theorem replicateAll_handles (v : (electorate first).Valid tr) (h : CoreInv first tr n k core) :
    Handles first tr n k core.replicateAll := probeAll_handles v h _

/-! ## Replayed phases -/

theorem replay_ok (h : CoreInv first tr n k core) (peer : NodeId) (response : AppendResponse) :
    ∀ effect ∈ effectsOf (core.replayMembershipPrefix peer response), EffectOk first tr n effect := by
  intro effect mem
  unfold replayMembershipPrefix at mem
  split at mem
  · cases mem
  rename_i hint
  simp only [not_or] at hint
  split at mem
  · cases mem
  rename_i boundary found
  split at mem
  · cases mem
  rename_i checks
  simp only [not_or, not_not, not_lt] at checks
  simp only at mem
  split at mem
  · cases mem
  rename_i previous digest at_
  rw [mem_singleton.mp mem]
  have bound := h.history _ _ _ found
  obtain ⟨j, phase, room⟩ := bound.phase
  have index := positionAt_index at_
  have before : previous.index ≤ boundary.committedPosition.index := by
    rw [index]
    unfold saturatingAdd
    omega
  have at_ : core.positionAt previous.index = some (previous, digest) := index.symm ▸ at_
  have replay : ∃ m, core.replicationEntries peer
      (min response.nextIndexHint (saturatingAdd boundary.committedPosition.index 1))
      boundary.committedPosition.index =
      ((core.log.take boundary.committedPosition.index).drop previous.index).take m := by
    by_cases zero : min response.nextIndexHint (saturatingAdd boundary.committedPosition.index 1) = 0
    · unfold saturatingAdd u64Max at zero
      omega
    · rw [index, show min response.nextIndexHint (saturatingAdd boundary.committedPosition.index 1) =
        min response.nextIndexHint (saturatingAdd boundary.committedPosition.index 1) - 1 + 1 by omega]
      exact replicationEntries_take h.ordered.contiguous peer _ _
  obtain ⟨m, replay⟩ := replay
  obtain ⟨len, describes, short⟩ := describes_take h.ordered.contiguous at_
    boundary.committedPosition.index m
  have applied := h.ordered.applied
  have inLog : core.log.take len <+: (committed tr).take boundary.committedPosition.index := by
    refine prefix_take_iff.mpr ⟨?_, by simp only [length_take]; omega⟩
    exact (take_prefix_take_left (by omega)).trans h.known
  refine ⟨core.log.take len, j, inLog.trans ( take_prefix ..), replay ▸ describes, ?_, ?_, ?_⟩
  · exact fun x inX => h.valid x (mem_of_mem_take inX)
  · rw [bound.named]
    exact phase
  · exact (Electorate.members_mono inLog).trans room

/-! ## Commit -/

theorem commitEffects_ok_of (h : CoreInv first tr n k core) (old : Nat) :
    ∀ effect ∈ effectsOf (core.commitEffects old), EffectOk first tr n effect := by
  intro effect mem
  unfold commitEffects at mem
  split at mem
  · cases mem
  rename_i lt
  have within := h.ordered.committed
  rw [mapM_entry h.ordered.contiguous _ old (by omega)] at mem
  rw [mem_singleton.mp mem]
  intro e inRange
  obtain ⟨i, at_⟩ := mem_iff_getElem?.mp inRange
  obtain ⟨short, at_⟩ := getElem?_of_take at_
  rw [getElem?_drop] at at_
  have index := h.ordered.contiguous _ e at_
  refine ⟨by omega, getElem?_of_part h.known ?_⟩
  rw [index, getElem?_take, if_pos (by omega)]
  exact at_

variable {index : Nat}

theorem CoreInv.raise (h : CoreInv first tr n k core)
    (within : core.commitIndex ≤ index ∧ index ≤ core.log.length)
    (sound : (electorate first).Sound tr n { core.replica k with commit := index }) :
    CoreInv first tr n k { core with commitIndex := index } :=
  { h with
    ordered := h.ordered.raise within.1 within.2
    sound := sound
    matched := fun q m at_ => (h.matched q m at_).congr (by rfl) (by rfl)
    own := fun leads => (h.own leads).congr (by rfl) (by rfl) }

/-- A follower may take for committed what the history says is. -/
theorem advanceFollowerCommit_handles (v : (electorate first).Valid tr) (h : CoreInv first tr n k core)
    (follows : core.role.standing = .follower) (limit : Nat)
    (known : core.log.take (min limit core.log.length) <+: committed tr) :
    Handles first tr n k (core.advanceFollowerCommit limit) := by
  unfold advanceFollowerCommit
  rw [lastPosition_of_contiguous h.ordered.contiguous]
  have within := h.ordered.committed
  have raised : CoreInv first tr n k
      { core with commitIndex := max (min limit core.log.length) core.commitIndex } := by
    refine h.raise ⟨by omega, by omega⟩ (h.sound.learn follows (le_max_right ..) (by dsimp [replica]; omega) ?_)
    show core.log.take (max (min limit core.log.length) core.commitIndex) <+: committed tr
    rcases le_total (min limit core.log.length) core.commitIndex with le | le
    · rw [max_eq_right le]; exact h.known
    · rw [max_eq_left le]; exact known
  exact .quiet v raised (commitEffects_ok_of raised _)

theorem ofCurrentTerm_lastTerm (first : CompiledQuorumPlan) (h : Contiguous core.log)
    (own : core.ofCurrentTerm index) : 0 < index ∧ index ≤ core.log.length ∧
      (electorate first).lastTerm (core.log.take index) = core.currentTerm := by
  unfold ofCurrentTerm at own
  cases entry : core.entry index with
  | none => rw [entry] at own; cases own
  | some e =>
    rw [entry, any_some, decide_eq_true_eq] at own
    obtain ⟨pos, le⟩ := entry_le h entry
    rw [entry_of_contiguous h pos] at entry
    have last : (electorate first).lastTerm _ = _ := lastTerm_take entry
    rw [Nat.sub_add_cancel pos] at last
    exact ⟨pos, le, last.trans own⟩

section

variable (v : (electorate first).Valid tr) (h : CoreInv first tr n k core)

include v h

/-- A leader commits what a quorum of its plan has acknowledged in its term. -/
theorem advanceLeaderCommit_handles : Handles first tr n k core.advanceLeaderCommit := by
  unfold advanceLeaderCommit
  rw [lastPosition_of_contiguous h.ordered.contiguous]
  split
  · rename_i state role
    simp only
    split
    · exact .error v h _
    · exact .quiet v h (commitEffects_ok_of h _)
    · rename_i index found
      obtain ⟨mem, own, quorum⟩ := quorumIndex_spec found
      rw [mem_reverse, mem_range'_1] at mem
      obtain ⟨pos, le, last⟩ := ofCurrentTerm_lastTerm first h.ordered.contiguous own
      have acks : ∀ q ∈ {q | q ∈ (state.matched.retain fun _ m => decide (m ≥ index)).keys},
          ∃ a, .ack a ∈ tr ∧ a.node = q ∧ a.term = core.currentTerm ∧ core.log.take index <+: a.log := by
        intro q inQ
        obtain ⟨m, at_⟩ := OrdMap.mem_keys.mp inQ
        obtain ⟨at_, ge⟩ := OrdMap.get?_retain_some.mp at_
        exact (h.matched q m (by rw [role]; exact at_)).acked index (by simpa using ge) own
      obtain ⟨v', sound⟩ := h.sound.commit v (standing_leader role) (c := index) (by dsimp [replica]; omega)
        le last (Q := {q | q ∈ (state.matched.retain fun _ m => decide (m ≥ index)).keys})
        ⟨_, quorum, fun q mem => mem⟩ acks
      have raised := (h.extend (m := n) (.commit _) v' (h.sound.append v' trivial)).raise ⟨by omega, le⟩ sound
      exact ⟨_, .commit _, v', raised, commitEffects_ok_of raised _⟩
  · exact .none v h

/-! ## Elections -/

theorem CoreInv.no_own (standing : core.role.standing = .candidate) (i : Nat) :
    core.ofCurrentTerm i = false := by
  obtain ⟨r, mem, -, term, log, -⟩ := h.sound.candidate standing
  obtain ⟨τ, -, -, ok⟩ := v.at_mem mem
  cases own : core.ofCurrentTerm i with
  | false => rfl
  | true =>
    unfold ofCurrentTerm at own
    cases entry : core.entry i with
    | none => rw [entry] at own; cases own
    | some e =>
      rw [entry, any_some, decide_eq_true_eq] at own
      obtain ⟨pos, -⟩ := entry_le h.ordered.contiguous entry
      rw [entry_of_contiguous h.ordered.contiguous pos] at entry
      have below : e.position.term < r.term := ok.below e (log ▸ mem_of_getElem? entry)
      have term : r.term = core.currentTerm := term
      omega

/-- A candidate with the votes of an election quorum leads its term. -/
theorem becomeLeader_handles {votes : OrdSet NodeId} (role : core.role = .candidate votes)
    (quorum : core.activePlan.satisfies .election votes) :
    Handles first tr n k core.becomeLeader := by
  unfold becomeLeader
  simp only
  split
  · exact .error v h _
  have standing : core.role.standing = .candidate := by rw [role]; rfl
  have cast : ∀ q ∈ {q | q ∈ votes}, Granted tr core.currentTerm q n :=
    fun q mem => h.votes q (by rw [role]; exact mem)
  obtain ⟨v', sound⟩ := h.sound.elect v standing (V := {q | q ∈ votes})
    ⟨votes, quorum, fun q mem => mem⟩ cast
  have ext : Extends n tr (tr ++ [.election ⟨core.currentTerm, n, k, {q | q ∈ votes}, core.log,
    core.commitIndex⟩]) := .election rfl
  -- nothing in the log is of the new leader's term, so no index counts yet
  have led : ∀ state : LeaderState, (∀ q m, state.matched.get? q = some m → m ≤ core.log.length) →
      CoreInv first _ n k
        { core with role := .leader state, leaderId := some core.config.localNodeId } := fun state within =>
    { name := h.name
      ordered := { h.ordered with }
      valid := h.valid
      sound := sound
      votes := fun _ mem => absurd mem OrdSet.not_mem_empty
      matched := fun q m at_ => ⟨within q m at_, fun i _ own =>
        absurd (h.no_own v standing i) (by rw [show core.ofCurrentTerm i = true from own]; nofun)⟩
      own := fun _ => ⟨le_rfl, fun i _ own =>
        absurd (h.no_own v standing i) (by rw [show core.ofCurrentTerm i = true from own]; nofun)⟩
      history := fun epoch digest boundary found =>
        (h.history epoch digest boundary found).mono ext v' }
  refine Handles.after ext (Handles.withEffects (.one v' (led _ ?_) trivial)
    (fun tr'' ext'' v'' inv'' => replicateAll_handles v'' inv''))
  intro q m at_
  rcases OrdMap.get?_foldl_orInsert (fun _ => 0) _ _ at_ with self | rfl
  · rw [OrdMap.get?_insert, lastPosition_of_contiguous h.ordered.contiguous] at self
    split at self
    · cases self
      exact le_rfl
    · cases self
  · exact Nat.zero_le _

end

variable {t : Nat}

section

variable (v : (electorate first).Valid tr) (h : CoreInv first tr n k core)
  (higher : core.currentTerm < t)

include v h higher

/-- A campaign: a new term, its own vote, and the log as it is. -/
theorem CoreInv.campaign : ∃ tr', Extends n tr tr' ∧ (electorate first).Valid tr' ∧
      (∃ r, .campaign r ∈ tr' ∧ r.candidate = n ∧ r.term = t ∧ r.log = core.log ∧ r.phase = k) ∧
      CoreInv first tr' n k
        { core with currentTerm := t, votedFor := some n, role := .candidate (.singleton n) } := by
  obtain ⟨v₁, sound₁⟩ := h.sound.campaign v higher
  obtain ⟨v₂, sound₂⟩ := sound₁.grant v₁ (r := ⟨t, n, k, core.log, core.commitIndex⟩)
    (by simp [replica]) rfl rfl (upToDate_refl _) (.inl rfl)
  have ext₁ : Extends n tr (tr ++ [.campaign ⟨t, n, k, core.log, core.commitIndex⟩]) := .campaign rfl
  have ext := ext₁.trans (.grant (g := ⟨n, t, n, k, core.log⟩) rfl)
  refine ⟨_, ext, v₂, ⟨⟨t, n, k, core.log, core.commitIndex⟩, ?_, rfl, rfl, rfl, rfl⟩, ?_⟩
  · simp
  · exact
      { name := h.name
        ordered := { h.ordered with }
        valid := h.valid
        sound := sound₂
        votes := fun q mem => by
          rw [OrdSet.mem_singleton.mp mem]
          exact ⟨_, mem_append_right _ (mem_singleton.mpr rfl), rfl, rfl, rfl⟩
        matched := fun q m at_ => by cases at_
        own := fun leads => by cases leads
        history := fun epoch digest boundary found => (h.history epoch digest boundary found).mono ext v₂ }

omit v h higher in
theorem acknowledged_higher (vote : Option NodeId) (higher : core.currentTerm < t) :
    core.acknowledged { voteState := some (t, vote) } =
      { core with
        nextPersistenceId := core.nextPersistenceId + 1
        role := .follower, leaderId := none, currentTerm := t, votedFor := vote } := by
  simp [acknowledged, installed, installVote, keptLog, higher]

theorem finishCampaign_handles : Handles first tr n k
      (core.acknowledged { voteState := some (t, some core.config.localNodeId) }).finishCampaign := by
  obtain ⟨tr', ext, v', ⟨r, mem, name, term, log, phase⟩, inv⟩ := h.campaign v higher
  refine Handles.after ext ?_
  rw [acknowledged_higher _ higher]
  unfold finishCampaign
  simp only [h.name]
  have campaigning : CoreInv first tr' n k
      { core with
        nextPersistenceId := core.nextPersistenceId + 1, role := .candidate (.singleton n)
        leaderId := none, currentTerm := t, votedFor := some n } :=
    inv.congr ⟨rfl, rfl, rfl, rfl, rfl, rfl, rfl, rfl, rfl, rfl⟩ h.ordered.applied
  split
  · rename_i quorum
    exact Handles.withEffects (.one v' campaigning trivial)
      (fun tr'' ext'' v'' inv'' => becomeLeader_handles v'' inv'' rfl quorum)
  · refine .quiet v' campaigning ?_
    intro effect inEffects
    rcases mem_cons.mp inEffects with rfl | sent
    · trivial
    obtain ⟨q, -, rfl⟩ := mem_map.mp sent
    refine ⟨r, mem, name, term, ?_, log ▸ h.ordered.contiguous, ?_⟩
    · rw [log]
      rfl
    · rw [phase]
      exact campaigning.phase

end

variable {sender : NodeId}

section

variable (h : CoreInv first tr n k core)

include h

theorem CoreInv.count {response : VoteResponse} (same : response.term = core.currentTerm)
    (ok : MessageOk first tr sender n (.voteResponse response)) {votes : OrdSet NodeId}
    (role : core.role = .candidate votes) : let counted := { core with role := .candidate (countVote votes sender response.granted) }
    CoreInv first tr n k counted := by
  have sound := h.sound
  simp only [replica, role] at sound
  exact
    { h with
      ordered := { h.ordered with }
      sound := sound
      votes := fun q mem => by
        unfold countVote at mem
        split at mem
        · rename_i granted
          rcases OrdSet.mem_insert.mp mem with rfl | old
          · have cast := ok granted
            rwa [same] at cast
          · exact h.votes q (by rw [role]; exact old)
        · exact h.votes q (by rw [role]; exact mem)
      matched := fun q m at_ => by cases at_
      own := fun leads => by cases leads }

/-! ## Terms and votes -/

theorem CoreInv.retire (leader : Option NodeId) : CoreInv first tr n k (core.followLeader leader) :=
  { h with
    ordered := { h.ordered with }
    sound := h.sound.retire
    votes := fun _ mem => absurd mem OrdSet.not_mem_empty
    matched := fun _ _ at_ => nomatch at_
    own := nofun }

theorem CoreInv.bump (higher : core.currentTerm < t) :
    CoreInv first tr n k { core with currentTerm := t, votedFor := none, role := .follower } :=
  { h with
    ordered := { h.ordered with }
    sound := h.sound.bump higher
    votes := fun _ mem => absurd mem OrdSet.not_mem_empty
    matched := fun _ _ at_ => nomatch at_
    own := nofun }

end

variable {digest : Digest}

theorem CoreInv.phase_eq (h : CoreInv first tr n k core) {j epoch : Nat}
    (phase : InPhase first tr j digest) (plan : core.validatePlan epoch digest) : j = k := by
  obtain ⟨p, at_, named⟩ := phase
  have same : epoch = core.activeEpoch ∧ digest = core.activeDigest := by simpa [validatePlan] using plan
  exact phase_eq_of_digest at_ h.sound.plan (named.trans same.2)

section

variable (v : (electorate first).Valid tr) (h : CoreInv first tr n k core)

include v h

/-- A vote for a candidate of the core's term and phase. -/
theorem CoreInv.grant {r : Campaign NodeId LogEntry} (asked : .campaign r ∈ tr)
    (term : r.term = core.currentTerm) (phase : r.phase = k)
    (upToDate : (electorate first).UpToDate r.log core.log)
    (free : core.votedFor = none ∨ core.votedFor = some r.candidate) :
    ∃ tr', Extends n tr tr' ∧ (electorate first).Valid tr' ∧
      CoreInv first tr' n k { core with votedFor := some r.candidate } ∧
      Granted tr' core.currentTerm n r.candidate := by
  obtain ⟨v', sound⟩ := h.sound.grant v asked term phase upToDate free
  have ext : Extends n tr (tr ++ [.grant ⟨n, core.currentTerm, r.candidate, k, core.log⟩]) := .grant rfl
  refine ⟨_, ext, v', ?_, _, mem_append_right _ (mem_singleton.mpr rfl), rfl, rfl, rfl⟩
  exact
    { h with
      ordered := { h.ordered with }
      sound := sound
      votes := fun q mem => (h.votes q mem).mono ext
      matched := fun q i at_ => ((h.matched q i at_).mono ext).congr (by rfl) (by rfl)
      own := fun leads => ((h.own leads).mono ext).congr (by rfl) (by rfl)
      history := fun epoch digest boundary found => (h.history epoch digest boundary found).mono ext v' }

variable {request : VoteRequest} {previous : LogPosition} {proof : ProbeResult}

section

variable (ok : MessageOk first tr sender n (.voteRequest request))
  (plan : core.validatePlan request.membershipEpoch request.planDigest = true)

include ok plan

/-- The vote that a request with an up-to-date log gets in its own term. -/
theorem CoreInv.grantRequest (current : core.lastPosition ≤ request.lastLog)
    (term : core.currentTerm = request.term) (free : core.votedFor = none ∨ core.votedFor = some sender) :
    ∃ tr', Extends n tr tr' ∧ (electorate first).Valid tr' ∧
      CoreInv first tr' n k { core with votedFor := some sender } ∧
      Granted tr' core.currentTerm n sender := by
  obtain ⟨r, sent⟩ := ok
  have upToDate : (electorate first).UpToDate r.log core.log := by
    refine upToDate_of_le h.ordered.contiguous sent.contiguous ?_
    rw [sent.lastLog]
    exact current
  have named := sent.candidate
  obtain ⟨tr', ext, v', inv, granted⟩ := h.grant v sent.campaign (sent.term.trans term.symm)
    (h.phase_eq sent.phase plan) upToDate (by rw [named]; exact free)
  rw [named] at inv granted
  exact ⟨tr', ext, v', inv, granted⟩

theorem voteReply_handles (term : core.currentTerm ≤ request.term) {granted : Bool}
    (grants : granted = ((core.lastPosition ≤ request.lastLog) &&
      (request.term > core.currentTerm ∨ core.votedFor = none ∨ core.votedFor = some sender)))
    (new : request.term > core.currentTerm ∨ (granted = true ∧ core.votedFor ≠ some sender)) :
    let voted := core.acknowledged
      { voteState := some (request.term, if granted then some sender else none) }
    Handles first tr n k (voted.followLeader none, .ok [(voted.followLeader none).voteEffect sender granted]) := by
  intro voted
  rcases lt_or_eq_of_le term with higher | same
  · have eq : voted = _ := acknowledged_higher _ higher
    have bumped := h.bump higher
    cases granted with
    | false =>
      rw [eq]
      refine .one v ?_ (nomatch ·)
      exact bumped.congr ⟨rfl, rfl, rfl, rfl, rfl, rfl, rfl, rfl, rfl, rfl⟩ h.ordered.applied
    | true =>
      rw [eq]
      simp only [Bool.true_eq, Bool.and_eq_true, decide_eq_true_eq] at grants
      obtain ⟨tr', ext, v', inv, cast⟩ := bumped.grantRequest v ok plan grants.1 rfl (.inl rfl)
      refine Handles.after ext (.one v' ?_ fun _ => cast)
      exact inv.congr ⟨rfl, rfl, rfl, rfl, rfl, rfl, rfl, rfl, rfl, rfl⟩ h.ordered.applied
  · -- in its own term the core can only be asked to cast the vote it still has
    obtain ⟨rfl, other⟩ : granted = true ∧ core.votedFor ≠ some sender := by
      rcases new with h | h
      · omega
      · exact h
    simp only [Bool.true_eq, Bool.and_eq_true, decide_eq_true_eq] at grants
    have free : core.votedFor = none := by
      rcases grants.2 with h | h | h
      · omega
      · exact h
      · exact absurd h other
    have eq : voted = { core with
        nextPersistenceId := core.nextPersistenceId + 1
        currentTerm := request.term, votedFor := some sender } := by
      simp [voted, acknowledged, installed, installVote, keptLog, same]
    obtain ⟨tr', ext, v', inv, cast⟩ := h.grantRequest v ok plan grants.1 same (.inl free)
    rw [eq]
    refine Handles.after ext (.one v' ?_ fun _ => same ▸ cast)
    exact (inv.retire none).congr ⟨rfl, rfl, rfl, same.symm, rfl, rfl, rfl, rfl, rfl, rfl⟩ h.ordered.applied

end

end

/-! ## Taking over entries -/

theorem logDelta_held (log : Contiguous core.log) : ∀ {entries : List LogEntry} {i : Nat},
    Follows i entries → core.log.take i ++ entries <+: core.log → i ≤ core.log.length →
    core.logDelta entries = .ok (none, [])
  | [], _, _, _, _ => rfl
  | e :: es, i, follows, held, le => by
    have at_ : core.log[i]? = some e := by
      refine getElem?_of_part held ?_
      rw [getElem?_append_right (by simp), length_take, Nat.min_eq_left le, Nat.sub_self]
      rfl
    have entry : core.entry e.position.index = some e := by
      rw [follows.head, entry_of_contiguous log (by omega)]
      exact at_
    have lt := (List.getElem?_eq_some_iff.mp at_).1
    have next : core.log.take (i + 1) ++ es <+: core.log := by
      rw [take_add_one, at_, toList_some, append_assoc]
      exact held
    unfold logDelta
    simp only [entry, and_self, if_true]
    exact logDelta_held log follows.tail next (by omega)

variable {entries append : List LogEntry} {truncateFrom : Option Nat}

/-- What `log_delta` asks for takes the received log over, or leaves alone one that holds it. -/
theorem adopts_of_delta (inv : core.LocalInv) (valid : ValidEntries core.log)
    {i : Nat} (follows : Follows i entries) (validE : ValidEntries entries)
    (le : i ≤ core.log.length) (delta : core.logDelta entries = .ok (truncateFrom, append)) :
    Electorate.Adopts (core.replica k) (core.log.take i ++ entries) (core.keptLog truncateFrom ++ append) := by
  rcases logDelta_merges inv.contiguous valid follows validE le delta with ⟨rfl, rfl, held⟩ | ⟨ne, whole⟩
  · exact .inl ⟨held, by rw [append_nil]; rfl⟩
  refine .inr ⟨?_, whole, ?_⟩
  · intro held
    rw [logDelta_held inv.contiguous follows held le] at delta
    cases delta
    exact ne rfl
  · rw [← whole]
    refine IsPrefix.trans ?_ (prefix_append ..)
    obtain ⟨held, -, -, -, cut, -⟩ := logDelta_skips inv.contiguous valid follows validE le delta
    cases truncateFrom with
    | none => exact take_prefix ..
    | some index =>
      obtain ⟨-, -, -, above⟩ := cut index rfl
      exact take_prefix_take_left (by dsimp [replica]; omega)

theorem CoreInv.adopt (h : CoreInv first tr n k core) (follows : core.role = .follower) {L : List LogEntry}
    (contiguous : Contiguous L) (valid : ValidEntries L) (bounded : L.length ≤ u64Max)
    (sound : (electorate first).Sound tr n { core.replica k with log := L }) :
    CoreInv first tr n k { core with log := L } :=
  { h with
    ordered := ⟨contiguous, h.ordered.applied, sound.within, bounded⟩
    valid := valid
    sound := sound
    votes := fun _ mem => by
      rw [follows] at mem
      exact absurd mem OrdSet.not_mem_empty
    matched := fun _ _ at_ => by
      rw [follows] at at_
      cases at_
    own := fun leads => by
      rw [follows] at leads
      cases leads }

def observing (core : ConsensusCore) (t : Nat) : ConsensusCore :=
  if core.currentTerm < t then { core with currentTerm := t, votedFor := none, role := .follower }
  else { core with role := .follower }

theorem CoreInv.observes (h : CoreInv first tr n k core) (t : Nat) :
    CoreInv first tr n k (observing core t) := by
  unfold observing
  split
  · exact h.bump ‹_›
  · exact (h.retire core.leaderId).congr ⟨rfl, rfl, rfl, rfl, rfl, rfl, rfl, rfl, rfl, rfl⟩ h.ordered.applied

@[simp] theorem observing_role (t : Nat) : (observing core t).role = .follower := by
  unfold observing; split <;> rfl

@[simp] theorem observing_log (t : Nat) : (observing core t).log = core.log := by
  unfold observing; split <;> rfl

@[simp] theorem observing_commit (t : Nat) : (observing core t).commitIndex = core.commitIndex := by
  unfold observing; split <;> rfl

@[simp] theorem observing_plan (t : Nat) : (observing core t).activePlan = core.activePlan := by
  unfold observing; split <;> rfl

theorem observing_term (le : core.currentTerm ≤ t) : (observing core t).currentTerm = t := by
  unfold observing
  split
  · rfl
  · show core.currentTerm = t
    omega

theorem le_observing_term (t : Nat) : core.currentTerm ≤ (observing core t).currentTerm ∧
    t ≤ (observing core t).currentTerm := by
  unfold observing
  split
  · dsimp only; omega
  · dsimp only; omega

/-- The core that has installed entries and followed their sender, up to fields the ledger does not read. -/
theorem acknowledged_observing (core : ConsensusCore) (t : Nat) (truncateFrom : Option Nat)
    (append : List LogEntry) (leader : Option NodeId) :
    SameLedger { observing core t with log := core.keptLog truncateFrom ++ append }
      ((core.acknowledged { voteState := core.observe t, truncateFrom, append }).followLeader leader) := by
  unfold observing observe acknowledged installed installVote
  by_cases higher : core.currentTerm < t
  · rw [if_pos higher, if_pos higher]
    simp only [higher, if_true]
    exact ⟨rfl, rfl, rfl, rfl, rfl, rfl, rfl, rfl, rfl, rfl⟩
  · rw [if_neg higher, if_neg higher]
    exact ⟨rfl, rfl, rfl, rfl, rfl, rfl, rfl, rfl, rfl, rfl⟩

/-! ## Appends -/

theorem proven_index {i : Nat} (follows : Follows i entries) :
    (entries.getLast?.map (·.position.index)).getD i = i + entries.length := by
  cases last : entries.getLast? with
  | none =>
    rw [getLast?_eq_none_iff.mp last]
    rfl
  | some e =>
    rw [getLast?_eq_getElem?] at last
    have index := follows _ e last
    have := (List.getElem?_eq_some_iff.mp last).1
    simp only [map_some, getD_some]
    omega

variable {X : List LogEntry}

/-- A range that attaches to the core's log is the log it describes. -/
theorem CoreInv.range_eq (h : CoreInv first tr n k core)
    (describes : Describes X previous digest entries) (validX : ValidEntries X)
    (rooted : (electorate first).Rooted tr X) (holds : core.positionMatches previous digest) :
    core.log.take previous.index ++ entries = X := by
  rw [describes.take_eq h.ordered.contiguous h.valid validX h.sound.rooted rooted holds]
  exact describes.continues.symm

/-- Merging a range that attaches to the log adopts the log it describes, and keeps the
invariant when that log is sound. -/
theorem CoreInv.merges (h : CoreInv first tr n k core) (t : Nat)
    (describes : Describes X previous digest entries) (validX : ValidEntries X)
    (rooted : (electorate first).Rooted tr X) (holds : core.positionMatches previous digest)
    (follows : Follows previous.index entries) (validE : ValidEntries entries)
    (bound : entries ≠ [] → previous.index + entries.length ≤ u64Max)
    (delta : core.logDelta entries = .ok (truncateFrom, append)) :
    Electorate.Adopts ((observing core t).replica k) X (core.keptLog truncateFrom ++ append) ∧
      ((electorate first).Sound tr n
          { (observing core t).replica k with log := core.keptLog truncateFrom ++ append } →
        CoreInv first tr n k { observing core t with log := core.keptLog truncateFrom ++ append }) := by
  have le := positionMatches_le h.ordered.contiguous holds
  have fits := Fits.of_delta t h.ordered h.valid follows validE le bound delta
  have adopts := adopts_of_delta (k := k) h.ordered h.valid follows validE le delta
  rw [h.range_eq describes validX rooted holds] at adopts
  refine ⟨?_, (h.observes t).adopt (observing_role _)
    ((keptLog_contiguous h.ordered.contiguous _).append fits.follows)
    (ValidEntries.append (fun x mem => h.valid x ?_) fits.valid) (by rw [length_append]; exact fits.bounded)⟩
  · simp only [replica, observing_log, observing_commit] at adopts ⊢
    exact adopts
  · cases truncateFrom with
    | none => exact mem
    | some index => exact mem_of_mem_take mem

section

variable (v : (electorate first).Valid tr) (h : CoreInv first tr n k core)

include v h

/-- An accepted append: the core holds the part of the leader's log that the request describes, and
has acknowledged it. -/
theorem CoreInv.appended (ok : AppendOk first tr request)
    (wellFormed : validateAppendEntries request = .ok ())
    (plan : core.validatePlan request.membershipEpoch request.planDigest)
    (term : core.currentTerm ≤ request.term)
    (holds : core.positionMatches request.previous request.previousDigest)
    (delta : core.logDelta request.entries = .ok (truncateFrom, append)) :
    ∃ tr' X, Extends n tr tr' ∧ (electorate first).Valid tr' ∧
      CoreInv first tr' n k { observing core request.term with log := core.keptLog truncateFrom ++ append } ∧
      X.length = request.previous.index + request.entries.length ∧ Acked tr' request.term n X ∧
      X <+: core.keptLog truncateFrom ++ append ∧ X <+: led tr' request.term := by
  obtain ⟨-, follows, validE, -, bound⟩ := validateAppendEntries_spec wellFormed
  obtain ⟨X, j, inLed, describes, validX, phase, room⟩ := ok.range
  obtain rfl := h.phase_eq phase plan
  obtain ⟨-, -, rootedLed⟩ := v.led_spec request.term
  obtain ⟨adopts, adopted⟩ := h.merges request.term describes validX (rootedLed.initial inLed) holds follows
    validE (fun ne => (bound ne).le) delta
  have now : (observing core request.term).currentTerm = request.term := observing_term term
  obtain ⟨e, elected, termE⟩ := ok.elected
  have inNow : X <+: led tr (observing core request.term).currentTerm := by
    rw [now]
    exact inLed
  have sound := (h.observes request.term).sound.follow v (by simp [replica, RoleState.standing]) inNow elected
    (termE.trans now.symm) room adopts
  obtain ⟨v', sound'⟩ := sound.acknowledge v inNow elected (termE.trans now.symm) adopts.part
  have ext : Extends n tr (tr ++ [.ack ⟨n, (observing core request.term).currentTerm, j, X⟩]) := .ack rfl
  exact ⟨_, X, ext, v', (adopted sound).extend ext v' sound', describes.length,
    ⟨_, mem_append_right _ (mem_singleton.mpr rfl), rfl, now, prefix_rfl⟩, adopts.part,
    inLed.trans (ext.led v' _)⟩

omit v h in
/-- The leader's commit index, as far as the acknowledged log goes, is committed. -/
theorem known_of_append {L C : List LogEntry} (inL : X <+: L) (inLed : X <+: led tr t)
    (commit : C <+: led tr t) (known : C <+: committed tr) :
    L.take (min (min C.length X.length) L.length) <+: committed tr := by
  have short : L.take (min (min C.length X.length) L.length) <+: X :=
    prefix_of_prefix_length_le ( take_prefix ..) inL (by rw [length_take]; omega)
  refine (prefix_of_prefix_length_le (short.trans inLed) commit ?_).trans known
  rw [length_take]
  omega

/-- A follower that holds and has acknowledged the request's log learns its commit index and says so. -/
theorem accepted_handles (follows : core.role.standing = .follower) {reply : AppendResponse}
    (ok : AppendOk first tr request) (term : core.currentTerm = request.term)
    (acked : Acked tr request.term n X) (inL : X <+: core.log) (inLed : X <+: led tr request.term)
    (index : reply.matchedIndex = X.length) :
    Handles first tr n k (thenReply (·.appendReplyEffect sender reply)
      (core.advanceFollowerCommit (min request.leaderCommitIndex reply.matchedIndex))) := by
  obtain ⟨C, length, inLedC, known⟩ := ok.commit
  have handles := advanceFollowerCommit_handles v h follows (min request.leaderCommitIndex reply.matchedIndex)
    (by rw [← length, index]; exact known_of_append inL inLed inLedC known)
  refine handles.thenReply ?_
  intro tr' core' ext v' same inv accepted
  have now : core'.currentTerm = request.term := by rw [← same, ← term]; rfl
  refine ⟨X, ?_, index.symm⟩
  show Acked tr' core'.currentTerm n X
  rw [now]
  exact acked.mono ext

/-! ## Committed ranges -/

omit v h in
theorem Describes.lastTerm (h : Describes X previous digest entries) :
    (electorate first).lastTerm X = (entries.getLast?.map (·.position.term)).getD previous.term := by
  cases last : entries.getLast? with
  | some e =>
    refine Electorate.lastTerm_eq (E := electorate first) ?_
    rw [h.continues, getLast?_append, last, some_or]
  | none =>
    have nil := getLast?_eq_none_iff.mp last
    have length := h.length
    rw [nil, length_nil, add_zero] at length
    have attaches := h.attaches
    unfold endOf at attaches
    split at attaches
    · rename_i zero
      have genesis : LogPosition.genesis = previous := congrArg Prod.fst (some.inj attaches)
      rw [eq_nil_of_length_eq_zero (by omega : X.length = 0), ← genesis]
      rfl
    · obtain ⟨e, at_, names⟩ := map_eq_some_iff.mp attaches
      have position : e.position = previous := congrArg Prod.fst names
      rw [← length, ← getLast?_eq_getElem?] at at_
      rw [Electorate.lastTerm_eq at_, ← position]
      rfl

/-- An accepted committed range: the core holds the part of the committed log that it describes. -/
theorem CoreInv.installed {range : CommittedPrefix}
    (ok : RangeOk first tr (committed tr) range.previous range.previousDigest range.entries range.planDigest)
    (wellFormed : validateCommittedPrefix range = .ok ())
    (plan : core.validatePlan range.membershipEpoch range.planDigest)
    (holds : core.positionMatches range.previous range.previousDigest)
    (delta : core.logDelta range.entries = .ok (truncateFrom, append)) : CoreInv first tr n k
        { observing core (observedTerm range) with log := core.keptLog truncateFrom ++ append } ∧
      ∃ X, X.length = range.committedIndex ∧ X <+: core.keptLog truncateFrom ++ append ∧
        X <+: committed tr := by
  obtain ⟨follows, validE, -, index, bound⟩ := validateCommittedPrefix_spec wellFormed
  obtain ⟨X, j, inCommitted, describes, validX, phase, room⟩ := ok
  obtain rfl := h.phase_eq phase plan
  obtain ⟨sorted, rooted⟩ := v.committed_spec
  obtain ⟨adopts, adopted⟩ := h.merges (observedTerm range) describes validX (rooted.initial inCommitted) holds
    follows validE (index ▸ bound ·) delta
  have bounded : ∀ x ∈ X, (electorate first).term x ≤ (observing core (observedTerm range)).currentTerm :=
    fun x mem => calc
      (electorate first).term x ≤ (electorate first).lastTerm X := (sorted.initial inCommitted).le_lastTerm mem
      _ = observedTerm range := describes.lastTerm
      _ ≤ _ := (le_observing_term _).2
  have sound := (h.observes (observedTerm range)).sound.install v (by simp [replica, RoleState.standing])
    inCommitted bounded room adopts
  refine ⟨adopted sound, X, ?_, adopts.part, inCommitted⟩
  rw [describes.length, index]

end

/-- A core that holds a committed range learns that it is committed. -/
theorem finishCommittedPrefix_handles (v : (electorate first).Valid tr)
    (h : CoreInv first tr n k (core.followLeader none)) (inL : X <+: core.log)
    (inCommitted : X <+: committed tr) (sender : NodeId) :
    Handles first tr n k (core.finishCommittedPrefix sender X.length) := by
  refine (advanceFollowerCommit_handles v h rfl _ ?_).thenReply ?_
  · show core.log.take (min (max X.length core.commitIndex) core.log.length) <+: committed tr
    rcases le_total X.length core.commitIndex with le | le
    · rw [max_eq_right le]
      exact (take_prefix_take_left (min_le_left ..)).trans h.known
    · refine (prefix_of_prefix_length_le ( take_prefix ..) inL ?_).trans inCommitted
      rw [length_take]
      omega
  · intro tr' core' _ _ _ _ accepted
    cases accepted

/-! ## Read barriers -/

theorem ready_ok (ready : ∀ effect ∈ effects, ∃ id index, effect = CoreEffect.readBarrierReady id index) :
    ∀ effect ∈ effects, EffectOk first tr n effect := by
  intro effect mem
  obtain ⟨id, index, rfl⟩ := ready effect mem
  trivial

section

variable (v : (electorate first).Valid tr) (h : CoreInv first tr n k core)

include v h

theorem completeReadBarriers_handles :
    Handles first tr n k (core.completeReadBarriers.1, .ok core.completeReadBarriers.2) := by
  obtain ⟨barriered, ready⟩ := completeReadBarriers_spec
    (show core.completeReadBarriers = (core.completeReadBarriers.1, core.completeReadBarriers.2) from rfl)
  exact .quiet v (h.barriered barriered) (ready_ok ready)

theorem acknowledgeReadBarrier_handles (sender : NodeId) (barrier : Option Nat) :
    Handles first tr n k (core.acknowledgeReadBarrier sender barrier) := by
  generalize result : core.acknowledgeReadBarrier sender barrier = r
  obtain ⟨core', r⟩ := r
  obtain ⟨barriered, -, ready⟩ := acknowledgeReadBarrier_spec result
  refine .quiet v (h.barriered barriered) ?_
  cases r with
  | error err => nofun
  | ok effects => exact ready_ok (ready effects rfl)

theorem beginReadBarrier_handles (id : Nat) : Handles first tr n k (core.beginReadBarrier id) := by
  unfold beginReadBarrier
  split
  · exact .error v h _
  simp only
  split
  · rename_i state role
    split
    · exact .error v h _
    have opened : ∀ barriers, CoreInv first tr n k
        { core with role := .leader { state with readBarriers := barriers } } :=
      fun barriers => h.barriered (.inr ⟨state, barriers, role, rfl⟩)
    split
    · exact completeReadBarriers_handles v (opened _)
    · exact probeAll_handles v (opened _) _
  · exact .error v h _

theorem cancelReadBarrier_handles (id : Nat) : Handles first tr n k (core.cancelReadBarrier id) := by
  unfold cancelReadBarrier
  split
  · exact .error v h _
  split
  · rename_i state role
    exact .none v (h.barriered (.inr ⟨state, _, role, rfl⟩))
  · exact .none v h

theorem appliedThrough_handles (index : Nat) : Handles first tr n k (core.appliedThrough index) := by
  unfold appliedThrough
  split
  · exact .error v h _
  rename_i within
  have applied : CoreInv first tr n k { core with appliedIndex := index } :=
    h.congr ⟨rfl, rfl, rfl, rfl, rfl, rfl, rfl, rfl, rfl, rfl⟩ (by dsimp only; omega)
  exact completeReadBarriers_handles v applied

end

/-! ## Acknowledgements -/

variable {response : AppendResponse}

/-- A replication probe is matched only by an acceptance that proves its last index. -/
theorem receive_matched {probes probes' : AppendProbes}
    (h : probes.receive response = (probes', .ok (some (.matched index)))) :
    response.accepted = true ∧ response.matchedIndex = index := by
  unfold AppendProbes.receive at h
  split at h
  · cases h
  simp only at h
  split at h
  · cases h
  rename_i kind probe found
  split at h
  · cases h
  split at h
  · cases h
  rename_i proves
  split at h
  · cases h
  split at h
  · cases h
  simp only [Prod.mk.injEq, Except.ok.injEq, some.injEq] at h
  obtain ⟨-, h⟩ := h
  split at h
  · rename_i accepted
    cases h
    simp only [accepted, true_and, not_or, not_not] at proves
    exact ⟨accepted, proves.1⟩
  · cases h

theorem CoreInv.matched_response (v : (electorate first).Valid tr) (h : CoreInv first tr n k core)
    (leads : core.role.standing = .leader)
    (ok : MessageOk first tr sender n (.appendResponse response)) (term : response.term = core.currentTerm)
    (accepted : response.accepted) : MatchedOk tr core sender response.matchedIndex := by
  obtain ⟨P, ⟨a, mem, node, termA, part⟩, length⟩ := ok accepted
  obtain ⟨e, -, -, log⟩ := h.sound.leads leads
  have log : led tr core.currentTerm = core.log := log
  have inLog : a.log <+: core.log := by
    rw [← log, ← term, ← termA]
    exact v.ack_led mem
  refine ⟨by rw [← length]; exact (part.trans inLog).length_le, fun i le own => ?_⟩
  refine ⟨a, mem, node, termA.trans term, prefix_of_prefix_length_le ( take_prefix ..) inLog ?_⟩
  have := part.length_le
  rw [length_take]
  omega

theorem CoreInv.rematch (h : CoreInv first tr n k core) (leads : core.role.standing = .leader)
    (matched : ∀ q m, state.matched.get? q = some m → MatchedOk tr core q m) :
    CoreInv first tr n k { core with role := .leader state } := by
  have sound := h.sound
  unfold replica at sound
  rw [leads] at sound
  exact
    { h with
      ordered := { h.ordered with }
      sound := sound
      votes := fun _ mem => absurd mem OrdSet.not_mem_empty
      matched := fun q m at_ => (matched q m at_).congr (by rfl) (by rfl)
      own := fun _ => (h.own leads).congr (by rfl) (by rfl) }

section

variable (v : (electorate first).Valid tr) (h : CoreInv first tr n k core)

include v h

section

variable (role : core.role = .leader state)
  (ok : MessageOk first tr sender n (.appendResponse response))
  (term : response.term = core.currentTerm)

include role ok term

theorem absorbProof_inv
    (proves : ∀ index, proof = .matched index → response.accepted = true ∧ response.matchedIndex = index) :
    CoreInv first tr n k (core.absorbProof state sender response proof).1 := by
  have leads := standing_leader role
  have old : ∀ q m, state.matched.get? q = some m → MatchedOk tr core q m :=
    fun q m at_ => h.matched q m (by rw [role]; exact at_)
  cases proof with
  | contact => exact h
  | matched index =>
    obtain ⟨accepted, same⟩ := proves index rfl
    have proved := h.matched_response v leads ok term accepted
    rw [same] at proved
    have all : ∀ q m, (state.matched.insert sender
        (max ((state.matched.get? sender).getD 0) index)).get? q = some m → MatchedOk tr core q m := by
      intro q m at_
      rw [OrdMap.get?_insert] at at_
      split at at_
      · rename_i self
        cases at_
        subst self
        cases before : state.matched.get? q with
        | none =>
          rw [getD_none, zero_max]
          exact proved
        | some m =>
          rw [getD_some]
          rcases le_total m index with le | le
          · rw [max_eq_right le]
            exact proved
          · rw [max_eq_left le]
            exact old q m before
      · exact old q m at_
    simp only [absorbProof]
    split
    · exact h
    · split
      · exact h.rematch leads all
      · exact h.rematch leads all
  | conflict previousIndex latest =>
    simp only [absorbProof]
    split
    · split
      · exact h
      · exact h.rematch leads old
    · exact h

omit role ok term in
theorem finishResponse_handles (sender : NodeId) (response : AppendResponse) :
    Handles first tr n k (core.finishResponse sender response) := by
  have commits := advanceLeaderCommit_handles v h
  unfold finishResponse
  generalize core.advanceLeaderCommit = r at commits
  obtain ⟨core₁, r₁⟩ := r
  cases r₁ with
  | error err => exact commits
  | ok committed =>
    have both := commits.withEffects
      (fun tr' _ v' inv => acknowledgeReadBarrier_handles v' inv sender response.readBarrierId)
    dsimp only
    generalize core₁.acknowledgeReadBarrier sender response.readBarrierId = r at both
    obtain ⟨core₂, r₂⟩ := r
    cases r₂ with
    | error err => exact both
    | ok ready =>
      dsimp only
      split
      · exact both.withEffects fun tr' _ v' inv => probeAll_handles v' inv _
      · exact both

/-- A response in the leader's own term. -/
theorem leaderResponse_handles {probes : AppendProbes} {before : AppendProbes}
    (received : before.receive response = (probes, .ok (some proof))) : let state :=
  { state with probes := state.probes.insert sender probes }
    let core := { core with role := .leader state }
    Handles first tr n k
      (if proof = .contact then core.acknowledgeReadBarrier sender response.readBarrierId
       else match core.absorbProof state sender response proof with
        | (core, .error err) => (core, .error err)
        | (core, .ok ()) => core.finishResponse sender response) := by
  intro state' core'
  have recorded : CoreInv first tr n k core' :=
    h.congr ⟨rfl, rfl, rfl, rfl, rfl, rfl, rfl, by rw [role]; rfl, by rw [role]; rfl, by rw [role]; rfl⟩
      h.ordered.applied
  split
  · exact acknowledgeReadBarrier_handles v recorded _ _
  have absorbed := absorbProof_inv v recorded rfl ok term
    (fun index (same : proof = .matched index) => receive_matched (same ▸ received))
  generalize core'.absorbProof state' sender response proof = r at absorbed
  obtain ⟨core₁, r₁⟩ := r
  cases r₁ with
  | error err => exact .error v absorbed err
  | ok _ => exact finishResponse_handles v absorbed sender response

end

end

end MeshSpan
