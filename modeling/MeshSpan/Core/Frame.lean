import MeshSpan.Core.State

/- What each part of the core leaves unchanged.

   Probing a peer touches only the leader's probe table and the probe counter;
   read barriers touch only the leader's barrier table; commit advances touch
   only the commit index. The lemmas here say so once, and every later proof
   about a step composes them. -/

namespace MeshSpan

open Ordered

namespace ConsensusCore

variable {core core' : ConsensusCore}

/-! ## Probes -/

/-- The core after some probes: only the probe table and the probe counter moved. -/
def Probed (core core' : ConsensusCore) : Prop :=
  core' = core ∨ ∃ state probes counter, core.role = .leader state ∧
    core' = { core with
      role := .leader { state with probes }, nextAppendProbeId := counter }

theorem Probed.refl : Probed core core := .inl rfl

theorem Probed.trans {core'' : ConsensusCore} (h : Probed core core') (h' : Probed core' core'') :
    Probed core core'' := by
  rcases h with rfl | ⟨state, probes, counter, hrole, rfl⟩
  · exact h'
  rcases h' with rfl | ⟨state', probes', counter', hrole', rfl⟩
  · exact .inr ⟨state, probes, counter, hrole, rfl⟩
  · cases hrole'
    exact .inr ⟨state, probes', counter', hrole, rfl⟩

/-- The position and digest below which a range attaches are those of the log at that index. -/
def AttachesTo (core : ConsensusCore) (previous : LogPosition) (digest : Digest) : Prop :=
  core.positionAt previous.index = some (previous, digest)

/-- An append request that describes the log, term and phase of the core that sends it. -/
structure RequestOf (core : ConsensusCore) (peer : NodeId) (barrier : Option Nat)
    (request : AppendRequest) : Prop where
  term : request.term = core.currentTerm
  leader : request.leader = core.config.localNodeId
  incarnation : request.leaderIncarnation = core.config.localIncarnation
  commit : request.leaderCommitIndex = core.commitIndex
  epoch : request.membershipEpoch = core.activeEpoch
  digest : request.planDigest = core.activeDigest
  barrier : request.readBarrierId = barrier
  attaches : core.AttachesTo request.previous request.previousDigest
  entries : request.entries = [] ∨
    request.entries = core.replicationEntries peer (request.previous.index + 1) u64Max

theorem entry_index {index : Nat} {e : LogEntry} (h : core.entry index = some e) :
    e.position.index = index := by
  unfold entry at h
  split at h
  · cases h
  · simpa using (Option.filter_eq_some_iff.mp h).2

theorem positionAt_index {index : Nat} {position : LogPosition} {digest : Digest}
    (h : core.positionAt index = some (position, digest)) : position.index = index := by
  unfold positionAt at h
  split at h
  · rename_i h0
    cases h
    exact h0.symm
  · obtain ⟨e, he, heq⟩ := Option.map_eq_some_iff.mp h
    cases heq
    exact entry_index he

variable {peer : NodeId} {kind : ProbeKind} {barrier : Option Nat} {request : AppendRequest}
  {state : LeaderState} {result : Except CoreError CoreEffect}

theorem probeRequest_spec (h : core.probeRequest state peer kind barrier = .ok request) :
    core.RequestOf peer barrier request ∧ request.probeId = core.nextAppendProbeId ∧
      request.previous.index = previousIndex state peer kind := by
  unfold probeRequest at h
  split at h
  · cases h
  rename_i previous digest hpos
  have hindex := positionAt_index hpos
  rw [← hindex] at h hpos
  cases kind with
  | contact =>
    cases h
    exact ⟨⟨rfl, rfl, rfl, rfl, rfl, rfl, rfl, hpos, .inl rfl⟩, rfl, hindex⟩
  | replication =>
    cases hadd : checkedAdd previous.index 1 with
    | none => simp [hadd] at h
    | some start =>
      simp only [hadd, Option.map_some] at h
      cases h
      refine ⟨⟨rfl, rfl, rfl, rfl, rfl, rfl, rfl, hpos, .inr ?_⟩, rfl, hindex⟩
      rw [(checkedAdd_some hadd).1]

/-- One probe either fails and changes nothing, or records and sends one append. -/
theorem probeEffect_cases (h : core.probeEffect peer kind barrier = (core', result)) :
    (core' = core ∧ ∃ err, result = .error err) ∨
    ∃ state unnumbered id counter, core.role = .leader state ∧
      core.probeRequest state peer kind barrier = .ok unnumbered ∧
      core.probeNumber state peer kind unnumbered = .ok (id, counter) ∧
      result = .ok (.send peer (.appendRequest { unnumbered with probeId := id })) ∧
      core' = core.recordProbe state peer kind counter { unnumbered with probeId := id } := by
  unfold probeEffect at h
  split at h
  · rename_i state hrole
    split at h
    · cases h
      exact .inl ⟨rfl, _, rfl⟩
    · rename_i unnumbered hreq
      split at h
      · cases h
        exact .inl ⟨rfl, _, rfl⟩
      · rename_i id counter hnum
        cases h
        exact .inr ⟨state, unnumbered, id, counter, hrole, hreq, hnum, rfl, rfl⟩
  · cases h
    exact .inl ⟨rfl, _, rfl⟩

theorem probeEffect_spec (h : core.probeEffect peer kind barrier = (core', result)) :
    core.Probed core' ∧ ∀ effect, result = .ok effect →
      ∃ request, effect = .send peer (.appendRequest request) ∧
        core.RequestOf peer barrier request := by
  rcases probeEffect_cases h with ⟨rfl, err, rfl⟩ | ⟨state, request, id, counter, hrole, hreq, _, rfl, rfl⟩
  · exact ⟨.refl, fun _ he => by cases he⟩
  refine ⟨.inr ⟨state, _, counter, hrole, rfl⟩, fun effect he => ?_⟩
  cases he
  obtain ⟨hof, _, _⟩ := probeRequest_spec hreq
  exact ⟨_, rfl, { hof with }⟩

theorem RequestOf.of_probed (hp : core.Probed core') (h : core'.RequestOf peer barrier request) :
    core.RequestOf peer barrier request := by
  rcases hp with rfl | ⟨state, probes, counter, _, rfl⟩
  · exact h
  · exact { h with }

/-- Probing a list of peers sends only appends that describe the core it started from. -/
theorem probeAll_spec : ∀ {probes : List (NodeId × ProbeKind × Option Nat)} {core core' : ConsensusCore}
    {result : Except CoreError (List CoreEffect)}, core.probeAll probes = (core', result) →
    core.Probed core' ∧ ∀ effects, result = .ok effects → ∀ effect ∈ effects,
      ∃ peer kind barrier request, (peer, kind, barrier) ∈ probes ∧
        effect = .send peer (.appendRequest request) ∧ core.RequestOf peer barrier request
  | [], core, core', result, h => by
    cases h
    exact ⟨.refl, fun _ he _ hmem => by cases he; cases hmem⟩
  | (peer, kind, barrier) :: rest, core, core', result, h => by
    unfold probeAll at h
    split at h
    · rename_i core₁ err hone
      cases h
      exact ⟨(probeEffect_spec hone).1, fun _ he => by cases he⟩
    · rename_i core₁ effect hone
      obtain ⟨hp, heff⟩ := probeEffect_spec hone
      split at h
      · rename_i core₂ err hrest
        cases h
        exact ⟨hp.trans (probeAll_spec hrest).1, fun _ he => by cases he⟩
      · rename_i core₂ effects hrest
        obtain ⟨hp', heffs⟩ := probeAll_spec hrest
        cases h
        refine ⟨hp.trans hp', fun all he e hmem => ?_⟩
        cases he
        rcases List.mem_cons.mp hmem with rfl | hmem
        · obtain ⟨request, rfl, hof⟩ := heff _ rfl
          exact ⟨peer, kind, barrier, request, List.mem_cons_self, rfl, hof⟩
        · obtain ⟨p, k, b, request, hin, rfl, hof⟩ := heffs _ rfl e hmem
          exact ⟨p, k, b, request, List.mem_cons_of_mem _ hin, rfl, hof.of_probed hp⟩

/-! ## Read barriers -/

/-- The core after barrier bookkeeping: only the leader's barrier table moved. -/
def Barriered (core core' : ConsensusCore) : Prop :=
  core' = core ∨ ∃ state barriers, core.role = .leader state ∧
    core' = { core with role := .leader { state with readBarriers := barriers } }

theorem completeReadBarriers_spec {effects : List CoreEffect}
    (h : core.completeReadBarriers = (core', effects)) :
    core.Barriered core' ∧ ∀ effect ∈ effects, ∃ id index, effect = .readBarrierReady id index := by
  unfold completeReadBarriers at h
  split at h
  · split at h
    · rename_i state hrole
      cases h
      refine ⟨.inr ⟨state, _, hrole, rfl⟩, fun effect hmem => ?_⟩
      obtain ⟨e, _, rfl⟩ := List.mem_map.mp hmem
      exact ⟨_, _, rfl⟩
    · cases h
      exact ⟨.inl rfl, fun _ hmem => by cases hmem⟩
  · cases h
    exact ⟨.inl rfl, fun _ hmem => by cases hmem⟩

theorem Barriered.of_table {barriers : OrdMap Nat ReadBarrierState} (hrole : core.role = .leader state)
    (h : Barriered { core with role := .leader { state with readBarriers := barriers } } core') :
    core.Barriered core' := by
  rcases h with rfl | ⟨state', barriers', hrole', rfl⟩
  · exact .inr ⟨state, barriers, hrole, rfl⟩
  · cases hrole'
    exact .inr ⟨state, barriers', hrole, rfl⟩

/-- Counting a read contact emits only completed barriers, and fails only on the zero id. -/
theorem acknowledgeReadBarrier_spec {sender : NodeId} {result : Except CoreError (List CoreEffect)}
    (h : core.acknowledgeReadBarrier sender barrier = (core', result)) :
    core.Barriered core' ∧ (∀ err, result = .error err → barrier = some 0) ∧
      ∀ effects, result = .ok effects → ∀ effect ∈ effects,
        ∃ id index, effect = .readBarrierReady id index := by
  unfold acknowledgeReadBarrier at h
  split at h
  · cases h
    exact ⟨.inl rfl, nofun, fun _ he _ hmem => by cases he; cases hmem⟩
  · split at h
    · rename_i hzero
      cases h
      exact ⟨.inl rfl, fun _ _ => by rw [hzero], nofun⟩
    · split at h
      · rename_i state hrole
        split at h
        · cases h
          exact ⟨.inl rfl, nofun, fun _ he _ hmem => by cases he; cases hmem⟩
        · simp only at h
          generalize hc : completeReadBarriers _ = r at h
          obtain ⟨c, effects⟩ := r
          obtain ⟨hb, heff⟩ := completeReadBarriers_spec hc
          cases h
          exact ⟨.of_table hrole hb, nofun, fun _ he => by cases he; exact heff⟩
      · cases h
        exact ⟨.inl rfl, nofun, fun _ he _ hmem => by cases he; cases hmem⟩

/-! ## Commit -/

/-- A leader's commit either stays or moves to an index in `candidates` that a commit quorum of
matched members covers in the current term. -/
theorem quorumIndex_spec {matched : OrdMap NodeId Nat} : ∀ {candidates : List Nat} {index : Nat},
    core.quorumIndex matched candidates = .ok (some index) →
    index ∈ candidates ∧ core.ofCurrentTerm index = true ∧
      core.activePlan.satisfies .commit
        (matched.retain fun _ m => decide (m ≥ index)).keys = true
  | [], index, h => by cases h
  | candidate :: rest, index, h => by
    unfold quorumIndex at h
    split at h
    · cases h
    rename_i e he
    split at h
    · obtain ⟨hmem, hterm, hsat⟩ := quorumIndex_spec h
      exact ⟨List.mem_cons_of_mem _ hmem, hterm, hsat⟩
    · rename_i hterm
      split at h
      · rename_i hsat
        cases h
        refine ⟨List.mem_cons_self, ?_, hsat⟩
        simp only [not_not] at hterm
        simp [ofCurrentTerm, he, hterm]
      · obtain ⟨hmem, hterm, hsat⟩ := quorumIndex_spec h
        exact ⟨List.mem_cons_of_mem _ hmem, hterm, hsat⟩

end ConsensusCore

end MeshSpan
