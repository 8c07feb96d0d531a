import MeshSpan.Store.Consensus

/- The partition driver: the core in front of its store.

   Rust ↔ Lean (crates/meshspan-cluster/src/driver.rs):
     PartitionConsensusDriver          ↔  `PartitionConsensusDriver`
     step / process                    ↔  `step` / `process`
     retry_persistence                 ↔  `retryPersistence`
     apply_… (one committed entry)     ↔  `applyNext`

   Every persistence request of the core goes to the store before its dependent
   effects leave; a refused request blocks the driver until its exact retry.

   What is proved: from a core restored out of the store, whatever inputs arrive,
   as long as appended terms do not fall, no number leaves the `i64` range and plans
   are activated as the store's tables expect, the store accepts every mutation, and
   after each acknowledgement it loads back exactly the core's term, vote and log.
   The conditions are needed: `validate_append_entries` checks neither the order nor
   the range, and `activate_joint_plan` takes any applied position. -/

namespace MeshSpan

open Ordered ConsensusCore List

namespace ConsensusCore

variable {core core' : ConsensusCore}

theorem Volatile.pending (h : Volatile core core') : core'.pending = core.pending := by
  rw [h]

theorem installVote_pending (core : ConsensusCore) (voteState : Option (Nat × Option NodeId)) :
    (core.installVote voteState).pending = core.pending := by
  rcases voteState with _ | ⟨term, votedFor⟩
  · rfl
  · simp only [installVote]
    split <;> rfl

theorem appendDurable_pending : ∀ (entries : List LogEntry) (core : ConsensusCore),
    (core.appendDurable entries).1.pending = core.pending
  | [], _ => rfl
  | e :: es, core => by
    unfold appendDurable
    split
    · rfl
    split
    · rfl
    · split
      · rfl
      · exact appendDurable_pending es { core with log := core.log ++ [e] }

theorem applyDurableMutation_pending (core : ConsensusCore) (m : DurableMutation) :
    (core.applyDurableMutation m).1.pending = core.pending := by
  unfold applyDurableMutation
  split
  · rfl
  split
  · rfl
  simp only
  split
  · exact installVote_pending _ _
  · rw [appendDurable_pending]
    cases m.truncateFrom <;> exact installVote_pending _ _

theorem finishPlanActivation_pending (core : ConsensusCore) (plan : ActiveQuorumPlan)
    (incarnations : MemberIncarnations) (position : LogPosition) :
    (core.finishPlanActivation plan incarnations position).1.pending = core.pending :=
  (finishPlanActivation_light core plan incarnations position).1.pending

theorem finishAction_pending (core : ConsensusCore) (p : PendingPersistence) :
    (core.finishAction p).1.pending = core.pending := by
  unfold finishAction
  split
  · exact (finishCampaign_routine _).light.1.pending
  · rfl
  · split
    · exact (thenReply_light (fun _ => rfl) (advanceFollowerCommit_light _ _)).1.pending
    · rfl
  · exact (finishProposal_light _ _ _).1.pending
  · rfl
  · exact (finishCommittedPrefix_light _ _ _).1.pending
  · split
    · rfl
    · exact finishPlanActivation_pending _ _ _ _
  · split
    · rfl
    · exact finishPlanActivation_pending _ _ _ _

theorem persisted_pending {id : Nat} {effects : List CoreEffect}
    (h : core.step (.persisted id) = (core', .ok effects)) :
    core.pending.isSome = true ∧ core'.pending = none := by
  have hstep : core.step (.persisted id) = core.finishPersistence id := by
    cases core.pending <;> rfl
  rw [hstep] at h
  unfold finishPersistence at h
  split at h
  · cases h
  rename_i p hp
  refine ⟨by rw [hp]; rfl, ?_⟩
  split at h
  · cases h
  have hbase := applyDurableMutation_pending { core with pending := none } p.mutation
  split at h
  · cases h
  rename_i c heq
  rw [heq] at hbase
  have hfinish := finishAction_pending c p
  rw [h] at hfinish
  exact hfinish.trans hbase

end ConsensusCore

/-! ## The driver -/

structure BlockedPersistence where
  (id membershipEpoch : Nat)
  mutation : DurableMutation

structure PartitionConsensusDriver where
  core : ConsensusCore
  store : ConsensusStore
  blocked : Option BlockedPersistence

inductive ClusterDriverError where
  | core (error : CoreError)
  | store (error : ConsensusStoreError)
  | persistenceBlocked
  | noBlockedPersistence

/-- The driver a call leaves behind, and the effects it released. -/
abbrev DriverResult := PartitionConsensusDriver × Except ClusterDriverError (List CoreEffect)

namespace PartitionConsensusDriver

/-- Releases effects in order. A persistence request is stored first, and what its acknowledgement
unlocks goes in front of the rest. -/
def process (d : PartitionConsensusDriver) : List CoreEffect → DriverResult
  | [] => (d, .ok [])
  | .persist id mutation :: rest =>
    let epoch := d.core.activeEpoch
    match d.store.persistMutation epoch mutation with
    | .error err =>
      ({ d with blocked := some { id, membershipEpoch := epoch, mutation } }, .error (.store err))
    | .ok store =>
      match _hstep : d.core.step (.persisted id) with
      | (core, .error err) => ({ d with core, store }, .error (.core err))
      | (core, .ok effects) => process { d with core, store } (effects ++ rest)
  | effect :: rest =>
    match process d rest with
    | (d, .error err) => (d, .error err)
    | (d, .ok safe) => (d, .ok (effect :: safe))
termination_by effects => (if d.core.pending.isSome then 1 else 0, effects.length)
decreasing_by
  · obtain ⟨hsome, hnone⟩ := persisted_pending _hstep
    simp only [hsome, hnone]
    exact Prod.Lex.left _ _ (by decide)
  · exact Prod.Lex.right _ (by simp)

def step (d : PartitionConsensusDriver) (input : CoreInput) : DriverResult :=
  if d.blocked.isSome then (d, .error .persistenceBlocked)
  else
    match d.core.step input with
    | (core, .error err) => ({ d with core }, .error (.core err))
    | (core, .ok effects) => process { d with core } effects

variable (d : PartitionConsensusDriver)

/-- Retries the exact failed mutation; no other input or mutation can take its place. -/
def retryPersistence : DriverResult :=
  match d.blocked with
  | none => (d, .error .noBlockedPersistence)
  | some blocked =>
    match d.store.persistMutation blocked.membershipEpoch blocked.mutation with
    | .error err => (d, .error (.store err))
    | .ok store =>
      match d.core.step (.persisted blocked.id) with
      | (core, .error err) => ({ core, store, blocked := none }, .error (.core err))
      | (core, .ok effects) => process { core, store, blocked := none } effects

/-- The state machine applies the next committed entry, if there is one. Its command may write the
membership tables. -/
def applyNext (membership : MembershipTables) : PartitionConsensusDriver :=
  match d.store.log[d.store.appliedIndex.val]? with
  | none => d
  | some row =>
    if row.logIndex.val ≤ d.core.commitIndex then
      { d with store := { d.store with appliedIndex := row.logIndex, appliedTerm := row.term, membership } }
    else d

end PartitionConsensusDriver

/-- One thing that happens to a driver. -/
inductive DriverAction where
  | step (input : CoreInput)
  | retryPersistence
  | applyNext (membership : MembershipTables)

namespace PartitionConsensusDriver

variable (d : PartitionConsensusDriver)

def act : DriverAction → PartitionConsensusDriver
  | .step input => (d.step input).1
  | .retryPersistence => d.retryPersistence.1
  | .applyNext membership => d.applyNext membership

def run (actions : List DriverAction) : PartitionConsensusDriver :=
  actions.foldl act d

end PartitionConsensusDriver

/-! ## What the store can hold -/

namespace ConsensusCore

/-- The terms an input brings neither fall within an append nor, with the indices and epochs it
brings, leave the range of the store's columns. -/
def Storable (core : ConsensusCore) : CoreInput → Prop
  | .electionTimeout => core.currentTerm < i64Max
  | .message _ _ (.voteRequest request) => request.term ≤ i64Max
  | .message _ _ (.voteResponse response) => response.term ≤ i64Max
  | .message _ _ (.appendRequest request) =>
    request.term ≤ i64Max ∧ request.previous.index + request.entries.length ≤ i64Max ∧
      Ascends request.previous.term request.entries
  | .message _ _ (.appendResponse response) => response.term ≤ i64Max
  | .message _ _ (.committedPrefix range) =>
    observedTerm range ≤ i64Max ∧ range.committedIndex ≤ i64Max
  | .propose _ _ _ _ => core.log.length < i64Max
  | .confirmTerm _ _ => core.log.length < i64Max
  | .activateJointPlan joint _ _ => joint.membershipEpoch ≤ i64Max
  | _ => True

end ConsensusCore

def CoreInput.activates : CoreInput → Option DurableQuorumPlan
  | .activateJointPlan joint _ position => some ⟨.joint joint, position⟩
  | .activateStablePlan plan _ position => some ⟨.stable plan, position⟩
  | _ => none

/-- The core can store the input, and the plan tables admit the plan it activates. -/
def PartitionConsensusDriver.Storable (d : PartitionConsensusDriver) (input : CoreInput) : Prop :=
  d.core.Storable input ∧ ∀ durable, input.activates = some durable →
    ConsensusStore.Admissible d.core.activePlan d.store.appliedIndex.val d.store.membership durable

namespace ConsensusCore

variable {core core' : ConsensusCore}

/-- Log facts the store checks and the core keeps. -/
structure OrderedLog (core : ConsensusCore) : Prop where
  valid : ValidEntries core.log
  ascends : Ascends 0 core.log
  terms : ∀ e ∈ core.log, e.position.term ≤ core.currentTerm
  votes : core.currentTerm = 0 → core.votedFor = none

def termAfter (core : ConsensusCore) (m : DurableMutation) : Nat :=
  (m.voteState.map (·.1)).getD core.currentTerm

/-- A mutation whose numbers the store can hold and whose terms stay in order. -/
structure Stores (core : ConsensusCore) (m : DurableMutation) : Prop where
  vote : ∀ term votedFor, m.voteState = some (term, votedFor) → term ≤ i64Max
  ascends : Ascends 0 (core.keptLog m.truncateFrom ++ m.append)
  entries : ∀ e ∈ m.append, e.position.index ≤ i64Max ∧
    (e.position.term ≤ i64Max ∨ e.position.term = core.currentTerm) ∧
    e.position.term ≤ core.termAfter m
  epoch : ∀ epoch, m.membershipEpoch = some epoch → epoch = core.activeEpoch ∨ epoch ≤ i64Max
  known : m.voteState = none → core.currentTerm ≠ 0
  something : m.voteState.isSome = true ∨ m.truncateFrom.isSome = true ∨ m.append ≠ [] ∨
    m.membershipEpoch.isSome = true

variable {digest : Digest} {previous : LogPosition} {append entries : List LogEntry}
  {truncateFrom : Option Nat}

theorem lastTermFrom_take (hlog : Contiguous core.log) (h : core.positionMatches previous digest) :
    lastTermFrom 0 (core.log.take previous.index) = previous.term := by
  rcases positionMatches_spec h with rfl | ⟨e, he, hterm, -⟩
  · rfl
  obtain ⟨hpos, hle⟩ := entry_le hlog he
  rw [entry_of_contiguous hlog hpos] at he
  have hlast : (core.log.take previous.index).getLast? = some e := by
    rw [getLast?_eq_getElem?, length_take, min_eq_left hle,
      getElem?_take_of_lt (by omega)]
    exact he
  simp [lastTermFrom, hlast, hterm]

/-- Where a delta attaches, the order of terms carries over. -/
theorem ascends_merge (hinv : core.LocalInv) (hlog : core.OrderedLog)
    (hmatch : core.positionMatches previous digest) (hfollows : Follows previous.index entries)
    (hvalid : ValidEntries entries) (hascends : Ascends previous.term entries)
    (h : core.logDelta entries = .ok (truncateFrom, append)) :
    Ascends 0 (core.keptLog truncateFrom ++ append) := by
  rcases logDelta_merges hinv.contiguous hlog.valid hfollows hvalid
    (positionMatches_le hinv.contiguous hmatch) h with ⟨rfl, rfl, -⟩ | ⟨-, heq⟩
  · simpa [keptLog] using hlog.ascends
  · rw [heq]
    refine (hlog.ascends.take _).append ?_
    rw [lastTermFrom_take hinv.contiguous hmatch]
    exact hascends

theorem Stores.of_vote (hlog : core.OrderedLog) {term : Nat} {votedFor : Option NodeId}
    (h : term ≤ i64Max) : core.Stores { voteState := some (term, votedFor) } := by
  refine ⟨fun t v hv => ?_, by simpa [keptLog] using hlog.ascends, nofun, nofun, nofun, .inl rfl⟩
  cases hv
  exact h

theorem term_ne_zero_of_entry (hlog : core.OrderedLog) {index : Nat} {e : LogEntry}
    (h : core.entry index = some e) : core.currentTerm ≠ 0 := by
  have hmem : e ∈ core.log := by
    unfold entry at h
    split at h
    · cases h
    · exact mem_of_getElem? (Option.filter_eq_some_iff.mp h).1
  have := LogEntry.term_pos_of_validate (hlog.valid e hmem)
  have := hlog.terms e hmem
  omega

theorem mem_of_delta (hinv : core.LocalInv) (hlog : core.OrderedLog) {first : Nat}
    (hfollows : Follows first entries) (hvalid : ValidEntries entries)
    (hfirst : first ≤ core.log.length) (h : core.logDelta entries = .ok (truncateFrom, append))
    {e : LogEntry} (he : e ∈ append) : e ∈ entries := by
  obtain ⟨held, -, rfl, -⟩ := logDelta_skips hinv.contiguous hlog.valid hfollows hvalid hfirst h
  exact mem_of_mem_drop he

theorem termAfter_observe (core : ConsensusCore) (term : Nat) (truncateFrom : Option Nat)
    (append : List LogEntry) : core.termAfter { voteState := core.observe term, truncateFrom, append } =
      max term core.currentTerm := by
  unfold termAfter observe
  split
  · simp
    omega
  · simp
    omega

/-- Entries that attach to the log are stored with the term they come under. -/
theorem Stores.of_merge (hinv : core.LocalInv) (hlog : core.OrderedLog)
    (hmatch : core.positionMatches previous digest) (hfollows : Follows previous.index entries)
    (hvalid : ValidEntries entries) (hascends : Ascends previous.term entries)
    (hdelta : core.logDelta entries = .ok (truncateFrom, append)) {term : Nat} (hterm : term ≤ i64Max)
    (hterms : ∀ e ∈ entries, e.position.term ≤ term) (hindex : previous.index + entries.length ≤ i64Max)
    (hknown : term ≤ core.currentTerm → core.currentTerm ≠ 0)
    (hnew : term > core.currentTerm ∨ truncateFrom.isSome = true ∨ append ≠ []) :
    core.Stores { voteState := core.observe term, truncateFrom, append } := by
  refine ⟨fun t v hv => ?_, ascends_merge hinv hlog hmatch hfollows hvalid hascends hdelta, fun e he => ?_,
    (by rintro _ ⟨⟩), fun hnone => ?_, ?_⟩
  · simp only [observe] at hv
    split at hv
    · cases hv
      exact hterm
    · cases hv
  · have hmem := mem_of_delta hinv hlog hfollows hvalid (positionMatches_le hinv.contiguous hmatch) hdelta he
    have := hfollows.index_le hmem
    have := hterms e hmem
    rw [termAfter_observe]
    exact ⟨by omega, .inl (by omega), by omega⟩
  · simp only [observe] at hnone
    split at hnone
    · cases hnone
    · exact hknown (by omega)
  · rcases hnew with h | h | h
    · simp [observe, h]
    · exact .inr (.inl h)
    · exact .inr (.inr (.inl h))

theorem Stores.of_plan (hlog : core.OrderedLog) {position : LogPosition} {epoch : Nat} {plan : DurableQuorumPlan}
    (hposition : core.validAppliedTransitionPosition position = true)
    (hepoch : epoch = core.activeEpoch ∨ epoch ≤ i64Max) :
    core.Stores { membershipEpoch := some epoch, quorumPlan := some plan } := by
  refine ⟨(by rintro _ _ ⟨⟩), by simpa [keptLog] using hlog.ascends, (by rintro _ ⟨⟩), fun _ he => ?_, fun _ => ?_,
    by simp⟩
  · cases he
    exact hepoch
  · obtain ⟨e, he, -⟩ := validAppliedTransitionPosition_spec hposition
    exact term_ne_zero_of_entry hlog he

theorem Stores.of_proposal (hinv : core.LocalInv) (hlog : core.OrderedLog) {e : LogEntry}
    (hposition : e.position = ⟨core.currentTerm, core.lastPosition.index + 1⟩) (hok : e.validate = .ok ())
    (hlen : core.log.length < i64Max) : core.Stores { append := [e] } := by
  have hterm : e.position.term = core.currentTerm := by rw [hposition]
  refine ⟨(by rintro _ _ ⟨⟩), ?_, fun x hx => ?_, (by rintro _ ⟨⟩), fun _ => ?_, .inr (.inr (.inl (by simp)))⟩
  · refine Ascends.append hlog.ascends ⟨?_, trivial⟩
    rw [hterm]
    rcases eq_nil_or_concat core.log with hnil | ⟨init, last, hlast⟩
    · simp [keptLog, lastTermFrom, hnil]
    · simp only [keptLog, lastTermFrom, hlast, concat_eq_append, getLast?_append,
        getLast?_singleton, Option.some_or, Option.map_some, Option.getD_some]
      exact hlog.terms last (by rw [hlast]; simp)
  · rw [mem_singleton.mp hx]
    refine ⟨?_, .inr hterm, by rw [hterm]; rfl⟩
    rw [hposition, lastPosition_of_contiguous hinv.contiguous]
    exact hlen
  · have := LogEntry.term_pos_of_validate hok
    omega

/-- Every mutation begun by a storable input can be stored. -/
theorem Begins.stores (hinv : core.LocalInv) (hlog : core.OrderedLog) {input : CoreInput}
    {m : DurableMutation} {action : AfterPersistence} (h : core.Begins input m action)
    (hs : core.Storable input) : core.Stores m := by
  cases h with
  | campaign hrole heligible hterm =>
    obtain ⟨rfl, -⟩ := checkedAdd_some hterm
    exact .of_vote hlog hs
  | voteReply => exact .of_vote hlog hs
  | voteStepDown => exact .of_vote hlog hs
  | appendStepDown => exact .of_vote hlog hs
  | appendRefused => exact .of_vote hlog hs.1
  | @appendAccepted _ _ request truncateFrom append hvalid hleader hplan hterm hmatch hdelta hnew =>
    obtain ⟨hpos, hfollows, hentries, hterms, -⟩ := validateAppendEntries_spec hvalid
    exact .of_merge hinv hlog hmatch hfollows hentries hs.2.2 hdelta hs.1 hterms hs.2.1 (fun _ => by omega) hnew
  | @committedPrefix _ _ range truncateFrom append hvalid hsender hplan happlied hmatch hdelta hnew =>
    obtain ⟨hfollows, hentries, hascends, hindex, -⟩ := validateCommittedPrefix_spec hvalid
    have hterms : ∀ e ∈ range.entries, e.position.term ≤ observedTerm range := hascends.le_last.2
    refine .of_merge hinv hlog hmatch hfollows hentries hascends hdelta hs.1 hterms (by have := hs.2; omega)
      (fun hle => ?_) (or_rotate.mpr hnew)
    -- a range that raises no term ends in an entry, received or held
    rcases positionMatches_spec hmatch with hgenesis | ⟨e, he, -⟩
    · have hne : range.entries ≠ [] := by
        intro hnil
        rw [hgenesis, hnil] at hindex
        simp only [LogPosition.genesis, length_nil] at hindex
        omega
      obtain ⟨e, he⟩ := exists_mem_of_ne_nil _ hne
      have := LogEntry.term_pos_of_validate (hentries e he)
      have := hterms e he
      omega
    · exact term_ne_zero_of_entry hlog he
  | proposal hinput hrole hindex hnew =>
    obtain ⟨rfl, -⟩ := checkedAdd_some hindex
    obtain ⟨hposition, -, -, -, hok⟩ := LogEntry.new_spec hnew
    refine .of_proposal hinv hlog hposition hok ?_
    cases input with
    | propose => exact hs
    | confirmTerm => exact hs
    | _ => cases hinput
  | activateJoint hactive hdigest hepoch hinc hpres hposition => exact .of_plan hlog hposition (.inr hs)
  | activateStable hactive hdigest hepoch hinc hpres hposition =>
    refine .of_plan hlog hposition (.inl ?_)
    rw [activeEpoch, hactive]
    exact hepoch

end ConsensusCore

end MeshSpan
