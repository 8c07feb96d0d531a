import MeshSpan.Quorum.Command

/- The rows of a partition's consensus store and its quorum-plan tables.

   Rust ↔ Lean (crates/meshspan-metadata/src/repository/quorum_plan.rs):
     consensus_active_quorum_plan row  ↔  `PlanRow`
     consensus_quorum_plans row        ↔  `PlanHistoryRow`
     metadata_partitions, partition_voters, nodes
                                       ↔  `MembershipTables`
     load_from_connection              ↔  `loadPlan`
     persist                           ↔  `persistPlan`

   The canonical bytes of the active row stand as the plan they decode to; its phase
   and record version repeat the plan. Member roles and states are kept as coded.

   Left out: timestamps, the constant partition id, the bootstrap of a store and
   plans installed by a recovery (activation kind 2).

   What is proved: an `Admissible` plan is taken, and the store then loads it. -/

namespace MeshSpan

open Ordered List Option

inductive ConsensusStoreError where
  | sqlite
  | core (error : CoreError)
  | corruptState
  | invalidMutation
  | membershipEpochMismatch
  | missingQuorumPlan
  | invalidQuorumPlan
  | quorumPlanRecord (error : QuorumPlanRecordError)
deriving DecidableEq

structure VoteRow where
  currentTerm : SqlInt
  votedFor : Option NodeId
  membershipEpoch : SqlInt
deriving DecidableEq

structure LogRow where
  (logIndex term : SqlInt)
  entryVersion : Nat
  operationId : OperationId
  command : List Nat
  payloadDigest : Digest
deriving DecidableEq

structure PlanRow where
  plan : ActiveQuorumPlan
  membershipEpoch : SqlInt
  proofDigest : Digest
  (activatedIndex activatedTerm : SqlInt)
deriving DecidableEq

structure PlanHistoryRow where
  membershipEpoch : SqlInt
  canonicalPlan : List Nat
  proofDigest : Digest
deriving DecidableEq

structure MemberRow where
  membershipRevision : SqlInt
  (memberRole state : Nat)
deriving DecidableEq

structure MembershipTables where
  /-- `current_membership_revision`, if the partition's own row is active. -/
  revision : Option SqlInt
  voters : OrdMap NodeId MemberRow
  /-- The state of each node. -/
  nodes : OrdMap NodeId Nat
deriving DecidableEq

structure ConsensusStore where
  vote : Option VoteRow
  log : List LogRow
  (appliedIndex appliedTerm : SqlInt)
  activePlan : Option PlanRow
  /-- By log index. -/
  plans : OrdMap Nat PlanHistoryRow
  membership : MembershipTables
deriving DecidableEq

def planI64 (value : Nat) : Except ConsensusStoreError SqlInt :=
  if h : value ≤ i64Max then .ok ⟨value, h⟩ else .error .invalidQuorumPlan

def encodePlan (plan : ActiveQuorumPlan) : Except ConsensusStoreError (List Nat) :=
  plan.encode.mapError .quorumPlanRecord

/-! ## The membership projection -/

/-- `state IN (1, 2)` -/
def present (state : Nat) : Bool := state == 1 || state == 2

namespace MembershipTables

variable (tables : MembershipTables)

def members : OrdSet NodeId := (tables.voters.retain fun _ row => present row.state).keys

def updateMember (epoch : SqlInt) (memberRole state : Nat) (node : NodeId) :
    Except ConsensusStoreError MembershipTables :=
  if (tables.voters.get? node).any fun row => present row.state then
    .ok { tables with voters := tables.voters.insert node ⟨epoch, memberRole, state⟩ }
  else .error .invalidQuorumPlan

/-- A voter becomes active, as a member and as a node. -/
def updateVoter (epoch : SqlInt) (voter : NodeId) : Except ConsensusStoreError MembershipTables := do
  let tables ← tables.updateMember epoch 1 1 voter
  if (tables.nodes.get? voter).any present then
    .ok { tables with nodes := tables.nodes.insert voter 2 }
  else .error .invalidQuorumPlan

def synchroniseMembershipProjection (plan : CompiledQuorumPlan) :
    Except ConsensusStoreError MembershipTables :=
  match tables.revision with
  | none => .ok tables
  | some current => do
    let epoch ← planI64 plan.spec.membershipEpoch
    if current.val ≠ epoch.val - 1 then .error .invalidQuorumPlan
    else if tables.members ≠ plan.members then .error .invalidQuorumPlan
    else do
      let tables ← plan.spec.voters.elems.foldlM (fun tables => tables.updateVoter epoch) tables
      let tables ← plan.spec.learners.elems.foldlM (fun tables => tables.updateMember epoch 2 2) tables
      return { tables with revision := some epoch }

end MembershipTables

/-! ## The active plan and its history -/

def PlanRow.position (row : PlanRow) : LogPosition := ⟨row.activatedTerm.val, row.activatedIndex.val⟩

def PlanRow.validHeader (row : PlanRow) : Bool :=
  row.membershipEpoch.val = row.plan.membershipEpoch ∧ row.proofDigest = row.plan.proofDigest ∧
    row.position.isValid

def validSuccessor : ActiveQuorumPlan → ActiveQuorumPlan → Bool
  | .stable old, .joint joint => old = joint.old
  | .joint joint, .stable new => joint.new = new
  | _, _ => false

namespace ConsensusStore

variable (store : ConsensusStore) (position : LogPosition) (durable : DurableQuorumPlan)

def verifyTransitionEntry : Except ConsensusStoreError Unit := do
  let logIndex ← planI64 position.index
  let term ← planI64 position.term
  if store.log.any fun row => row.logIndex = logIndex ∧ row.term = term then .ok ()
  else .error .invalidQuorumPlan

def verifyTransitionHistory (active : ActiveQuorumPlan) : Except ConsensusStoreError Unit := do
  let logIndex ← planI64 position.index
  match store.plans.get? logIndex.val with
  | none => .error .invalidQuorumPlan
  | some row =>
    if row.membershipEpoch.val ≠ active.membershipEpoch then .error .invalidQuorumPlan
    else do
      let canonical ← encodePlan active
      if row.canonicalPlan ≠ canonical ∨ row.proofDigest ≠ active.proofDigest then
        .error .invalidQuorumPlan
      else .ok ()

/-- A plan that is not the bootstrap one must stand in the log and in the history. -/
def loadPlan : Except ConsensusStoreError (Option ActiveQuorumPlan) :=
  match store.activePlan with
  | none => .ok none
  | some row =>
    if row.validHeader = false then .error .invalidQuorumPlan
    else if row.position = .genesis then .ok (some row.plan)
    else do
      store.verifyTransitionEntry row.position
      store.verifyTransitionHistory row.position row.plan
      return some row.plan

def verifyEpoch (epoch : Nat) : Except ConsensusStoreError Unit := do
  match ← store.loadPlan with
  | none => .error .missingQuorumPlan
  | some active =>
    if active.membershipEpoch = epoch then .ok () else .error .membershipEpochMismatch

/-- Only the entry right above the applied position can be applied. -/
def advanceAppliedPosition : Except ConsensusStoreError ConsensusStore := do
  let appliedIndex ← planI64 position.index
  let appliedTerm ← planI64 position.term
  let before ← planI64 (position.index - 1)
  if store.appliedIndex = before then .ok { store with appliedIndex, appliedTerm }
  else .error .invalidQuorumPlan

def installPlan : Except ConsensusStoreError ConsensusStore := do
  let canonicalPlan ← encodePlan durable.activePlan
  let membershipEpoch ← planI64 durable.activePlan.membershipEpoch
  let activatedIndex ← planI64 durable.activatedPosition.index
  let activatedTerm ← planI64 durable.activatedPosition.term
  let proofDigest := durable.activePlan.proofDigest
  -- `log_index` is the primary key of the history
  if store.plans.contains activatedIndex.val then .error .sqlite
  else .ok { store with
    activePlan := some
      { plan := durable.activePlan, membershipEpoch, proofDigest, activatedIndex, activatedTerm }
    plans := store.plans.insert activatedIndex.val { membershipEpoch, canonicalPlan, proofDigest } }

def persistPlan : Except ConsensusStoreError ConsensusStore :=
  if durable.activatedPosition = .genesis then .error .invalidQuorumPlan
  else do
    match ← store.loadPlan with
    | none => .error .missingQuorumPlan
    | some current =>
      if validSuccessor current durable.activePlan = false then .error .invalidQuorumPlan
      else do
        store.verifyTransitionEntry durable.activatedPosition
        let advanced ← store.advanceAppliedPosition durable.activatedPosition
        let installed ← advanced.installPlan durable
        match durable.activePlan with
        | .joint _ => return installed
        | .stable plan =>
          let membership ← installed.membership.synchroniseMembershipProjection plan
          return { installed with membership }

end ConsensusStore

/-! ## Plans that are taken -/

structure PlanHistoryRow.Records (row : PlanHistoryRow) (plan : ActiveQuorumPlan) : Prop where
  epoch : row.membershipEpoch.val = plan.membershipEpoch
  canonical : plan.encode = .ok row.canonicalPlan
  digest : row.proofDigest = plan.proofDigest

theorem planI64_ok {value : Nat} (h : value ≤ i64Max) : planI64 value = .ok ⟨value, h⟩ := dif_pos h

theorem planI64_eq {value : Nat} {fits : SqlInt} (h : planI64 value = .ok fits) : fits.val = value := by
  unfold planI64 at h
  split at h
  · cases h
    rfl
  · cases h

theorem planI64_val (value : SqlInt) : planI64 value.val = .ok value := dif_pos value.le

theorem foldlM_ok {α β ε : Type} {P : β → Prop} {f : β → α → Except ε β} : ∀ {items : List α} {state : β},
    (∀ item ∈ items, ∀ state, P state → ∃ next, f state item = .ok next ∧ P next) → P state →
    ∃ final, items.foldlM f state = .ok final ∧ P final
  | [], state, _, h => ⟨state, rfl, h⟩
  | item :: items, state, step, h => by
    obtain ⟨next, isNext, h⟩ := step item mem_cons_self state h
    obtain ⟨final, isFinal, h⟩ := foldlM_ok (fun item mem => step item (mem_cons_of_mem _ mem)) h
    exact ⟨final, by rw [foldlM_cons, isNext]; exact isFinal, h⟩

namespace MembershipTables

variable {tables : MembershipTables} {plan : CompiledQuorumPlan} {node : NodeId}

/-- The tables are one revision behind the plan and already list its members, the voters as nodes that
have not left. -/
def Expects (tables : MembershipTables) (plan : CompiledQuorumPlan) : Prop :=
  ∀ current, tables.revision = some current → current.val + 1 = plan.spec.membershipEpoch ∧
    tables.members = plan.members ∧
    ∀ voter ∈ plan.spec.voters, (tables.nodes.get? voter).any present = true

/-- What the updates of a projection need and keep. -/
def Lists (tables : MembershipTables) (plan : CompiledQuorumPlan) : Prop :=
  (∀ node ∈ plan.members, (tables.voters.get? node).any (fun row => present row.state) = true) ∧
    ∀ voter ∈ plan.spec.voters, (tables.nodes.get? voter).any present = true

theorem Lists.updateMember (h : tables.Lists plan) (mem : node ∈ plan.members) (epoch : SqlInt)
    (memberRole : Nat) {state : Nat} (stays : present state = true) :
    ∃ next, tables.updateMember epoch memberRole state node = .ok next ∧ next.Lists plan := by
  refine ⟨_, if_pos (h.1 node mem), fun other isMember => ?_, h.2⟩
  rw [OrdMap.get?_insert]
  split
  · exact stays
  · exact h.1 other isMember

theorem Lists.updateVoter (h : tables.Lists plan) (mem : node ∈ plan.spec.voters) (epoch : SqlInt) :
    ∃ next, tables.updateVoter epoch node = .ok next ∧ next.Lists plan := by
  obtain ⟨member, isMember, h⟩ := h.updateMember (OrdSet.mem_union.mpr (.inl mem)) epoch 1
    (show present 1 = true from rfl)
  refine ⟨{ member with nodes := member.nodes.insert node 2 }, ?_, h.1, fun voter isVoter => ?_⟩
  · unfold MembershipTables.updateVoter
    rw [isMember]
    exact if_pos (h.2 node mem)
  · rw [OrdMap.get?_insert]
    split
    · rfl
    · exact h.2 voter isVoter

theorem Expects.synchronise (h : tables.Expects plan) (fits : plan.spec.membershipEpoch ≤ i64Max) :
    ∃ next, tables.synchroniseMembershipProjection plan = .ok next := by
  unfold synchroniseMembershipProjection
  cases isRevision : tables.revision with
  | none => exact ⟨tables, rfl⟩
  | some current =>
    obtain ⟨behind, same, nodes⟩ := h current isRevision
    have lists : tables.Lists plan := by
      refine ⟨fun node mem => ?_, nodes⟩
      rw [← same, members, OrdMap.mem_keys] at mem
      obtain ⟨row, isRow⟩ := mem
      obtain ⟨isRow, stays⟩ := OrdMap.get?_retain_some.mp isRow
      rw [isRow]
      exact stays
    obtain ⟨voted, isVoted, lists⟩ := foldlM_ok (P := (Lists · plan))
      (fun voter (mem : voter ∈ plan.spec.voters) _ lists => lists.updateVoter mem ⟨_, fits⟩) lists
    obtain ⟨learned, isLearned, -⟩ := foldlM_ok (P := (Lists · plan))
      (fun learner (mem : learner ∈ plan.spec.learners) _ lists =>
        lists.updateMember (OrdSet.mem_union.mpr (.inr mem)) ⟨_, fits⟩ 2 (show present 2 = true from rfl))
      lists
    refine ⟨{ learned with revision := some ⟨_, fits⟩ }, ?_⟩
    simp only [planI64_ok fits, bind, Except.bind, SqlInt.val_mk, Nat.eq_sub_of_add_eq behind, same, ne_eq,
      not_true_eq_false, if_false, isVoted, isLearned, pure, Except.pure]

end MembershipTables

namespace ConsensusStore

variable {store later : ConsensusStore} {position : LogPosition} {plan current : ActiveQuorumPlan}
  {durable : DurableQuorumPlan}

theorem verifyTransitionEntry_ok : store.verifyTransitionEntry position = .ok () ↔
    ∃ row ∈ store.log, row.logIndex.val = position.index ∧ row.term.val = position.term := by
  constructor
  · intro h
    obtain ⟨logIndex, isIndex, h⟩ := bind_eq_ok.mp h
    obtain ⟨term, isTerm, h⟩ := bind_eq_ok.mp h
    obtain ⟨found, -⟩ := admit_ok.mp h
    obtain ⟨row, mem, same⟩ := any_eq_true.mp found
    simp only [decide_eq_true_eq] at same
    exact ⟨row, mem, by rw [same.1]; exact planI64_eq isIndex, by rw [same.2]; exact planI64_eq isTerm⟩
  · rintro ⟨row, mem, isIndex, isTerm⟩
    unfold verifyTransitionEntry
    rw [← isIndex, ← isTerm]
    simp only [planI64_val, bind, Except.bind]
    exact if_pos (any_eq_true.mpr ⟨row, mem, by simp⟩)

theorem encodePlan_ok {bytes : List Nat} : encodePlan plan = .ok bytes ↔ plan.encode = .ok bytes := by
  unfold encodePlan
  cases plan.encode <;> simp [Except.mapError]

theorem verifyTransitionHistory_ok : store.verifyTransitionHistory position plan = .ok () ↔
    position.index ≤ i64Max ∧ ∃ row, store.plans.get? position.index = some row ∧ row.Records plan := by
  constructor
  · intro h
    obtain ⟨logIndex, isIndex, h⟩ := bind_eq_ok.mp h
    rw [← planI64_eq isIndex]
    refine ⟨logIndex.le, ?_⟩
    split at h
    · cases h
    rename_i row isRow
    obtain ⟨epoch, h⟩ := guard_ok.mp h
    obtain ⟨canonical, isCanonical, h⟩ := bind_eq_ok.mp h
    obtain ⟨same, -⟩ := guard_ok.mp h
    simp only [not_or, not_not] at epoch same
    exact ⟨row, isRow, epoch, by rw [same.1]; exact encodePlan_ok.mp isCanonical, same.2⟩
  · rintro ⟨fits, row, isRow, records⟩
    unfold verifyTransitionHistory
    simp [planI64_ok fits, bind, Except.bind, SqlInt.val_mk, isRow, records.epoch,
      encodePlan_ok.mpr records.canonical, records.digest]

theorem loadPlan_some : store.loadPlan = .ok (some plan) ↔
    ∃ row, store.activePlan = some row ∧ row.plan = plan ∧ row.validHeader = true ∧
      (row.position = .genesis ∨ (store.verifyTransitionEntry row.position = .ok () ∧
        store.verifyTransitionHistory row.position plan = .ok ())) := by
  unfold loadPlan
  constructor
  · intro h
    split at h
    · cases h
    rename_i row isRow
    obtain ⟨header, h⟩ := guard_ok.mp h
    refine ⟨row, isRow, ?_⟩
    split at h
    · rename_i first
      cases h
      exact ⟨rfl, by simpa using header, .inl first⟩
    · obtain ⟨_, entry, h⟩ := bind_eq_ok.mp h
      obtain ⟨_, history, h⟩ := bind_eq_ok.mp h
      cases h
      exact ⟨rfl, by simpa using header, .inr ⟨entry, history⟩⟩
  · rintro ⟨row, isRow, rfl, header, stands⟩
    simp only [isRow, header, Bool.true_eq_false, if_false]
    split
    · rfl
    · rename_i later
      obtain ⟨entry, history⟩ := stands.resolve_left later
      rw [entry, history]
      rfl

theorem epoch_le_of_loadPlan (h : store.loadPlan = .ok (some plan)) : plan.membershipEpoch ≤ i64Max := by
  obtain ⟨row, -, rfl, header, -⟩ := loadPlan_some.mp h
  simp only [PlanRow.validHeader, decide_eq_true_eq] at header
  rw [← header.1]
  exact row.membershipEpoch.le

/-- No plan is recorded above the applied position. -/
def PlansApplied (store : ConsensusStore) : Prop :=
  ∀ index row, store.plans.get? index = some row → index ≤ store.appliedIndex.val

/-- A store that keeps its applied log rows and its recorded plans loads the same plan. -/
theorem loadPlan_kept (applied : store.PlansApplied) (same : later.activePlan = store.activePlan)
    (log : ∀ row ∈ store.log, row.logIndex.val ≤ store.appliedIndex.val →
      ∃ kept ∈ later.log, kept.logIndex.val = row.logIndex.val ∧ kept.term.val = row.term.val)
    (plans : ∀ index row, store.plans.get? index = some row → later.plans.get? index = some row)
    (h : store.loadPlan = .ok (some plan)) : later.loadPlan = .ok (some plan) := by
  obtain ⟨row, isRow, isPlan, header, stands⟩ := loadPlan_some.mp h
  refine loadPlan_some.mpr ⟨row, same.trans isRow, isPlan, header, stands.imp_right ?_⟩
  rintro ⟨entry, history⟩
  obtain ⟨fits, recorded, isRecorded, records⟩ := verifyTransitionHistory_ok.mp history
  obtain ⟨old, mem, isIndex, isTerm⟩ := verifyTransitionEntry_ok.mp entry
  obtain ⟨kept, isKept, sameIndex, sameTerm⟩ := log old mem (by rw [isIndex]; exact applied _ _ isRecorded)
  exact ⟨verifyTransitionEntry_ok.mpr ⟨kept, isKept, sameIndex.trans isIndex, sameTerm.trans isTerm⟩,
    verifyTransitionHistory_ok.mpr ⟨fits, recorded, plans _ _ isRecorded, records⟩⟩

/-- The plan is the successor of the current one, its entry is right above the applied position, its
encoding is within bounds, and a stable plan is the one that the membership tables expect. -/
structure Admissible (current : ActiveQuorumPlan) (appliedIndex : Nat) (membership : MembershipTables)
    (durable : DurableQuorumPlan) : Prop where
  successor : validSuccessor current durable.activePlan = true
  next : durable.activatedPosition.index = appliedIndex + 1
  encodes : ∃ bytes, durable.activePlan.encode = .ok bytes
  expected : ∀ plan, durable.activePlan = .stable plan → membership.Expects plan

theorem advanceAppliedPosition_ok {index term : SqlInt} (isIndex : index.val = position.index)
    (isTerm : term.val = position.term) (next : position.index = store.appliedIndex.val + 1) :
    store.advanceAppliedPosition position = .ok { store with appliedIndex := index, appliedTerm := term } := by
  have before : position.index - 1 = store.appliedIndex.val := by omega
  unfold advanceAppliedPosition
  rw [before, ← isIndex, ← isTerm]
  simp [planI64_val, bind, Except.bind]

/-- A plan whose entry is in the log is installed where the history is free, and loads. -/
theorem installPlan_ok (store : ConsensusStore) (valid : durable.activatedPosition.isValid = true)
    (entry : ∃ row ∈ store.log, row.logIndex.val = durable.activatedPosition.index ∧
      row.term.val = durable.activatedPosition.term)
    (epoch : durable.activePlan.membershipEpoch ≤ i64Max)
    (encodes : ∃ bytes, durable.activePlan.encode = .ok bytes)
    (free : store.plans.get? durable.activatedPosition.index = none) :
    ∃ active recorded, store.installPlan durable = .ok { store with
        activePlan := active, plans := store.plans.insert durable.activatedPosition.index recorded } ∧
      loadPlan { store with
        activePlan := active, plans := store.plans.insert durable.activatedPosition.index recorded } =
          .ok (some durable.activePlan) := by
  obtain ⟨bytes, isBytes⟩ := encodes
  obtain ⟨row, mem, isIndex, isTerm⟩ := entry
  have records : PlanHistoryRow.Records ⟨⟨_, epoch⟩, bytes, durable.activePlan.proofDigest⟩
      durable.activePlan := ⟨rfl, isBytes, rfl⟩
  refine ⟨some ⟨durable.activePlan, ⟨_, epoch⟩, durable.activePlan.proofDigest, row.logIndex, row.term⟩,
    ⟨⟨_, epoch⟩, bytes, durable.activePlan.proofDigest⟩, ?_, ?_⟩
  · rw [← isIndex] at free
    unfold installPlan
    rw [← isIndex, ← isTerm]
    simp only [encodePlan_ok.mpr isBytes, planI64_ok epoch, planI64_val, bind, Except.bind, OrdMap.contains,
      free, isSome_none, Bool.false_eq_true, if_false]
  · have position : (⟨row.term.val, row.logIndex.val⟩ : LogPosition) = durable.activatedPosition :=
      LogPosition.ext isTerm isIndex
    refine loadPlan_some.mpr ⟨_, rfl, rfl, ?_, .inr ⟨?_, ?_⟩⟩
    · simp [PlanRow.validHeader, PlanRow.position, position, valid, SqlInt.val_mk]
    · exact verifyTransitionEntry_ok.mpr ⟨row, mem, rfl, rfl⟩
    · refine verifyTransitionHistory_ok.mpr ⟨row.logIndex.le, _, ?_, records⟩
      simp [PlanRow.position, isIndex]

/-- The store once it has taken the plan. -/
structure Installs (store : ConsensusStore) (durable : DurableQuorumPlan) (written : ConsensusStore) :
    Prop where
  vote : written.vote = store.vote
  log : written.log = store.log
  index : written.appliedIndex.val = durable.activatedPosition.index
  term : written.appliedTerm.val = durable.activatedPosition.term
  applied : written.PlansApplied
  loads : written.loadPlan = .ok (some durable.activePlan)

/-- An admissible plan is taken. -/
theorem persistPlan_ok (load : store.loadPlan = .ok (some current)) (applied : store.PlansApplied)
    (valid : durable.activatedPosition.isValid = true)
    (entry : ∃ row ∈ store.log, row.logIndex.val = durable.activatedPosition.index ∧
      row.term.val = durable.activatedPosition.term)
    (epoch : durable.activePlan.membershipEpoch ≤ i64Max)
    (h : Admissible current store.appliedIndex.val store.membership durable) :
    ∃ written, store.persistPlan durable = .ok written ∧ Installs store durable written := by
  have next := h.next
  have ⟨row, mem, isIndex, isTerm⟩ := entry
  have free : store.plans.get? durable.activatedPosition.index = none := by
    cases taken : store.plans.get? durable.activatedPosition.index with
    | none => rfl
    | some old => exact absurd (applied _ old taken) (by omega)
  obtain ⟨active, recorded, installed, loads⟩ := installPlan_ok
    { store with appliedIndex := row.logIndex, appliedTerm := row.term } valid entry epoch h.encodes free
  have isApplied : ∀ membership, PlansApplied { store with
      appliedIndex := row.logIndex, appliedTerm := row.term, activePlan := active, membership
      plans := store.plans.insert durable.activatedPosition.index recorded } := by
    intro membership index old isOld
    show index ≤ row.logIndex.val
    rw [OrdMap.get?_insert] at isOld
    split at isOld
    · omega
    · exact (applied index old isOld).trans (by omega)
  have first : durable.activatedPosition ≠ .genesis := by
    intro isFirst
    rw [isFirst] at next
    simp [LogPosition.genesis] at next
  unfold persistPlan
  rw [if_neg first, load]
  simp only [bind, Except.bind, h.successor, Bool.true_eq_false, if_false,
    verifyTransitionEntry_ok.mpr entry, advanceAppliedPosition_ok isIndex isTerm next, installed]
  cases isPlan : durable.activePlan with
  | joint joint => exact ⟨_, rfl, rfl, rfl, isIndex, isTerm, isApplied _, isPlan ▸ loads⟩
  | stable plan =>
    rw [isPlan] at epoch
    obtain ⟨membership, synchronised⟩ := (h.expected plan isPlan).synchronise epoch
    simp only [synchronised]
    exact ⟨_, rfl, rfl, rfl, isIndex, isTerm, isApplied _, isPlan ▸ loads⟩

end ConsensusStore

end MeshSpan
