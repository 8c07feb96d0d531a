import MeshSpan.Core.Persistence
import MeshSpan.Store.QuorumPlan

/- The durable consensus store of one partition.

   Rust ↔ Lean (crates/meshspan-metadata/src/repository/consensus.rs):
     to_i64 / positive_u64             ↔  `toI64` / `positiveU64`
     validate_mutation_entries         ↔  `validateMutationEntries`
     persist_vote                      ↔  `persistVote`
     persist_log                       ↔  `persistLog`
     persist_mutation                  ↔  `persistMutation`
     load_state                        ↔  `loadState`

   Rows are kept by `log_index`.

   Left out: the entry-count and byte accounting, the constant partition id and
   entry kind, timestamps and the recovery admission flag. The payload column is
   kept as the operation id and command it concatenates. -/

namespace MeshSpan

open Ordered

def toI64 (value : Nat) : Except ConsensusStoreError SqlInt :=
  if h : value ≤ i64Max then .ok ⟨value, h⟩ else .error .invalidMutation

def positiveU64 (value : SqlInt) : Except ConsensusStoreError Nat :=
  if value.val = 0 then .error .corruptState else .ok value.val

theorem toI64_ok {value : Nat} (h : value ≤ i64Max) : toI64 value = .ok ⟨value, h⟩ := dif_pos h

theorem positiveU64_ok {value : SqlInt} (h : value.val ≠ 0) : positiveU64 value = .ok value.val :=
  if_neg h

/-! ## Writing -/

/-- Walks the entries of a mutation: each valid, and one index above and no term below the last. -/
def validateEntriesAfter : Option LogEntry → List LogEntry → Except ConsensusStoreError Unit
  | _, [] => .ok ()
  | previous, e :: es =>
    match e.validate with
    | .error _ => .error .invalidMutation
    | .ok () =>
      if previous.any (fun prior => decide
          (e.position.index ≠ saturatingAdd prior.position.index 1 ∨
            e.position.term < prior.position.term)) then .error .invalidMutation
      else validateEntriesAfter (some e) es

def validateMutationEntries (m : DurableMutation) : Except ConsensusStoreError Unit :=
  validateEntriesAfter none m.append

namespace ConsensusStore

variable (store : ConsensusStore) (epoch : Nat) (m : DurableMutation)

/-- The vote row must belong to the epoch; a term never falls and a vote in it never changes. -/
def checkVote : Except ConsensusStoreError Unit :=
  match store.vote with
  | some row =>
    match positiveU64 row.membershipEpoch with
    | .error err => .error err
    | .ok stored =>
      if stored ≠ epoch then .error .membershipEpochMismatch
      else if m.voteState.any (fun v => v.1 < row.currentTerm.val ∨
          (v.1 = row.currentTerm.val ∧ row.votedFor.isSome ∧ v.2 ≠ row.votedFor)) then
        .error .invalidMutation
      else .ok ()
  | none => if m.voteState.isNone then .error .invalidMutation else .ok ()

def writeVote (targetEpoch : Nat) (m : DurableMutation) : Except ConsensusStoreError ConsensusStore :=
  match m.voteState with
  | some (term, votedFor) =>
    if term = 0 then .error .invalidMutation
    else do
      let currentTerm ← toI64 term
      let membershipEpoch ← toI64 targetEpoch
      return { store with vote := some { currentTerm, votedFor, membershipEpoch } }
  | none =>
    if m.membershipEpoch.isSome then do
      let membershipEpoch ← toI64 targetEpoch
      match store.vote with
      | none => .error .invalidMutation
      | some row => return { store with vote := some { row with membershipEpoch } }
    else .ok store

def persistVote : Except ConsensusStoreError ConsensusStore :=
  let targetEpoch := m.membershipEpoch.getD epoch
  if targetEpoch ≠ epoch ∧ targetEpoch ≠ saturatingAdd epoch 1 then .error .membershipEpochMismatch
  else
    match store.checkVote epoch m with
    | .error err => .error err
    | .ok () => store.writeVote targetEpoch m

variable (log : List LogRow)

def readLastLogIndex : Nat := (log.getLast?.map (·.logIndex.val)).getD 0

def readLastLogTerm : Except ConsensusStoreError Nat :=
  match log.getLast? with
  | none => .ok 0
  | some row => positiveU64 row.term

def truncate (appliedIndex : Nat) : Option Nat → Except ConsensusStoreError (List LogRow)
  | none => .ok log
  | some first =>
    if first = 0 ∨ first ≤ appliedIndex then .error .invalidMutation
    else if first > saturatingAdd (readLastLogIndex log) 1 then .error .invalidMutation
    else
      match toI64 first with
      | .error err => .error err
      | .ok _ => .ok (log.filter fun row => decide (row.logIndex.val < first))

/-- Inserts entries one by one, each at the expected index and no term below the last. -/
def insertEntries : Nat → Nat → List LogRow → List LogEntry → Except ConsensusStoreError (List LogRow)
  | _, _, log, [] => .ok log
  | expected, previousTerm, log, e :: es =>
    if e.position.index ≠ expected ∨ e.position.term < previousTerm then .error .invalidMutation
    else
      match toI64 e.position.index, toI64 e.position.term with
      | .ok logIndex, .ok term =>
        match checkedAdd expected 1 with
        | none => .error .invalidMutation
        | some next =>
          insertEntries next e.position.term (log ++ [{
            logIndex, term, entryVersion := e.commandVersion, operationId := e.operationId
            command := e.command, payloadDigest := e.entryDigest }]) es
      | _, _ => .error .invalidMutation

def persistLog : Except ConsensusStoreError ConsensusStore := do
  let kept ← truncate store.log store.appliedIndex.val m.truncateFrom
  match checkedAdd (readLastLogIndex kept) 1 with
  | none => .error .invalidMutation
  | some expected =>
    let previousTerm ← readLastLogTerm kept
    let log ← insertEntries expected previousTerm kept m.append
    -- a plan's row goes with its log row (`ON DELETE CASCADE`)
    let plans := m.truncateFrom.elim store.plans fun first => store.plans.retain fun index _ => index < first
    return { store with log, plans }

def wellShaped : Bool :=
  (epoch ≠ 0) &&
  (m.voteState.isSome || m.truncateFrom.isSome || (m.append ≠ []) || m.membershipEpoch.isSome ||
    m.quorumPlan.isSome) &&
  (m.membershipEpoch.isSome = m.quorumPlan.isSome) &&
  m.quorumPlan.all fun plan =>
    decide (plan.activePlan.membershipEpoch = m.membershipEpoch.getD 0)

/-- The checks and writes of `persist_mutation` up to the quorum-plan tables. -/
def persistOwn : Except ConsensusStoreError ConsensusStore :=
  if wellShaped epoch m = false then .error .invalidMutation
  else
    match validateMutationEntries m with
    | .error err => .error err
    | .ok () =>
      match store.verifyEpoch epoch with
      | .error err => .error err
      | .ok () =>
        match store.persistVote epoch m with
        | .error err => .error err
        | .ok voted => voted.persistLog m

/-- One transaction: a failure leaves the store as it was. -/
def persistMutation : Except ConsensusStoreError ConsensusStore :=
  match store.persistOwn epoch m with
  | .error err => .error err
  | .ok written =>
    match m.quorumPlan with
    | none => .ok written
    | some durable => written.persistPlan durable

/-! ## Reading -/

def loadVote : Except ConsensusStoreError (Nat × Option NodeId) :=
  match store.vote with
  | none => .ok (0, none)
  | some row =>
    match positiveU64 row.membershipEpoch with
    | .error err => .error err
    | .ok stored =>
      if stored ≠ epoch then .error .membershipEpochMismatch
      else if row.currentTerm.val = 0 ∧ row.votedFor.isSome then .error .corruptState
      else .ok (row.currentTerm.val, row.votedFor)

def loadEntry (row : LogRow) : Except ConsensusStoreError LogEntry :=
  match positiveU64 row.term, positiveU64 row.logIndex with
  | .ok term, .ok index =>
    match LogEntry.new ⟨term, index⟩ row.operationId row.entryVersion row.command with
    | .error err => .error (.core err)
    | .ok e => if row.payloadDigest ≠ e.entryDigest then .error .corruptState else .ok e
  | _, _ => .error .corruptState

def loadLog : List LogRow → Except ConsensusStoreError (List LogEntry)
  | [] => .ok []
  | row :: rows =>
    match loadEntry row with
    | .error err => .error err
    | .ok e =>
      match loadLog rows with
      | .error err => .error err
      | .ok es => .ok (e :: es)

/-- Walks a recovered log; returns the index after its last entry. -/
def validateRecoveredFrom (currentTerm : Nat) : Nat → Nat → List LogEntry →
    Except ConsensusStoreError Nat
  | expected, _, [] => .ok expected
  | expected, previousTerm, e :: es =>
    if e.position.index ≠ expected ∨ e.position.term < previousTerm ∨
        e.position.term > currentTerm then .error .corruptState
    else
      match checkedAdd expected 1 with
      | none => .error .corruptState
      | some next => validateRecoveredFrom currentTerm next e.position.term es

def validateRecoveredState (state : DurableCoreState) : Except ConsensusStoreError Unit :=
  match validateRecoveredFrom state.currentTerm 1 0 state.log with
  | .error err => .error err
  | .ok expected => if state.appliedIndex ≥ expected then .error .corruptState else .ok ()

def appliedPresent (log : List LogEntry) : Bool :=
  (store.appliedIndex.val = 0) ||
    (log[store.appliedIndex.val - 1]?).any fun e => decide (e.position.term = store.appliedTerm.val)

def loadState : Except ConsensusStoreError DurableCoreState :=
  if epoch = 0 then .error .membershipEpochMismatch
  else
    match store.verifyEpoch epoch with
    | .error err => .error err
    | .ok () =>
      match store.loadVote epoch with
      | .error err => .error err
      | .ok (currentTerm, votedFor) =>
        match loadLog store.log with
        | .error err => .error err
        | .ok log =>
          if currentTerm = 0 ∧ log ≠ [] then .error .corruptState
          else if store.appliedPresent log = false then .error .corruptState
          else
            let state : DurableCoreState :=
              { currentTerm, votedFor, log, appliedIndex := store.appliedIndex.val }
            match validateRecoveredState state with
            | .error err => .error err
            | .ok () => .ok state

end ConsensusStore

end MeshSpan
