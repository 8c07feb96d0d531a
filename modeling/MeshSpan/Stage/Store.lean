import MeshSpan.Ordered
import MeshSpan.Overlay
import MeshSpan.Primitives

/- The durable store of private write stages.

   Rust ↔ Lean (crates/meshspan-filesystem/src/stage_store.rs, staging.rs):
     stages, stage_writes rows   ↔  `StoredStage`, `StoredWrite`
     {operation}.part files      ↔  `StageStore.parts`
     register, initialise_truncation, write, install_part, record_write, set_logical_length,
     renew_lease, abort, read_range_with_base, stream_complete(_with_base)

   Every operation runs to its end: a transaction commits whole, and a part file
   is renamed into place before its row is inserted. `write` keeps the part it
   installed even when the row is refused. The base callback of a read writes the
   requested slice of an immutable content, given here as its bytes.

   Left out: the merged range index (only `range_page` reads it), file-system and
   database faults other than an absent part, the directories and the pending
   names. -/

namespace MeshSpan

open Ordered Overlay

abbrev StageId := Nat

inductive StageStoreError where
  | invalidInput
  | operationConflict
  | stale
  | incomplete
  | corrupt
  | unavailable
  | io
deriving DecidableEq

/-- The states of a stage row (`state` 1 and 3). -/
inductive StageState where
  | live
  | aborted
deriving DecidableEq

inductive StageWriteOutcome where
  | applied
  | replayed
deriving DecidableEq

/-! ## Rows -/

structure StoredStage where
  (fence maximumBytes : SqlInt)
  state : StageState
  (sequence logicalExtent : SqlInt)
  declaredLogicalLength : Option SqlInt
  (createdAt expiresAt : Int)

structure StoredWrite where
  operationId : OperationId
  stageId : StageId
  (sequence fence offset length : SqlInt)
  digest : Digest
  appliedAt : Int

structure TruncationRow where
  stageId : StageId
  (fence sequence : SqlInt)
  appliedAt : Int
  (requestDigest receiptDigest : Digest)

structure LengthRow where
  stageId : StageId
  (fence sequence logicalLength : SqlInt)
  appliedAt : Int
  (requestDigest receiptDigest : Digest)

structure LeaseRow where
  stageId : StageId
  requestDigest : Digest
  (expectedFence resultingFence : SqlInt)
  (leaseExpiresAt committedAt : Int)
  receiptDigest : Digest

structure AbortRow where
  stageId : StageId
  requestDigest : Digest
  fence : SqlInt
  abortedAt : Int
  receiptDigest : Digest

structure StageStore where
  stages : OrdMap StageId StoredStage
  /-- `stage_writes` in the order of insertion. -/
  writes : List StoredWrite
  parts : StageId → OperationId → Option (List UInt8)
  truncations : OrdMap OperationId TruncationRow
  lengths : OrdMap OperationId LengthRow
  leases : OrdMap OperationId LeaseRow
  aborts : OrdMap OperationId AbortRow

/-! ## Requests -/

structure StageRegistration where
  stageId : StageId
  (stageFence maximumBytes : Nat)
  (createdAt expiresAt : Int)

structure StageWrite where
  operationId : OperationId
  (stageFence offset : Nat)
  bytes : List UInt8
  digest : Digest

structure StageLengthRequest where
  operationId : OperationId
  stageId : StageId
  (stageFence logicalLength : Nat)
  observedAt : Int

structure StageLeaseRequest where
  operationId : OperationId
  stageId : StageId
  expectedFence : Nat
  takeover : Bool
  (leaseExpiresAt observedAt : Int)

structure StageAbortRequest where
  operationId : OperationId
  stageId : StageId
  stageFence : Nat
  observedAt : Int

structure StageRangeReadRequest where
  stageId : StageId
  (stageFence expectedSequence offset length : Nat)
  observedAt : Int

structure StageCompletionRequest where
  stageId : StageId
  (stageFence expectedSequence finalLength : Nat)
  sparse : Bool
  observedAt : Int

structure StageLengthReceipt where
  outcome : StageWriteOutcome
  operationId : OperationId
  stageId : StageId
  requestDigest : Digest
  (stageFence mutationSequence logicalLength : Nat)
  appliedAt : Int
  resultDigest : Digest

structure StageLeaseReceipt where
  outcome : StageWriteOutcome
  operationId : OperationId
  stageId : StageId
  requestDigest : Digest
  stageFence : Nat
  leaseExpiresAt : Int
  resultDigest : Digest

structure StageAbortReceipt where
  outcome : StageWriteOutcome
  operationId : OperationId
  stageId : StageId
  requestDigest : Digest
  stageFence : Nat
  abortedAt : Int
  resultDigest : Digest

/-- The streamed image with the identity `CompletedStage` reports for it. -/
structure CompletedStage where
  bytes : List UInt8
  logicalLength : Nat
  contentDigest : Digest

/-! ## Bounds and digests -/

def maximumStageReadBytes : Nat := 8 * 1024 * 1024

def copyBufferBytes : Nat := 64 * 1024

/-- `to_i64`. -/
def stageInt (value : Nat) : Except StageStoreError SqlInt :=
  if h : value ≤ i64Max then .ok ⟨value, h⟩ else .error .invalidInput

variable (operationId : OperationId)

def truncationRequestDigest (stageId : StageId) (stageFence : Nat)
    (observedAt : Int) : Digest :=
  .framed "meshspan.stage.initial-truncation.request.v1" [operationId, stageId, stageFence, observedAt]

def truncationReceiptDigest (requestDigest : Digest) (sequence : Nat) : Digest :=
  .over "meshspan.stage.initial-truncation.receipt.v1" requestDigest [sequence]

variable (r : StageLengthRequest)

def lengthRequestDigest : Digest :=
  .framed "meshspan.filesystem.stage-length-request.v1"
    [r.operationId, r.stageId, r.stageFence, r.logicalLength, r.observedAt]

def lengthResultDigest (requestDigest : Digest) (sequence : Nat) : Digest :=
  .over "meshspan.filesystem.stage-length-result.v1" requestDigest
    [r.operationId, r.stageId, r.stageFence, sequence, r.logicalLength, r.observedAt]

def leaseRequestDigest (r : StageLeaseRequest) : Digest :=
  .framed "meshspan.filesystem.stage-lease-request.v1"
    [r.operationId, r.stageId, r.expectedFence, if r.takeover then 1 else 0, r.leaseExpiresAt, r.observedAt]

def leaseResultDigest (stageId : StageId) (requestDigest : Digest)
    (stageFence : Nat) (leaseExpiresAt : Int) : Digest :=
  .over "meshspan.filesystem.stage-lease-result.v1" requestDigest
    [operationId, stageId, stageFence, leaseExpiresAt]

def abortRequestDigest (r : StageAbortRequest) : Digest :=
  .framed "meshspan.filesystem.stage-abort-request.v1"
    [r.operationId, r.stageId, r.stageFence, r.observedAt]

def abortResultDigest (r : StageAbortRequest) (requestDigest : Digest) : Digest :=
  .over "meshspan.filesystem.stage-abort-result.v1" requestDigest
    [r.operationId, r.stageId, r.stageFence, r.observedAt]

/-! ## Checks -/

def validateRegistration (r : StageRegistration) : Except StageStoreError Unit :=
  if r.stageFence = 0 ∨ r.maximumBytes = 0 ∨ i64Max < r.maximumBytes ∨ r.expiresAt ≤ r.createdAt then
    .error .invalidInput
  else .ok ()

variable (stage : StoredStage)

def validateLiveWrite (w : StageWrite) (observedAt : Int) : Except StageStoreError Unit :=
  if stage.state ≠ .live ∨ stage.fence.val ≠ w.stageFence ∨ stage.expiresAt ≤ observedAt then .error .stale
  else if w.bytes = [] ∨ Digest.content w.bytes ≠ w.digest then .error .invalidInput
  else
    match checkedAdd w.offset w.bytes.length with
    | none => .error .invalidInput
    | some last => if stage.maximumBytes.val < last then .error .invalidInput else .ok ()

def validateLengthRequest : Except StageStoreError Unit :=
  if r.stageFence = 0 ∨ i64Max < r.logicalLength then .error .invalidInput else .ok ()

def validateLiveLength (r : StageLengthRequest) : Except StageStoreError Unit :=
  if stage.state ≠ .live ∨ stage.fence.val ≠ r.stageFence ∨ stage.expiresAt ≤ r.observedAt then .error .stale
  else if stage.maximumBytes.val < r.logicalLength then .error .invalidInput
  else .ok ()

def validateLeaseRequest (r : StageLeaseRequest) : Except StageStoreError Unit :=
  if r.expectedFence = 0 ∨ r.leaseExpiresAt ≤ r.observedAt then .error .invalidInput else .ok ()

def validateRangeRead (r : StageRangeReadRequest) : Except StageStoreError Unit :=
  if r.stageFence = 0 ∨ maximumStageReadBytes < r.length ∨ checkedAdd r.offset r.length = none then
    .error .invalidInput
  else .ok ()

def validateCompletion (r : StageCompletionRequest) : Except StageStoreError Unit :=
  if stage.maximumBytes.val < r.finalLength ∨
      stage.declaredLogicalLength.any (fun length => length.val ≠ r.finalLength) then
    .error .invalidInput
  else if stage.state ≠ .live ∨ stage.fence.val ≠ r.stageFence ∨
      stage.sequence.val ≠ r.expectedSequence ∨ stage.expiresAt ≤ r.observedAt then
    .error .stale
  else .ok ()

variable (stored : StoredWrite)

def StoredWrite.matches (w : StageWrite) : Bool :=
  (stored.fence.val = w.stageFence ∧ stored.offset.val = w.offset ∧
    stored.length.val = w.bytes.length ∧ stored.digest = w.digest)

/-- `StoredWrite::end`. -/
def StoredWrite.endOffset : Except StageStoreError Nat :=
  match checkedAdd stored.offset.val stored.length.val with
  | none => .error .corrupt
  | some last => .ok last

/-- The length of the file a live stage shows over a base of `baseLength` bytes. -/
def StoredStage.logicalLength (baseLength : Nat) : Nat :=
  match stage.declaredLogicalLength with
  | some length => length.val
  | none => max baseLength stage.logicalExtent.val

namespace StageStore

def empty : StageStore :=
  { stages := ∅, writes := [], parts := fun _ _ => none, truncations := ∅, lengths := ∅, leases := ∅, aborts := ∅ }

variable (store : StageStore) (stageId : StageId)

def loadStage : Except StageStoreError StoredStage :=
  match store.stages.get? stageId with
  | none => .error .stale
  | some stage => .ok stage

variable (operationId : OperationId)

def loadWrite : Option StoredWrite :=
  store.writes.find? (fun w => w.operationId = operationId)

/-- `ORDER BY mutation_sequence, operation_id`. -/
def WriteLe (a b : StoredWrite) : Prop :=
  a.sequence.val < b.sequence.val ∨ (a.sequence.val = b.sequence.val ∧ a.operationId ≤ b.operationId)

instance : DecidableRel WriteLe := fun a b => by
  unfold WriteLe
  infer_instance

def loadStageWrites : List StoredWrite :=
  (store.writes.filter fun w => decide (w.stageId = stageId)).insertionSort WriteLe

def rejectStageOperationCollision : Except StageStoreError Unit :=
  if (store.loadWrite operationId).isSome ∨ store.leases.contains operationId ∨
      store.truncations.contains operationId ∨ store.lengths.contains operationId ∨
      store.aborts.contains operationId then
    .error .operationConflict
  else .ok ()

/-! ## Mutations -/

def register (r : StageRegistration) : Except StageStoreError StageStore := do
  validateRegistration r
  let fence ← stageInt r.stageFence
  let maximumBytes ← stageInt r.maximumBytes
  match store.stages.get? r.stageId with
  | some row =>
    if row.fence = fence ∧ row.maximumBytes = maximumBytes ∧ row.createdAt = r.createdAt ∧
        row.expiresAt = r.expiresAt then
      .ok store
    else .error .operationConflict
  | none =>
    .ok { store with
            stages := store.stages.insert r.stageId
              { fence, maximumBytes, state := .live, sequence := .zero, logicalExtent := .zero,
                declaredLogicalLength := none, createdAt := r.createdAt, expiresAt := r.expiresAt } }

/-- The stored truncation against a retry under its operation id. -/
def truncationReplay (row : TruncationRow) (operationId : OperationId) (stageId : StageId)
    (stageFence : Nat) (observedAt : Int) : Except StageStoreError StageWriteOutcome :=
  let requestDigest := truncationRequestDigest operationId stageId stageFence observedAt
  let fieldsMatch := decide (row.stageId = stageId ∧ row.fence.val = stageFence ∧
    row.appliedAt = observedAt ∧ row.sequence.val = 1)
  match fieldsMatch, decide (row.requestDigest = requestDigest),
      decide (row.receiptDigest = truncationReceiptDigest requestDigest row.sequence.val) with
  | true, true, true => .ok .replayed
  | true, _, _ => .error .corrupt
  | false, true, _ => .error .corrupt
  | false, false, _ => .error .operationConflict

def initialiseTruncation (operationId : OperationId)
    (stageFence : Nat) (observedAt : Int) : Except StageStoreError (StageStore × StageWriteOutcome) :=
  if stageFence = 0 then .error .invalidInput
  else
    match store.truncations.get? operationId with
    | some row => do
      let outcome ← truncationReplay row operationId stageId stageFence observedAt
      return (store, outcome)
    | none => do
      store.rejectStageOperationCollision operationId
      let fence ← stageInt stageFence
      match store.stages.get? stageId with
      | none => .error .stale
      | some row =>
        if row.state = .live ∧ row.fence = fence ∧ row.sequence.val = 0 ∧ observedAt < row.expiresAt then
          let requestDigest := truncationRequestDigest operationId stageId stageFence observedAt
          let one : SqlInt := ⟨1, by decide⟩
          .ok ({ store with
                  stages := store.stages.insert stageId
                    { row with sequence := one, logicalExtent := .zero, declaredLogicalLength := some .zero }
                  truncations := store.truncations.insert operationId
                    { stageId, fence, sequence := one, appliedAt := observedAt, requestDigest,
                      receiptDigest := truncationReceiptDigest requestDigest 1 } }, .applied)
        else .error .stale

/-- The bytes of a part file, checked against the bytes and digest expected of it. -/
def verifyPart (operationId : OperationId)
    (expected : List UInt8) (digest : Digest) : Except StageStoreError Unit :=
  match store.parts stageId operationId with
  | none => .error .io
  | some bytes => if bytes ≠ expected ∨ Digest.content bytes ≠ digest then .error .corrupt else .ok ()

/-- A part file already in place is adopted when it holds the same bytes. -/
def installPart (w : StageWrite) : Except StageStoreError StageStore :=
  match store.parts stageId w.operationId with
  | some _ => do
    store.verifyPart stageId w.operationId w.bytes w.digest
    return store
  | none =>
    .ok { store with
            parts := fun s o => if s = stageId ∧ o = w.operationId then some w.bytes else store.parts s o }

/-- The updated lengths of `UPDATE stages` in `record_write`. -/
def extended (stage : StoredStage) (sequence last : SqlInt) : StoredStage :=
  { stage with
    sequence
    logicalExtent := if stage.logicalExtent.val ≤ last.val then last else stage.logicalExtent
    declaredLogicalLength := stage.declaredLogicalLength.map (fun declared =>
      if declared.val ≤ last.val then last else declared) }

def recordWrite (stage : StoredStage) (w : StageWrite)
    (observedAt : Int) : Except StageStoreError StageStore := do
  let length := w.bytes.length
  match checkedAdd w.offset length, checkedAdd stage.sequence.val 1 with
  | some last, some next =>
    let sequence ← stageInt next
    let fence ← stageInt w.stageFence
    let offset ← stageInt w.offset
    let length ← stageInt length
    let last ← stageInt last
    match store.stages.get? stageId with
    | none => .error .unavailable
    | some row =>
      let stored : StoredWrite :=
        { operationId := w.operationId, stageId, sequence, fence, offset, length, digest := w.digest,
          appliedAt := observedAt }
      if row.state = .live ∧ row.sequence = stage.sequence then
        .ok { store with
                stages := store.stages.insert stageId (extended row sequence last)
                writes := store.writes ++ [stored] }
      else .error .unavailable
  | _, _ => .error .invalidInput

/-- The store after the call and its result: a refused row leaves the installed part behind. -/
def write (w : StageWrite) (observedAt : Int) : StageStore × Except StageStoreError StageWriteOutcome :=
  match store.loadStage stageId with
  | .error err => (store, .error err)
  | .ok stage =>
    match validateLiveWrite stage w observedAt with
    | .error err => (store, .error err)
    | .ok () =>
      match store.loadWrite w.operationId with
      | some existing =>
        if existing.stageId ≠ stageId ∨ ¬ existing.matches w then (store, .error .operationConflict)
        else
          match store.verifyPart existing.stageId existing.operationId w.bytes existing.digest with
          | .error err => (store, .error err)
          | .ok () => (store, .ok .replayed)
      | none =>
        match store.installPart stageId w with
        | .error err => (store, .error err)
        | .ok installed =>
          match installed.recordWrite stageId stage w observedAt with
          | .error err => (installed, .error err)
          | .ok recorded => (recorded, .ok .applied)

/-- The stored receipt of a length change, rebuilt and checked (`decode_length_receipt`). -/
def loadLengthReceipt : Except StageStoreError (Option StageLengthReceipt) :=
  match store.lengths.get? operationId with
  | none => .ok none
  | some row =>
    let request : StageLengthRequest :=
      { operationId, stageId := row.stageId, stageFence := row.fence.val,
        logicalLength := row.logicalLength.val, observedAt := row.appliedAt }
    if row.receiptDigest ≠ lengthResultDigest request row.requestDigest row.sequence.val then .error .corrupt
    else .ok (some
      { outcome := .replayed, operationId, stageId := row.stageId, requestDigest := row.requestDigest,
        stageFence := row.fence.val, mutationSequence := row.sequence.val,
        logicalLength := row.logicalLength.val, appliedAt := row.appliedAt, resultDigest := row.receiptDigest })

def setLogicalLength (r : StageLengthRequest) :
    Except StageStoreError (StageStore × StageLengthReceipt) := do
  validateLengthRequest r
  let requestDigest := lengthRequestDigest r
  match ← store.loadLengthReceipt r.operationId with
  | some receipt =>
    if receipt.stageId = r.stageId ∧ receipt.requestDigest = requestDigest then .ok (store, receipt)
    else .error .operationConflict
  | none =>
    store.rejectStageOperationCollision r.operationId
    let stage ← store.loadStage r.stageId
    validateLiveLength stage r
    match checkedAdd stage.sequence.val 1 with
    | none => .error .invalidInput
    | some next =>
      let resultDigest := lengthResultDigest r requestDigest next
      let sequence ← stageInt next
      let logicalLength ← stageInt r.logicalLength
      let fence ← stageInt r.stageFence
      -- the conditions of the update were just checked on the row it updates
      let row : LengthRow :=
        { stageId := r.stageId, fence, sequence, logicalLength, appliedAt := r.observedAt, requestDigest,
          receiptDigest := resultDigest }
      .ok ({ store with
              stages := store.stages.insert r.stageId
                { stage with sequence, declaredLogicalLength := some logicalLength }
              lengths := store.lengths.insert r.operationId row },
        { outcome := .applied, operationId := r.operationId, stageId := r.stageId, requestDigest,
          stageFence := r.stageFence, mutationSequence := next, logicalLength := r.logicalLength,
          appliedAt := r.observedAt, resultDigest })

/-- The stored receipt of a lease change (`decode_lease_receipt`). -/
def loadLeaseReceipt : Except StageStoreError (Option StageLeaseReceipt) :=
  match store.leases.get? operationId with
  | none => .ok none
  | some row =>
    if row.resultingFence.val = 0 ∨ row.receiptDigest ≠ leaseResultDigest operationId row.stageId
        row.requestDigest row.resultingFence.val row.leaseExpiresAt then
      .error .corrupt
    else .ok (some
      { outcome := .replayed, operationId, stageId := row.stageId, requestDigest := row.requestDigest,
        stageFence := row.resultingFence.val, leaseExpiresAt := row.leaseExpiresAt,
        resultDigest := row.receiptDigest })

/-- The fence a lease change leaves: a takeover advances it by one. -/
def resultingFence (r : StageLeaseRequest) : Except StageStoreError Nat :=
  if r.takeover then
    match checkedAdd r.expectedFence 1 with
    | none => .error .invalidInput
    | some fence => .ok fence
  else .ok r.expectedFence

def renewLease (r : StageLeaseRequest) : Except StageStoreError (StageStore × StageLeaseReceipt) := do
  validateLeaseRequest r
  let requestDigest := leaseRequestDigest r
  match ← store.loadLeaseReceipt r.operationId with
  | some receipt =>
    if receipt.stageId = r.stageId ∧ receipt.requestDigest = requestDigest then .ok (store, receipt)
    else .error .operationConflict
  | none =>
    store.rejectStageOperationCollision r.operationId
    let stage ← store.loadStage r.stageId
    let resulting ← resultingFence r
    if stage.state ≠ .live ∨ stage.fence.val ≠ r.expectedFence ∨ stage.expiresAt ≤ r.observedAt ∨
        r.leaseExpiresAt < stage.expiresAt then
      .error .stale
    else
      let resultDigest := leaseResultDigest r.operationId r.stageId requestDigest resulting r.leaseExpiresAt
      let fence ← stageInt resulting
      let expected ← stageInt r.expectedFence
      let row : LeaseRow :=
        { stageId := r.stageId, requestDigest, expectedFence := expected, resultingFence := fence,
          leaseExpiresAt := r.leaseExpiresAt, committedAt := r.observedAt, receiptDigest := resultDigest }
      .ok ({ store with
              stages := store.stages.insert r.stageId { stage with fence, expiresAt := r.leaseExpiresAt }
              leases := store.leases.insert r.operationId row },
        { outcome := .applied, operationId := r.operationId, stageId := r.stageId, requestDigest,
          stageFence := resulting, leaseExpiresAt := r.leaseExpiresAt, resultDigest })

/-- The stored receipt of an abort (`decode_abort_receipt`). -/
def loadAbortReceipt : Except StageStoreError (Option StageAbortReceipt) :=
  match store.aborts.get? operationId with
  | none => .ok none
  | some row =>
    let request : StageAbortRequest :=
      { operationId, stageId := row.stageId, stageFence := row.fence.val, observedAt := row.abortedAt }
    if row.receiptDigest ≠ abortResultDigest request row.requestDigest then .error .corrupt
    else .ok (some
      { outcome := .replayed, operationId, stageId := row.stageId, requestDigest := row.requestDigest,
        stageFence := row.fence.val, abortedAt := row.abortedAt, resultDigest := row.receiptDigest })

def abort (r : StageAbortRequest) : Except StageStoreError (StageStore × StageAbortReceipt) := do
  if r.stageFence = 0 then .error .invalidInput
  let requestDigest := abortRequestDigest r
  match ← store.loadAbortReceipt r.operationId with
  | some receipt =>
    if receipt.stageId = r.stageId ∧ receipt.requestDigest = requestDigest then .ok (store, receipt)
    else .error .operationConflict
  | none =>
    store.rejectStageOperationCollision r.operationId
    let stage ← store.loadStage r.stageId
    if stage.state ≠ .live ∨ stage.fence.val ≠ r.stageFence ∨ stage.expiresAt ≤ r.observedAt then
      .error .stale
    else
      let resultDigest := abortResultDigest r requestDigest
      let fence ← stageInt r.stageFence
      let row : AbortRow :=
        { stageId := r.stageId, requestDigest, fence, abortedAt := r.observedAt, receiptDigest := resultDigest }
      .ok ({ store with
              stages := store.stages.insert r.stageId { stage with state := .aborted }
              aborts := store.aborts.insert r.operationId row },
        { outcome := .applied, operationId := r.operationId, stageId := r.stageId, requestDigest,
          stageFence := r.stageFence, abortedAt := r.observedAt, resultDigest })

/-! ## Reading -/

def partBytes (stored : StoredWrite) : Except StageStoreError (List UInt8) :=
  match store.parts stored.stageId stored.operationId with
  | none => .error .io
  | some bytes =>
    if bytes.length ≠ stored.length.val ∨ Digest.content bytes ≠ stored.digest then .error .corrupt
    else .ok bytes

def applyPartToRange (rangeOffset : Nat) (result : List UInt8) (stored : StoredWrite) :
    Except StageStoreError (List UInt8) := do
  let bytes ← store.partBytes stored
  match checkedAdd rangeOffset result.length with
  | none => .error .corrupt
  | some rangeEnd =>
    let writeEnd ← stored.endOffset
    let overlapStart := max rangeOffset stored.offset.val
    let overlapEnd := min rangeEnd writeEnd
    if overlapEnd ≤ overlapStart then .ok result
    else
      let source := (bytes.drop (overlapStart - stored.offset.val)).take (overlapEnd - overlapStart)
      .ok (put (overlapStart - rangeOffset) source result)

/-- `base` is the immutable content the callback streams from. -/
def readRangeWithBase (r : StageRangeReadRequest) (base : List UInt8) :
    Except StageStoreError (List UInt8) := do
  validateRangeRead r
  let stage ← store.loadStage r.stageId
  if stage.state ≠ .live ∨ stage.fence.val ≠ r.stageFence ∨ stage.sequence.val ≠ r.expectedSequence ∨
      stage.expiresAt ≤ r.observedAt then
    .error .stale
  else
    let available := stage.logicalLength base.length - r.offset
    let resultLength := min r.length available
    let baseReadLength := min resultLength (base.length - r.offset)
    let result := put 0 ((base.drop r.offset).take baseReadLength) (List.replicate resultLength 0)
    let result ← (store.loadStageWrites r.stageId).foldlM (store.applyPartToRange r.offset) result
    if maximumStageReadBytes < result.length then .error .invalidInput else .ok result

/-! ## Completion -/

/-- One pass of `insert_range` over the sorted ranges, merging what touches the inserted one. -/
def insertRangeLoop : List (Nat × Nat) → Nat × Nat → Bool → List (Nat × Nat)
  | [], inserted, placed => if placed then [] else [inserted]
  | range :: ranges, inserted, placed =>
    if range.2 < inserted.1 then range :: insertRangeLoop ranges inserted placed
    else if inserted.2 < range.1 then
      if placed then range :: insertRangeLoop ranges inserted placed
      else inserted :: range :: insertRangeLoop ranges inserted true
    else insertRangeLoop ranges (min inserted.1 range.1, max inserted.2 range.2) placed

def insertRange (ranges : List (Nat × Nat)) (inserted : Nat × Nat) : List (Nat × Nat) :=
  insertRangeLoop ranges inserted false

def covers (ranges : List (Nat × Nat)) (finalLength : Nat) : Bool :=
  (finalLength = 0) ||
    ranges.head?.any fun range => decide (range.1 = 0 ∧ finalLength ≤ range.2)

def writeRanges (writes : List StoredWrite) : Except StageStoreError (List (Nat × Nat)) :=
  writes.foldlM (fun ranges w => do
    let last ← w.endOffset
    return insertRange ranges (w.offset.val, last)) []

/-- The completion image: a file with its write position. -/
structure Image where
  bytes : List UInt8
  position : Nat

def Image.writeAll (image : Image) (bytes : List UInt8) : Image :=
  { bytes := put image.position bytes image.bytes, position := image.position + bytes.length }

/-- The loop of `apply_part_to_image`: buffer by buffer, nothing past the final length. -/
def copyChunks (offset finalLength : Nat) : Nat → Image → Nat → List UInt8 →
    Except StageStoreError (Image × Nat)
  | 0, image, total, _ => .ok (image, total)
  | fuel + 1, image, total, rest =>
    let chunk := rest.take copyBufferBytes
    if chunk = [] then .ok (image, total)
    else
      match checkedAdd offset total, checkedAdd total chunk.length with
      | some chunkStart, some total =>
        let image :=
          if chunkStart < finalLength then
            image.writeAll (chunk.take (min (finalLength - chunkStart) chunk.length))
          else image
        copyChunks offset finalLength fuel image total (rest.drop copyBufferBytes)
      | _, _ => .error .corrupt

def applyPartToImage (finalLength : Nat) (image : List UInt8) (stored : StoredWrite) :
    Except StageStoreError (List UInt8) :=
  match store.parts stored.stageId stored.operationId with
  | none => .error .io
  | some source => do
    let sought : Image := { bytes := image, position := min stored.offset.val finalLength }
    let (written, total) ← copyChunks stored.offset.val finalLength source.length sought 0 source
    if total = stored.length.val ∧ Digest.content source = stored.digest then .ok written.bytes
    else .error .corrupt

/-- The loop of `copy_complete_image`: what is still unread goes to the destination. -/
def copyCompleteImage : Nat → Nat → List UInt8 → List UInt8 → Except StageStoreError (List UInt8)
  | 0, remaining, _, destination => if remaining = 0 then .ok destination else .error .corrupt
  | fuel + 1, remaining, unread, destination =>
    if remaining = 0 then .ok destination
    else
      let requested := min remaining copyBufferBytes
      let chunk := unread.take requested
      if chunk = [] then .error .corrupt
      else copyCompleteImage fuel (remaining - chunk.length) (unread.drop requested) (destination ++ chunk)

/-- `loadBase` is the content whose prefix the base callback writes, none without a base. -/
def streamCompleteInner (r : StageCompletionRequest) (baseLength : Nat)
    (loadBase : Option (List UInt8)) : Except StageStoreError CompletedStage := do
  let stage ← store.loadStage r.stageId
  validateCompletion stage r
  let writes := store.loadStageWrites r.stageId
  let basePrefix := min baseLength r.finalLength
  let written ← writeRanges writes
  let initialised := if basePrefix ≠ 0 then insertRange written (0, basePrefix) else written
  if r.sparse = false ∧ covers initialised r.finalLength = false then .error .incomplete
  else
    let blank := List.replicate r.finalLength (0 : UInt8)
    let image ←
      match loadBase with
      | some base =>
        if (base.take basePrefix).length ≠ basePrefix then .error .corrupt
        else .ok (put 0 (base.take basePrefix) blank)
      | none => if basePrefix ≠ 0 then .error .invalidInput else .ok blank
    let image ← writes.foldlM (store.applyPartToImage r.finalLength) image
    let bytes ← copyCompleteImage r.finalLength r.finalLength image []
    return { bytes, logicalLength := r.finalLength, contentDigest := .content bytes }

def streamComplete (r : StageCompletionRequest) : Except StageStoreError CompletedStage :=
  store.streamCompleteInner r 0 none

def streamCompleteWithBase (r : StageCompletionRequest) (base : List UInt8) :
    Except StageStoreError CompletedStage :=
  store.streamCompleteInner r base.length (some base)

end StageStore

end MeshSpan
