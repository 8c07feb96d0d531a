import MeshSpan.Handles.State

/- Opening, renewing, closing and locking through handles.

   Correspondence (Rust ↔ Lean)
     handles.rs              open_existing_at, open_created, persist_open,
                             enforce_share_modes, reject_pending_delete
     handles/lease.rs        renew, close, validate_handle_bound_locks, update_lease,
                             persist_pending_delete, advance_pending_delete
     handles/locks.rs        lock_range, unlock_range, reject_overlapping_lock
     handles/write.rs        admit_write, reject_conflicting_lock
     handles/information.rs  set_length, set_disposition

   Every operation looks up its own operation id first: a recorded operation with
   the same request is answered from the record, with another request it is an
   `operationConflict`, and neither changes anything. -/

namespace MeshSpan

open Rows

inductive PublicationDisposition where
  | applied
  | replayed
deriving DecidableEq

structure OpenHandleReceipt where
  disposition : PublicationDisposition
  request : OpenHandleRequest
  resolved : Namespace.ResolvedFile
  handleFence : Nat
  truncateOnFirstWrite : Bool

structure HandleLeaseReceipt where
  disposition : PublicationDisposition
  request : HandleLeaseRequest
  handleFence : Nat

structure CloseHandleReceipt where
  disposition : PublicationDisposition
  request : CloseHandleRequest
  outcome : CloseHandleOutcome

structure LockRangeReceipt where
  disposition : PublicationDisposition
  request : LockRangeRequest

structure UnlockRangeReceipt where
  disposition : PublicationDisposition
  request : UnlockRangeRequest

structure HandleWriteAdmissionReceipt where
  disposition : PublicationDisposition
  request : HandleWriteAdmissionRequest

structure HandleInformationReceipt where
  disposition : PublicationDisposition
  request : HandleInformationRequest
  workingLogicalLength : Nat
  deleteOnClose : Bool

/-- A live lock whose deadline follows the given handle. -/
def RangeLock.boundTo (lock : RangeLock) (handleId : HandleId) : Bool :=
  lock.handleId == handleId && lock.state == .active && lock.lifetime == .handle

/-- `state = 1 AND lease_expires_at > now` of a lock. -/
def RangeLock.liveAt (lock : RangeLock) (now : UnixMicros) : Bool :=
  lock.state == .active && (now < lock.leaseExpiresAt)

namespace BranchStore

/-! ## Open -/

variable (request : OpenHandleRequest)

def validateOpen : Except HandleError Unit :=
  if request.authorizationRevision = 0 ∨ request.leaseExpiresAt ≤ request.openedAt ∨
      (request.deleteOnClose = true ∧ request.desiredAccess.deletes = false) ∨
      (request.createDisposition.truncatesExisting = true ∧ request.desiredAccess.writes = false) then
    .error .invalidInput
  else .ok ()

variable (store : BranchStore)

def loadOpenReceipt (operationId : OperationId) : Except HandleError (Option OpenHandleReceipt) :=
  match get (fun handle : OpenHandle => handle.request.operationId) operationId store.handles with
  | none => .ok none
  | some handle => do
    match store.ns.version? handle.openedVersionId with
    | none => .error .corrupt
    | some version =>
      store.ns.validateOpenLineage handle.branchId handle.volumeId handle.openedNamespaceCommitId
        handle.objectId handle.objectRevisionId handle.openedVersionId
      return some ⟨.replayed, handle.request,
        ⟨handle.openedNamespaceCommitId, handle.objectId, handle.objectRevisionId,
          handle.openedVersionId, version.logicalLength⟩,
        1, handle.request.createDisposition.truncatesExisting⟩

def absentDisposition : CreateDisposition → HandleError
  | .openExisting | .overwriteExisting => .notFound
  | .createNew | .openOrCreate | .overwriteOrCreate => .creationRequired

variable (branchId : BranchId) (volumeId : VolumeId)

def pendingOn (objectId : ObjectId) : Bool :=
  store.pending.any (·.on branchId volumeId objectId)

def rejectPendingDelete
    (objectId : ObjectId) : Except HandleError Unit :=
  if store.pendingOn branchId volumeId objectId then .error .deletePending else .ok ()

/-- Neither of two handles asks for what the other does not share. -/
def shareConflict (handle : OpenHandle) : Bool :=
  request.desiredAccess.exceeds handle.shareAccess ||
    handle.desiredAccess.exceeds request.shareAccess

def enforceShareModes (request : OpenHandleRequest) (objectId : ObjectId) : Except HandleError Unit :=
  if store.handles.any (fun handle => handle.on request.branchId request.volumeId objectId &&
      handle.liveAt request.openedAt && shareConflict request handle) then .error .sharingViolation
  else .ok ()

def openedRow (resolved : Namespace.ResolvedFile) (path : NamespacePath) : OpenHandle where
  handleId := request.handleId
  request := request
  branchId := request.branchId
  volumeId := request.volumeId
  openedNamespaceCommitId := resolved.namespaceCommit
  objectId := resolved.object
  objectRevisionId := resolved.objectRevision
  openedVersionId := resolved.version
  principalId := request.principalId
  authorizationRevision := request.authorizationRevision
  gatewayNodeId := request.gatewayNodeId
  handleFence := 1
  desiredAccess := request.desiredAccess
  shareAccess := request.shareAccess
  deleteOnClose := request.deleteOnClose
  leaseExpiresAt := request.leaseExpiresAt
  state := .active
  workingLogicalLength :=
    if request.createDisposition.truncatesExisting then 0 else resolved.logicalLength
  path := path

def persistOpen (request : OpenHandleRequest)
    (resolved : Namespace.ResolvedFile) : Except HandleError (OpenHandleReceipt × BranchStore) := do
  let path ← store.ns.resolveActualPath request.branchId request.volumeId request.path resolved
  toI64 request.authorizationRevision
  if Namespace.maximumPathDepth < path.length then .error .sqlite
  else return (⟨.applied, request, resolved, 1, request.createDisposition.truncatesExisting⟩,
    { store with handles := store.handles ++ [openedRow request resolved path] })

/-- The checks that a resolved file passes before it is opened, and the open itself. -/
def admitOpen (request : OpenHandleRequest)
    (resolved : Namespace.ResolvedFile) : Except HandleError (OpenHandleReceipt × BranchStore) := do
  if (store.handle? request.handleId).isSome then .error .operationConflict
  else do
    store.rejectPendingDelete request.branchId request.volumeId resolved.object
    store.enforceShareModes request resolved.object
    store.persistOpen request resolved

def openExistingAt (request : OpenHandleRequest)
    (expectedObjectId : Option ObjectId) : Except HandleError (OpenHandleReceipt × BranchStore) := do
  validateOpen request
  match ← store.loadOpenReceipt request.operationId with
  | some receipt =>
    if receipt.request = request then return (receipt, store) else .error .operationConflict
  | none => do
    store.rejectOperationCollision request.operationId
    let store := store.expireStaleHandles request.openedAt
    match ← store.ns.resolveFilePath request.branchId request.volumeId request.path with
    | none => .error (absentDisposition request.createDisposition)
    | some resolved =>
      if expectedObjectId.any (· != resolved.object) then .error .staleHandle
      else if request.createDisposition = .createNew then .error .alreadyExists
      else store.admitOpen request resolved

/-- `open_created`: the open half of an atomic create. -/
def openCreated (request : OpenHandleRequest)
    (expected : Namespace.ResolvedFile) : Except HandleError (OpenHandleReceipt × BranchStore) := do
  validateOpen request
  match request.createDisposition with
  | .openExisting | .overwriteExisting => .error .invalidInput
  | .createNew | .openOrCreate | .overwriteOrCreate =>
    match ← store.loadOpenReceipt request.operationId with
    | some receipt =>
      if receipt.request = request ∧ receipt.resolved.namespaceCommit = expected.namespaceCommit ∧
          receipt.resolved.object = expected.object ∧
          receipt.resolved.objectRevision = expected.objectRevision ∧
          receipt.resolved.version = expected.version then return (receipt, store)
      else .error .operationConflict
    | none => do
      store.rejectOperationCollision request.operationId
      let store := store.expireStaleHandles request.openedAt
      match ← store.ns.resolveFilePath request.branchId request.volumeId request.path with
      | none => .error .corrupt
      | some resolved => if resolved ≠ expected then .error .corrupt else store.admitOpen request resolved

/-! ## Renew -/

def validateLeaseOwner (request : HandleLeaseRequest) (handle : OpenHandle) : Except HandleError Unit :=
  if handle.handleFence ≠ request.expectedFence ∨ handle.principalId ≠ request.principalId ∨
      request.authorizationRevision < handle.authorizationRevision ∨
      request.leaseExpiresAt < handle.leaseExpiresAt then .error .staleHandle
  else if request.takeover = false ∧ handle.gatewayNodeId ≠ request.gatewayNodeId then
    .error .gatewayMismatch
  else .ok ()

/-- One handle-lifetime lock has an acquisition receipt of that kind and the handle's current
fence and deadline. -/
def lockFollows (request : HandleLeaseRequest) (handle : OpenHandle) (lock : RangeLock) : Bool :=
  match store.lockByOperation? lock.request.operationId with
  | none => false
  | some receipt => receipt.request.handleFence != 0 && receipt.lifetime == .handle &&
      receipt.handleId == request.handleId && lock.handleFence == request.expectedFence &&
      lock.leaseExpiresAt == handle.leaseExpiresAt

def validateHandleBoundLocks (request : HandleLeaseRequest)
    (handle : OpenHandle) : Except HandleError Unit :=
  if (store.locks.filter (·.boundTo request.handleId)).all
      (store.lockFollows request handle) then .ok ()
  else .error .corrupt

/-- The fence a renewal results in (`checked_add`). -/
def resultingFence (request : HandleLeaseRequest) : Except HandleError Nat :=
  if request.takeover then
    match checkedAdd request.expectedFence 1 with
    | some fence => .ok fence
    | none => .error .invalidInput
  else .ok request.expectedFence

/-- `update_lease`: the handle row, its handle-lifetime locks, and on takeover the fence of all
its live locks. -/
def updateLease (request : HandleLeaseRequest) (fence : Nat) : BranchStore :=
  { store with
    handles := amend
      (fun h => h.handleId == request.handleId && h.handleFence == request.expectedFence &&
        h.liveAt request.observedAt)
      (fun h => { h with
        gatewayNodeId := request.gatewayNodeId
        authorizationRevision := request.authorizationRevision
        handleFence := fence
        leaseExpiresAt := request.leaseExpiresAt }) store.handles
    locks := amend (fun lock => request.takeover && lock.handleId == request.handleId &&
        lock.state == .active) (fun lock => { lock with handleFence := fence })
      (amend (·.boundTo request.handleId)
        (fun lock => { lock with leaseExpiresAt := request.leaseExpiresAt }) store.locks) }

def renew (request : HandleLeaseRequest) : Except HandleError (HandleLeaseReceipt × BranchStore) := do
  if request.expectedFence = 0 ∨ request.authorizationRevision = 0 ∨
      request.leaseExpiresAt ≤ request.observedAt then .error .invalidInput
  else match store.mutation? request.operationId with
    | some (.renewed recorded fence) =>
      if recorded = request then return (⟨.replayed, request, fence⟩, store)
      else .error .operationConflict
    | some _ => .error .operationConflict
    | none => do
      store.rejectOperationCollision request.operationId
      let store := store.expireStaleHandles request.observedAt
      let handle ← store.loadActive request.handleId request.observedAt
      validateLeaseOwner request handle
      store.validateHandleBoundLocks request handle
      let fence ← resultingFence request
      toI64 request.authorizationRevision
      toI64 fence
      let renewed := store.updateLease request fence
      return (⟨.applied, request, fence⟩,
        { renewed with mutations := renewed.mutations ++ [.renewed request fence] })

/-! ## Close -/

/-- `advance_pending_delete`: whether the object waits for deletion, and whether it is ready. -/
def advancePendingDelete (request : CloseHandleRequest) (handle : OpenHandle) :
    CloseHandleOutcome × BranchStore :=
  if store.pendingOn handle.branchId handle.volumeId handle.objectId then
    if store.handles.any (fun h => h.on handle.branchId handle.volumeId handle.objectId &&
        h.liveAt request.observedAt) then (.deleteDeferred, store)
    else (.deleteReady,
      { store with
        pending := amend
          (fun row => row.branchId == handle.branchId && row.objectId == handle.objectId &&
            row.state == .requested)
          (fun row => { row with state := .ready request.observedAt }) store.pending })
  else (.closed, store)

/-- `close_handle_row`, `release_handle_locks` and `persist_pending_delete`. -/
def retireHandle (request : CloseHandleRequest) (handle : OpenHandle) : BranchStore :=
  { store with
    handles := amend
      (fun h => h.handleId == request.handleId && h.handleFence == request.expectedFence &&
        h.liveAt request.observedAt)
      (fun h => { h with state := .released }) store.handles
    locks := amend (fun lock => lock.handleId == request.handleId && lock.state == .active)
      (fun lock => { lock with state := .released }) store.locks
    pending := if handle.deleteOnClose then
        insertPending store.pending (store.pendingRow handle request.observedAt)
      else store.pending }

def close (request : CloseHandleRequest) : Except HandleError (CloseHandleReceipt × BranchStore) := do
  if request.expectedFence = 0 then .error .invalidInput
  else match store.mutation? request.operationId with
    | some (.closed recorded outcome) =>
      if recorded = request then return (⟨.replayed, request, outcome⟩, store)
      else .error .operationConflict
    | some _ => .error .operationConflict
    | none => do
      store.rejectOperationCollision request.operationId
      let store := store.expireStaleHandles request.observedAt
      let handle ← store.loadActive request.handleId request.observedAt
      if handle.handleFence ≠ request.expectedFence ∨ handle.principalId ≠ request.principalId ∨
          handle.gatewayNodeId ≠ request.gatewayNodeId then .error .staleHandle
      else
        let (outcome, closed) := (store.retireHandle request handle).advancePendingDelete request handle
        return (⟨.applied, request, outcome⟩,
          { closed with mutations := closed.mutations ++ [.closed request outcome] })

/-! ## Locks -/

variable (request : LockRangeRequest)

def validateLockOwner (handle : OpenHandle) : Except HandleError Unit :=
  if handle.handleFence ≠ request.handleFence ∨ handle.principalId ≠ request.principalId ∨
      handle.gatewayNodeId ≠ request.gatewayNodeId ∨
      handle.leaseExpiresAt < request.leaseExpiresAt ∨
      (request.lifetime = .handle ∧ request.leaseExpiresAt ≠ handle.leaseExpiresAt) then
    .error .staleHandle
  else match request.kind with
    | .shared => if handle.desiredAccess.reads then .ok () else .error .invalidInput
    | .exclusive => if handle.desiredAccess.writes then .ok () else .error .invalidInput

/-- Some handle of the object owns the lock (`JOIN open_handles owners`). -/
def lockOn (lock : RangeLock) (handle : OpenHandle) : Bool :=
  store.handles.any fun owner => owner.handleId == lock.handleId &&
    owner.on handle.branchId handle.volumeId handle.objectId

/-- Overlapping locks conflict unless both are shared. -/
def lockConflict (lock : RangeLock) : Bool :=
  lock.range.overlaps request.range && (request.kind == .exclusive || lock.kind == .exclusive)

/-- `reject_overlapping_lock`. The locks of the requesting handle count too. -/
def rejectOverlappingLock (request : LockRangeRequest) (handle : OpenHandle) :
    Except HandleError Unit :=
  if store.locks.any (fun lock => store.lockOn lock handle && lock.liveAt request.observedAt &&
      lockConflict request lock) then .error .lockConflict
  else .ok ()

def lockedRow : RangeLock where
  lockId := request.lockId
  request := request
  handleId := request.handleId
  handleFence := request.handleFence
  range := request.range
  kind := request.kind
  lifetime := request.lifetime
  leaseExpiresAt := request.leaseExpiresAt
  state := .active

def lockRange (request : LockRangeRequest) : Except HandleError (LockRangeReceipt × BranchStore) := do
  if request.handleFence = 0 ∨ request.leaseExpiresAt ≤ request.observedAt then .error .invalidInput
  else match store.lockByOperation? request.operationId with
    | some lock =>
      if lock.request.handleFence = 0 then .error .corrupt
      else if lock.request = request then return (⟨.replayed, request⟩, store)
      else .error .operationConflict
    | none => do
      store.rejectOperationCollision request.operationId
      let store := store.expireStaleHandles request.observedAt
      let handle ← store.loadActive request.handleId request.observedAt
      validateLockOwner request handle
      if store.locks.any (·.lockId == request.lockId) then .error .operationConflict
      else do
        store.rejectOverlappingLock request handle
        return (⟨.applied, request⟩, { store with locks := store.locks ++ [lockedRow request] })

def releasedBy (request : UnlockRangeRequest) (lock : RangeLock) : Bool :=
  lock.lockId == request.lockId && lock.handleId == request.handleId &&
    lock.handleFence == request.handleFence && lock.liveAt request.observedAt

def unlockRange (request : UnlockRangeRequest) :
    Except HandleError (UnlockRangeReceipt × BranchStore) := do
  if request.handleFence = 0 then .error .invalidInput
  else match store.mutation? request.operationId with
    | some (.unlocked recorded) =>
      if recorded = request then return (⟨.replayed, request⟩, store) else .error .operationConflict
    | some _ => .error .operationConflict
    | none => do
      store.rejectOperationCollision request.operationId
      let store := store.expireStaleHandles request.observedAt
      let handle ← store.loadActive request.handleId request.observedAt
      if handle.handleFence ≠ request.handleFence ∨ handle.principalId ≠ request.principalId ∨
          handle.gatewayNodeId ≠ request.gatewayNodeId then .error .staleHandle
      else if store.locks.any (releasedBy request) then
        return (⟨.applied, request⟩,
          { store with
            locks := amend (releasedBy request) (fun lock => { lock with state := .released }) store.locks
            mutations := store.mutations ++ [.unlocked request] })
      else .error .staleLock

/-! ## Writes -/

/-- `reject_conflicting_lock`: a live lock of another handle on the object covers the range. -/
def rejectConflictingLock (request : HandleWriteAdmissionRequest)
    (handle : OpenHandle) : Except HandleError Unit :=
  if store.locks.any (fun lock => store.lockOn lock handle && lock.handleId != request.handleId &&
      lock.liveAt request.observedAt && lock.range.overlaps request.range) then .error .lockConflict
  else .ok ()

/-- `validate_authority` of a write. -/
def validateWriter (request : HandleWriteAdmissionRequest) (handle : OpenHandle) :
    Except HandleError Unit :=
  if handle.handleFence ≠ request.handleFence ∨ handle.principalId ≠ request.principalId ∨
      handle.gatewayNodeId ≠ request.gatewayNodeId ∨
      handle.authorizationRevision ≠ request.authorizationRevision then .error .staleHandle
  else if handle.desiredAccess.writes then .ok () else .error .invalidInput

/-- Change the working length and delete-on-close of the fenced live handle. -/
def updateHandle (handleId : HandleId) (fence : Nat) (now : UnixMicros)
    (length : Nat) (deleteOnClose : Bool) : BranchStore :=
  { store with
    handles := amend
      (fun h => h.handleId == handleId && h.handleFence == fence && h.liveAt now)
      (fun h => { h with workingLogicalLength := length, deleteOnClose := deleteOnClose })
      store.handles }

def admitWrite (request : HandleWriteAdmissionRequest) :
    Except HandleError (HandleWriteAdmissionReceipt × BranchStore) := do
  if request.handleFence = 0 ∨ request.authorizationRevision = 0 then .error .invalidInput
  else match store.admission? request.operationId with
    | some recorded =>
      if recorded = request then return (⟨.replayed, request⟩, store) else .error .operationConflict
    | none => do
      store.rejectOperationCollision request.operationId
      let store := store.expireStaleHandles request.observedAt
      let handle ← store.loadActive request.handleId request.observedAt
      validateWriter request handle
      store.rejectConflictingLock request handle
      let written := store.updateHandle request.handleId request.handleFence request.observedAt
        (max handle.workingLogicalLength request.range.endOffset) handle.deleteOnClose
      return (⟨.applied, request⟩, { written with admissions := written.admissions ++ [request] })

/-! ## Handle information -/

variable (change : InformationChange)

/-- `resulting_state`: the working length and delete-on-close after the change. -/
def resultingState (handle : OpenHandle) : Nat × Bool :=
  match change with
  | .length logicalLength => (logicalLength, handle.deleteOnClose)
  | .disposition deleteOnClose => (handle.workingLogicalLength, deleteOnClose)

def permitsChange (access : HandleAccess) : Bool :=
  match change with
  | .length _ => access.writes
  | .disposition _ => access.deletes

def oversized : InformationChange → Bool
  | .length logicalLength => i64Max < logicalLength
  | .disposition _ => false

/-- `set_length` and `set_disposition`. -/
def setInformation (request : HandleInformationRequest) :
    Except HandleError (HandleInformationReceipt × BranchStore) := do
  if request.handleFence = 0 ∨ oversized request.change = true then .error .invalidInput
  else match store.information? request.operationId with
    | some recorded =>
      if recorded.request = request then
        return (⟨.replayed, request, recorded.workingLogicalLength, recorded.deleteOnClose⟩, store)
      else .error .operationConflict
    | none => do
      store.rejectOperationCollision request.operationId
      let store := store.expireStaleHandles request.observedAt
      let handle ← store.loadActive request.handleId request.observedAt
      if handle.handleFence ≠ request.handleFence ∨ handle.principalId ≠ request.principalId ∨
          handle.gatewayNodeId ≠ request.gatewayNodeId then .error .staleHandle
      else if permitsChange request.change handle.desiredAccess then
        let (length, deleteOnClose) := resultingState request.change handle
        let updated := store.updateHandle request.handleId request.handleFence request.observedAt
          length deleteOnClose
        return (⟨.applied, request, length, deleteOnClose⟩,
          { updated with information := updated.information ++ [⟨request, length, deleteOnClose⟩] })
      else .error .invalidInput

end BranchStore

end MeshSpan
