import MeshSpan.Branch.Publication

/- Durable file handles, range locks and pending deletes of a branch store.

   One database holds the namespace and, beside it, the open handles with their
   leases and fences, the byte-range locks taken through them, the deletes that
   wait for the last handle, the admitted writes, and the flush plans. Every
   operation is one transaction: it fails and changes nothing, or it applies all
   of its statements. Expiry is lazy: each operation first retires what its own
   observation time has outlived.

   Correspondence (Rust ↔ Lean)
     handles.rs           HandleAccess, HandleShare, CreateDisposition, OpenHandleRequest,
                          expire_stale_handles, reject_operation_collision
     handles/state.rs     load_active
     handles/locks.rs     ByteRange, RangeLockKind, RangeLockLifetime
     schema/branch/010, 011, 012, 013, 014, 040, 046   the row types

   A request digest stands for the request it binds, so a recorded operation
   keeps its request; receipt digests bind the columns they are stored with. The
   path components of a handle are the field `path` of its row. -/

namespace MeshSpan

open Rows

abbrev LockId := Nat

/-! ## Access -/

/-- Desired operations of a handle; it asks for at least one. -/
structure HandleAccess where
  (reads writes deletes : Bool)
  nonempty : (reads || writes || deletes) = true
deriving DecidableEq

structure HandleShare where
  (permitsRead permitsWrite permitsDelete : Bool)
deriving DecidableEq

/-- `desired & ~share & 7 != 0`: some desired operation is not shared. -/
def HandleAccess.exceeds (desired : HandleAccess) (share : HandleShare) : Bool :=
  (desired.reads && !share.permitsRead) || (desired.writes && !share.permitsWrite) ||
    (desired.deletes && !share.permitsDelete)

inductive CreateDisposition where
  | openExisting
  | createNew
  | openOrCreate
  | overwriteExisting
  | overwriteOrCreate
deriving DecidableEq

def CreateDisposition.truncatesExisting : CreateDisposition → Bool
  | .overwriteExisting | .overwriteOrCreate => true
  | _ => false

/-! ## Byte ranges and locks -/

/-- Non-empty half-open byte range `[start, start + length)`. -/
structure ByteRange where
  (start length : Nat)
  nonempty : length ≠ 0
  bounded : start + length ≤ i64Max

instance : DecidableEq ByteRange := fun a b =>
  decidable_of_iff (a.start = b.start ∧ a.length = b.length) (by cases a; cases b; simp)

namespace ByteRange

/-- The first byte after the range (`end`). -/
def endOffset (range : ByteRange) : Nat := range.start + range.length

def overlaps (a b : ByteRange) : Bool := (a.start < b.endOffset) && (b.start < a.endOffset)

theorem overlaps_comm (a b : ByteRange) : a.overlaps b = b.overlaps a := Bool.and_comm _ _

end ByteRange

inductive RangeLockKind where
  | shared
  | exclusive
deriving DecidableEq

/-- Who owns a lock's deadline: the lock itself, or its handle's lease. -/
inductive RangeLockLifetime where
  | independent
  | handle
deriving DecidableEq

/-! ## Requests -/

structure OpenHandleRequest where
  operationId : OperationId
  handleId : HandleId
  branchId : BranchId
  volumeId : VolumeId
  path : NamespacePath
  principalId : PrincipalId
  authorizationRevision : Nat
  gatewayNodeId : NodeId
  desiredAccess : HandleAccess
  shareAccess : HandleShare
  createDisposition : CreateDisposition
  deleteOnClose : Bool
  (leaseExpiresAt openedAt : UnixMicros)
deriving DecidableEq

structure HandleLeaseRequest where
  operationId : OperationId
  handleId : HandleId
  expectedFence : Nat
  principalId : PrincipalId
  authorizationRevision : Nat
  gatewayNodeId : NodeId
  takeover : Bool
  (leaseExpiresAt observedAt : UnixMicros)
deriving DecidableEq

structure CloseHandleRequest where
  operationId : OperationId
  handleId : HandleId
  expectedFence : Nat
  principalId : PrincipalId
  gatewayNodeId : NodeId
  observedAt : UnixMicros
deriving DecidableEq

structure LockRangeRequest where
  operationId : OperationId
  lockId : LockId
  handleId : HandleId
  handleFence : Nat
  principalId : PrincipalId
  gatewayNodeId : NodeId
  range : ByteRange
  kind : RangeLockKind
  lifetime : RangeLockLifetime
  (leaseExpiresAt observedAt : UnixMicros)
deriving DecidableEq

structure UnlockRangeRequest where
  operationId : OperationId
  lockId : LockId
  handleId : HandleId
  handleFence : Nat
  principalId : PrincipalId
  gatewayNodeId : NodeId
  observedAt : UnixMicros
deriving DecidableEq

structure HandleWriteAdmissionRequest where
  operationId : OperationId
  handleId : HandleId
  handleFence : Nat
  principalId : PrincipalId
  authorizationRevision : Nat
  gatewayNodeId : NodeId
  range : ByteRange
  contentDigest : Digest
  observedAt : UnixMicros
deriving DecidableEq

/-- What `set_length` and `set_disposition` change. -/
inductive InformationChange where
  | length (logicalLength : Nat)
  | disposition (deleteOnClose : Bool)
deriving DecidableEq

/-- A fenced change of handle information (`SetHandleLengthRequest`,
`SetHandleDispositionRequest`). -/
structure HandleInformationRequest where
  operationId : OperationId
  handleId : HandleId
  handleFence : Nat
  principalId : PrincipalId
  gatewayNodeId : NodeId
  change : InformationChange
  observedAt : UnixMicros
deriving DecidableEq

structure FilesystemHandleFlushRequest where
  operationId : OperationId
  handleId : HandleId
  handleFence : Nat
  principalId : PrincipalId
  authorizationRevision : Nat
  gatewayNodeId : NodeId
  (expectedStageSequence finalLength : Nat)
  (sparse retainSupersededHistory : Bool)
  (retentionPolicySequence manifestFormatVersion contentAuthorizationRevision : Nat)
  (contentDeadline observedAt : UnixMicros)
deriving DecidableEq

/-! ## Rows -/

/-- `state` of a handle or a lock: live, given up by its owner, or outlived. -/
inductive LeaseState where
  | active
  | released
  | expired
deriving DecidableEq

structure OpenHandle where
  handleId : HandleId
  /-- The open operation and its request digest. -/
  request : OpenHandleRequest
  branchId : BranchId
  volumeId : VolumeId
  openedNamespaceCommitId : NamespaceCommitId
  objectId : ObjectId
  objectRevisionId : ObjectRevisionId
  openedVersionId : FileVersionId
  principalId : PrincipalId
  authorizationRevision : Nat
  gatewayNodeId : NodeId
  handleFence : Nat
  desiredAccess : HandleAccess
  shareAccess : HandleShare
  deleteOnClose : Bool
  leaseExpiresAt : UnixMicros
  state : LeaseState
  workingLogicalLength : Nat
  path : NamespacePath

structure RangeLock where
  lockId : LockId
  /-- The acquisition and its request digest; its fence and deadline never change. -/
  request : LockRangeRequest
  handleId : HandleId
  handleFence : Nat
  range : ByteRange
  kind : RangeLockKind
  lifetime : RangeLockLifetime
  leaseExpiresAt : UnixMicros
  state : LeaseState

/-- `state` and `ready_at` of a pending delete, which are present together. -/
inductive PendingState where
  | requested
  | ready (readyAt : UnixMicros)
deriving DecidableEq

structure PendingObjectDelete where
  branchId : BranchId
  volumeId : VolumeId
  objectId : ObjectId
  requestingHandleId : HandleId
  objectRevisionId : ObjectRevisionId
  versionId : FileVersionId
  requestedAt : UnixMicros
  state : PendingState

inductive CloseHandleOutcome where
  | closed
  | deleteDeferred
  | deleteReady
deriving DecidableEq

/-- One row of `handle_mutation_operations`, by operation kind. -/
inductive HandleMutation where
  | renewed (request : HandleLeaseRequest) (resultingFence : Nat)
  | closed (request : CloseHandleRequest) (outcome : CloseHandleOutcome)
  | unlocked (request : UnlockRangeRequest)

def HandleMutation.operationId : HandleMutation → OperationId
  | .renewed request _ => request.operationId
  | .closed request _ => request.operationId
  | .unlocked request => request.operationId

structure InformationOperation where
  request : HandleInformationRequest
  workingLogicalLength : Nat
  deleteOnClose : Bool

/-- One row of `handle_flush_plans`: the request and the publication it planned. -/
structure HandleFlushPlan where
  request : FilesystemHandleFlushRequest
  branchId : BranchId
  volumeId : VolumeId
  objectId : ObjectId
  (expectedVersionId versionId : FileVersionId)
  expectedNamespaceCommitId : NamespaceCommitId
  (expectedFileObjectRevisionId fileObjectRevisionId : ObjectRevisionId)
  rootObjectId : ObjectId
  rootObjectRevisionId : ObjectRevisionId
  namespaceCommitId : NamespaceCommitId
  entryGeneration : Nat
  path : NamespacePublicationPath

/-- One row of `handle_flush_progress`: the last published flush of a handle. -/
structure HandleFlushProgress where
  handleId : HandleId
  namespaceCommitId : NamespaceCommitId
  objectRevisionId : ObjectRevisionId
  versionId : FileVersionId
  committedStageSequence : Nat
  flushOperationId : OperationId

/-- The tables of one branch store that handle operations read or write. -/
structure BranchStore where
  ns : Namespace
  publications : List RootFilePublication
  directories : List DirectoryPublication
  renames : List NamespaceRenamePublication
  unlinks : List NamespaceUnlinkPublication
  handles : List OpenHandle
  locks : List RangeLock
  pending : List PendingObjectDelete
  mutations : List HandleMutation
  information : List InformationOperation
  admissions : List HandleWriteAdmissionRequest
  plans : List HandleFlushPlan
  progress : List HandleFlushProgress

namespace BranchStore

def empty : BranchStore := ⟨.empty, [], [], [], [], [], [], [], [], [], [], [], []⟩

variable (store : BranchStore)

def handle? (id : HandleId) : Option OpenHandle :=
  get OpenHandle.handleId id store.handles

def progress? (id : HandleId) : Option HandleFlushProgress :=
  get HandleFlushProgress.handleId id store.progress

variable (operationId : OperationId)

def plan? : Option HandleFlushPlan :=
  get (·.request.operationId) operationId store.plans

def lockByOperation? : Option RangeLock :=
  get (·.request.operationId) operationId store.locks

def admission? : Option HandleWriteAdmissionRequest :=
  get HandleWriteAdmissionRequest.operationId operationId store.admissions

def information? : Option InformationOperation :=
  get (·.request.operationId) operationId store.information

def mutation? : Option HandleMutation :=
  get HandleMutation.operationId operationId store.mutations

end BranchStore

variable (handle : OpenHandle)

def OpenHandle.on (branchId : BranchId) (volumeId : VolumeId) (objectId : ObjectId) : Bool :=
  handle.branchId == branchId && handle.volumeId == volumeId && handle.objectId == objectId

/-- `state = 1 AND lease_expires_at > now`. -/
def OpenHandle.liveAt (now : UnixMicros) : Bool :=
  handle.state == .active && (now < handle.leaseExpiresAt)

/-- `state = 1 AND lease_expires_at <= now`. -/
def OpenHandle.outlivedAt (now : UnixMicros) : Bool :=
  handle.state == .active && (handle.leaseExpiresAt ≤ now)

def PendingObjectDelete.on (row : PendingObjectDelete) (branchId : BranchId) (volumeId : VolumeId)
    (objectId : ObjectId) : Bool :=
  row.branchId == branchId && row.volumeId == volumeId && row.objectId == objectId

namespace BranchStore

/-- `to_i64`: a value that an SQLite integer can hold. -/
def toI64 (value : Nat) : Except HandleError Unit :=
  if i64Max < value then .error .invalidInput else .ok ()

/-! ## Statements shared by every operation -/

variable (store : BranchStore) (operationId : OperationId)

/-- `reject_operation_collision`: the operation id is unused by the other kinds of operation.
Flush planning looks up its own plans beforehand, so `ignorePlans` leaves that table out. -/
def operationUsed (ignorePlans : Bool) : Bool :=
  store.publications.any (·.file.operationId == operationId) ||
    store.directories.any (·.operationId == operationId) ||
    store.renames.any (·.operationId == operationId) ||
    store.unlinks.any (·.operationId == operationId) ||
    store.locks.any (·.request.operationId == operationId) ||
    store.mutations.any (·.operationId == operationId) ||
    store.information.any (·.request.operationId == operationId) ||
    store.admissions.any (·.operationId == operationId) ||
    (!ignorePlans && store.plans.any (·.request.operationId == operationId))

def rejectOperationCollision : Except HandleError Unit :=
  if store.operationUsed operationId false then .error .operationConflict else .ok ()

/-- The revision and version a handle pins: its last flush, or what it opened. -/
def pinned (handle : OpenHandle) : ObjectRevisionId × FileVersionId :=
  match store.progress? handle.handleId with
  | some progress => (progress.objectRevisionId, progress.versionId)
  | none => (handle.objectRevisionId, handle.openedVersionId)

/-- The delete a handle asks for when it goes away. -/
def pendingRow (handle : OpenHandle) (now : UnixMicros) : PendingObjectDelete :=
  { branchId := handle.branchId
    volumeId := handle.volumeId
    objectId := handle.objectId
    requestingHandleId := handle.handleId
    objectRevisionId := (store.pinned handle).1
    versionId := (store.pinned handle).2
    requestedAt := now
    state := .requested }

/-- `INSERT … ON CONFLICT(branch_id, object_id) DO NOTHING`. -/
def insertPending (rows : List PendingObjectDelete) (row : PendingObjectDelete) :
    List PendingObjectDelete :=
  if rows.any (fun old => old.branchId == row.branchId && old.objectId == row.objectId) then rows
  else rows ++ [row]

def heldOpen (handles : List OpenHandle) (row : PendingObjectDelete) (now : UnixMicros) : Bool :=
  handles.any fun handle => handle.on row.branchId row.volumeId row.objectId && handle.liveAt now

/-- `expire_stale_handles`: locks and handles past their lease, the deletes those handles asked
for, and the deletes that no live handle holds back any more. -/
def expireStaleHandles (now : UnixMicros) : BranchStore :=
  let locks := amend
    (fun lock => lock.state == .active && (decide (lock.leaseExpiresAt ≤ now) ||
      store.handles.any fun h => h.handleId == lock.handleId && h.outlivedAt now))
    (fun lock => { lock with state := .expired }) store.locks
  let requested := (store.handles.filter fun h => h.outlivedAt now && h.deleteOnClose).foldl
    (fun rows handle => insertPending rows (store.pendingRow handle now)) store.pending
  let handles := amend (·.outlivedAt now) (fun h => { h with state := .expired }) store.handles
  let pending := amend (fun row => row.state == .requested && !heldOpen handles row now)
    (fun row => { row with state := .ready now }) requested
  { store with locks := locks, handles := handles, pending := pending }

/-- `load_active`: the handle is live now, and what it opened is in the branch's history. -/
def loadActive (handleId : HandleId) (now : UnixMicros) : Except HandleError OpenHandle := do
  match store.handle? handleId with
  | none => .error .staleHandle
  | some handle =>
    if handle.liveAt now then
      if handle.authorizationRevision = 0 ∨ handle.handleFence = 0 then .error .corrupt
      else do
        store.ns.validateOpenLineage handle.branchId handle.volumeId handle.openedNamespaceCommitId
          handle.objectId handle.objectRevisionId handle.openedVersionId
        return handle
    else .error .staleHandle

end BranchStore

end MeshSpan
