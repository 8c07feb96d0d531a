import MeshSpan.Handles.Lease

/- Flush plans, publications, renames and unlinks as the handle tables see them.

   Correspondence (Rust ↔ Lean)
     handles/flush.rs                  prepare, resolve_current_path, build_plan,
                                       advance_progress
     namespace_publication.rs          publish_inner, create_directory_inner
     namespace_publication/rename.rs   apply
     namespace_publication/unlink.rs   apply
     handles/rename.rs                 prepare, prepare_unlink, consume_unlink_authority,
                                       relocate_paths, load_ready_delete, load_ready_deletes

   The adapters' own plan tables for rename and unlink only make a retry plan the
   same publication again; a rename or unlink is given here by its publication. -/

namespace MeshSpan

open Rows

/-! ## Derived identities -/

inductive DerivePurpose where
  | version
  | commit
  | file
  | root
  | ancestor
deriving DecidableEq

def DerivePurpose.code : DerivePurpose → Nat
  | .version => 0
  | .commit => 1
  | .file => 2
  | .root => 3
  | .ancestor => 4

/-- The identity hashed from an operation id, a purpose and an ordinal: an injective pairing. -/
def derive (operationId : OperationId) (purpose : DerivePurpose) (ordinal : Nat) : Nat :=
  Nat.pair purpose.code (Nat.pair operationId ordinal)

def planTransition (entry : DirectoryEntry) (newRevisionId : ObjectRevisionId) :
    Except HandleError DirectoryRevisionTransition :=
  if moves : entry.objectRevisionId ≠ newRevisionId then
    .ok ⟨entry.objectId, entry.objectRevisionId, newRevisionId, moves⟩
  else .error .invalidInput

/-- One transition for each directory of a resolved path, numbered from `ordinal`. -/
def planTransitions (operationId : OperationId) :
    Nat → List DirectoryEntry → Except HandleError (List DirectoryRevisionTransition)
  | _, [] => .ok []
  | ordinal, entry :: entries => do
    let transition ← planTransition entry (derive operationId .ancestor ordinal)
    let rest ← planTransitions operationId (ordinal + 1) entries
    return transition :: rest

/-- `NamespacePublicationPath::new`. -/
def planPath (path : NamespacePath) (ancestors : List DirectoryRevisionTransition) :
    Except HandleError NamespacePublicationPath :=
  if chain : ancestors.length + 1 = path.length then .ok ⟨path, ancestors, chain⟩
  else .error .invalidInput

/-- The publication carries out exactly the plan recorded under its operation id. -/
def HandleFlushPlan.matchesPublication (plan : HandleFlushPlan) (publication : RootFilePublication) :
    Prop :=
  plan.branchId = publication.file.branchId ∧ plan.volumeId = publication.file.volumeId ∧
    plan.objectId = publication.file.objectId ∧ plan.versionId = publication.file.versionId ∧
    plan.namespaceCommitId = publication.namespaceCommitId ∧
    plan.fileObjectRevisionId = publication.fileObjectRevisionId ∧
    plan.rootObjectRevisionId = publication.rootObjectRevisionId ∧
    publication.file.expectedCurrentVersionId = some plan.expectedVersionId ∧
    publication.expectedFileObjectRevisionId = some plan.expectedFileObjectRevisionId

instance (plan : HandleFlushPlan) (publication : RootFilePublication) :
    Decidable (plan.matchesPublication publication) := by
  unfold HandleFlushPlan.matchesPublication
  infer_instance

namespace BranchStore

/-! ## Flush -/

structure CurrentPath where
  namespaceCommit : NamespaceCommitId
  rootObject : ObjectId
  fileRevision : ObjectRevisionId
  version : FileVersionId
  entryGeneration : Nat
  ancestors : List DirectoryEntry

variable (store : BranchStore) (handle : OpenHandle)

def resolveCurrentPath : Except HandleError CurrentPath :=
  match store.ns.headCommit? handle.branchId handle.volumeId with
  | none => .error .sqlite
  | some commit => do
    match ← store.ns.walk handle.volumeId commit.rootObjectId commit.rootObjectRevisionId
        handle.path with
    | .arrived above (some entry) =>
      if entry.kind ≠ .file ∨ entry.objectId ≠ handle.objectId then .error .staleHandle
      else
        let version ← store.ns.leafVersion handle.volumeId entry
        return ⟨commit.commitId, commit.rootObjectId, entry.objectRevisionId, version,
          entry.generation, above⟩
    | _ => .error .staleHandle

/-- `load_progress`: the revision and version the next flush replaces, and the last stage. -/
def loadProgress : Except HandleError (ObjectRevisionId × FileVersionId × Nat) :=
  match store.progress? handle.handleId with
  | none => .ok (handle.objectRevisionId, handle.openedVersionId, 0)
  | some progress => do
    store.ns.validateOpenLineage handle.branchId handle.volumeId progress.namespaceCommitId
      handle.objectId progress.objectRevisionId progress.versionId
    if progress.committedStageSequence = 0 then .error .corrupt
    else return (progress.objectRevisionId, progress.versionId, progress.committedStageSequence)

variable (request : FilesystemHandleFlushRequest)

def validateFlushRequest : Except HandleError Unit :=
  if request.handleFence = 0 ∨ request.authorizationRevision = 0 ∨
      request.expectedStageSequence = 0 ∨ i64Max < request.finalLength ∨
      request.retentionPolicySequence = 0 ∨ i64Max < request.retentionPolicySequence ∨
      request.manifestFormatVersion = 0 ∨ request.contentAuthorizationRevision = 0 ∨
      request.contentDeadline ≤ request.observedAt then .error .invalidInput
  else .ok ()

/-- `validate_authority` of a flush. -/
def validateFlusher (handle : OpenHandle) : Except HandleError Unit :=
  if handle.handleFence ≠ request.handleFence ∨ handle.principalId ≠ request.principalId ∨
      handle.gatewayNodeId ≠ request.gatewayNodeId ∨
      handle.authorizationRevision ≠ request.authorizationRevision ∨
      handle.leaseExpiresAt < request.contentDeadline ∨
      request.finalLength ≠ handle.workingLogicalLength then .error .staleHandle
  else if handle.desiredAccess.writes then .ok () else .error .invalidInput

/-- `build_plan`. -/
def buildFlushPlan (handle : OpenHandle)
    (current : CurrentPath) : Except HandleError HandleFlushPlan := do
  let ancestors ← planTransitions request.operationId 0 current.ancestors
  let path ← planPath handle.path ancestors
  return {
    request := request
    branchId := handle.branchId
    volumeId := handle.volumeId
    objectId := handle.objectId
    expectedVersionId := current.version
    versionId := derive request.operationId .version 0
    expectedNamespaceCommitId := current.namespaceCommit
    expectedFileObjectRevisionId := current.fileRevision
    fileObjectRevisionId := derive request.operationId .file 0
    rootObjectId := current.rootObject
    rootObjectRevisionId := derive request.operationId .root 0
    namespaceCommitId := derive request.operationId .commit 0
    entryGeneration := current.entryGeneration
    path := path }

/-- `prepare`: a durable plan for one flush of a handle. -/
def prepareFlush (request : FilesystemHandleFlushRequest) :
    Except HandleError (HandleFlushPlan × BranchStore) := do
  validateFlushRequest request
  match store.plan? request.operationId with
  | some plan => if plan.request = request then return (plan, store) else .error .operationConflict
  | none =>
    if store.operationUsed request.operationId true then .error .operationConflict
    else do
      let store := store.expireStaleHandles request.observedAt
      let handle ← store.loadActive request.handleId request.observedAt
      validateFlusher request handle
      let current ← store.resolveCurrentPath handle
      let (revision, version, committed) ← store.loadProgress handle
      if current.fileRevision ≠ revision ∨ current.version ≠ version ∨
          request.expectedStageSequence ≤ committed then .error .staleHandle
      else do
        let plan ← buildFlushPlan request handle current
        toI64 request.authorizationRevision
        toI64 request.expectedStageSequence
        toI64 request.contentAuthorizationRevision
        return (plan, { store with plans := store.plans ++ [plan] })

variable (plan : HandleFlushPlan) (publication : RootFilePublication)

def progressRow : HandleFlushProgress :=
  ⟨plan.request.handleId, publication.namespaceCommitId, publication.fileObjectRevisionId,
    publication.file.versionId, plan.request.expectedStageSequence, publication.file.operationId⟩

/-- `persist_progress_advance`: the handle's last flush is the one the plan was based on. -/
def persistProgressAdvance (handle : OpenHandle) :
    Except PublicationError BranchStore :=
  match store.progress? plan.request.handleId with
  | some prior =>
    if prior.objectRevisionId ≠ plan.expectedFileObjectRevisionId ∨
        prior.versionId ≠ plan.expectedVersionId ∨
        plan.request.expectedStageSequence ≤ prior.committedStageSequence then .error .staleHead
    else .ok { store with
      progress := amend (·.handleId == plan.request.handleId)
        (fun _ => progressRow plan publication) store.progress }
  | none =>
    if handle.objectRevisionId ≠ plan.expectedFileObjectRevisionId ∨
        handle.openedVersionId ≠ plan.expectedVersionId then .error .staleHead
    else .ok { store with progress := store.progress ++ [progressRow plan publication] }

variable (publication : RootFilePublication)

/-- `advance_progress`: a publication that carries out a plan needs the plan's live fence. -/
def advanceProgress : Except PublicationError BranchStore :=
  match store.plan? publication.file.operationId with
  | none => .ok store
  | some plan =>
    if plan.request.handleFence = 0 ∨ plan.request.expectedStageSequence = 0 ∨
        ¬ plan.matchesPublication publication then .error .corrupt
    else match store.handle? plan.request.handleId with
      | none => .error .staleHead
      | some handle =>
        if handle.state = .active ∧ handle.handleFence = plan.request.handleFence then
          store.persistProgressAdvance plan publication handle
        else .error .staleHead

/-! ## Publications -/

structure NamespacePublicationReceipt where
  disposition : PublicationDisposition
  publication : RootFilePublication

variable (operationId : OperationId)

/-- `reject_operation_receipts`: the operation id belongs to no publication of another kind. -/
def rejectPublicationCollision : Except HandleError Unit :=
  if store.directories.any (·.operationId == operationId) ||
      store.renames.any (·.operationId == operationId) ||
      store.unlinks.any (·.operationId == operationId) then
    .error (.namespace .operationConflict)
  else .ok ()

/-- The open that an atomic create performs on the file it has just published. -/
def openPublished :
    Option OpenHandleRequest → Except HandleError (Option OpenHandleReceipt × BranchStore)
  | none => .ok (none, store)
  | some request => do
    let (receipt, opened) ← store.openCreated request
      ⟨publication.namespaceCommitId, publication.file.objectId, publication.fileObjectRevisionId,
        publication.file.versionId, publication.file.logicalLength⟩
    return (some receipt, opened)

def replayPublished : Option OpenHandleRequest → Except HandleError (Option OpenHandleReceipt)
  | none => .ok none
  | some request => do
    match ← store.loadOpenReceipt request.operationId with
    | none => .error .corrupt
    | some receipt => return some receipt

/-- `publish_inner`: a file publication, with the flush progress it advances and the handle it
opens. `content` is what the content tables answer. -/
def publish (request : Option OpenHandleRequest) (content : Except PublicationError Unit) :
    Except HandleError ((NamespacePublicationReceipt × Option OpenHandleReceipt) × BranchStore) := do
  liftNamespace publication.validate
  store.rejectPublicationCollision publication.file.operationId
  match store.publications.find? (·.file.operationId == publication.file.operationId) with
  | some recorded =>
    if recorded = publication then
      let receipt ← store.replayPublished request
      return ((⟨.replayed, publication⟩, receipt), store)
    else .error (.namespace .operationConflict)
  | none => do
    let ns ← liftNamespace (store.ns.publishFile publication content)
    let advanced ← liftNamespace ({ store with ns := ns }.advanceProgress publication)
    let (receipt, opened) ← advanced.openPublished publication request
    return ((⟨.applied, publication⟩, receipt),
      { opened with publications := opened.publications ++ [publication] })

def createDirectory (store : BranchStore) (publication : DirectoryPublication) :
    Except HandleError (PublicationDisposition × BranchStore) := do
  liftNamespace publication.validate
  if store.publications.any (·.file.operationId == publication.operationId) ||
      store.renames.any (·.operationId == publication.operationId) ||
      store.unlinks.any (·.operationId == publication.operationId) then
    .error (.namespace .operationConflict)
  else match store.directories.find? (·.operationId == publication.operationId) with
    | some recorded =>
      if recorded = publication then return (.replayed, store)
      else .error (.namespace .operationConflict)
    | none => do
      let ns ← liftNamespace (store.ns.createDirectory publication)
      return (.applied, { store with ns := ns, directories := store.directories ++ [publication] })

/-! ## Rename -/

variable (branchId : BranchId) (volumeId : VolumeId)

/-- `require_delete_handle`: the presented handle is live on the object and may delete. -/
def requireDeleteHandle
    (objectId : ObjectId) (handleId : HandleId) (now : UnixMicros) : Except HandleError Unit :=
  match store.handle? handleId with
  | none => .error .staleHandle
  | some handle =>
    if handle.on branchId volumeId objectId && handle.liveAt now then
      if handle.desiredAccess.deletes then .ok () else .error .invalidInput
    else .error .staleHandle

/-- `reject_share_conflict`: every other live handle of the object shares deletion. -/
def rejectShareConflict
    (objectId : ObjectId) (requesting : Option HandleId) (now : UnixMicros) : Except HandleError Unit :=
  if store.handles.any (fun handle => handle.on branchId volumeId objectId && handle.liveAt now &&
      !handle.shareAccess.permitsDelete && requesting != some handle.handleId) then
    .error .sharingViolation
  else .ok ()

/-- A plan is finished while it is the last flush its handle has published. -/
def planFinished : Bool :=
  store.progress.any (·.flushOperationId == plan.request.operationId)

def rejectUnfinishedFlush (objectId : ObjectId) : Except HandleError Unit :=
  if store.plans.any (fun plan => plan.branchId == branchId && plan.volumeId == volumeId &&
      plan.objectId == objectId && !store.planFinished plan) then .error .flushInProgress
  else .ok ()

/-- `prepare` of a rename or a direct unlink, on the store whose stale handles have expired. -/
def prepareRemoval
    (objectId : ObjectId) (requesting : Option HandleId) (now : UnixMicros) :
    Except HandleError Unit := do
  match requesting with
  | some handleId => store.requireDeleteHandle branchId volumeId objectId handleId now
  | none => .ok ()
  store.rejectShareConflict branchId volumeId objectId requesting now
  store.rejectPendingDelete branchId volumeId objectId
  store.rejectUnfinishedFlush branchId volumeId objectId

/-- `relocate_paths`: every active handle of the object follows its file to the target. -/
def relocatePaths
    (objectId : ObjectId) (source target : NamespacePath) : Except HandleError BranchStore :=
  let moved : OpenHandle → Bool := fun handle =>
    handle.on branchId volumeId objectId && handle.state == .active
  if store.handles.any (fun handle => moved handle && handle.path != source) then .error .corrupt
  else if store.handles.any moved && (Namespace.maximumPathDepth < target.length) then
    .error .sqlite
  else .ok { store with handles := amend moved (fun handle => { handle with path := target }) store.handles }

/-- `apply` of a rename. -/
def rename (publication : NamespaceRenamePublication) :
    Except HandleError (PublicationDisposition × BranchStore) := do
  liftNamespace publication.validateShape
  match store.renames.find? (·.operationId == publication.operationId) with
  | some recorded =>
    if recorded = publication then return (.replayed, store) else .error .operationConflict
  | none =>
    if store.publications.any (·.file.operationId == publication.operationId) ||
        store.directories.any (·.operationId == publication.operationId) ||
        store.unlinks.any (·.operationId == publication.operationId) then
      .error (.namespace .operationConflict)
    else do
      let (head, commit) ← liftNamespace (store.ns.loadExpectedHead publication.branchId
        publication.volumeId publication.rootObjectId publication.expectedNamespaceCommitId)
      let (source, revision) ← store.ns.renameSource publication commit.rootObjectRevisionId
      let store := store.expireStaleHandles publication.createdAt
      store.prepareRemoval publication.branchId publication.volumeId publication.expectedObjectId
        publication.requestingHandleId publication.createdAt
      let moved ← store.ns.renameMove publication source revision
      let ns ← moved.renameCommit publication revision head.sequence
      let relocated ← { store with ns := ns }.relocatePaths publication.branchId
        publication.volumeId publication.expectedObjectId publication.source.path
        publication.target.path
      return (.applied, { relocated with renames := relocated.renames ++ [publication] })

/-! ## Unlink -/

variable (publication : NamespaceUnlinkPublication) (requestingHandleId : HandleId)

/-- The pending delete that a delete-on-close unlink finishes. -/
def finishes
    (requestedAt readyAt : UnixMicros) (row : PendingObjectDelete) : Bool :=
  row.on publication.branchId publication.volumeId publication.expectedObjectId &&
    row.requestingHandleId == requestingHandleId &&
    row.objectRevisionId == publication.expectedObjectRevisionId &&
    some row.versionId == publication.expectedFileVersionId &&
    row.requestedAt == requestedAt && row.state == .ready readyAt

/-- `prepare_unlink`, on the store whose stale handles have expired. -/
def prepareUnlink : Except HandleError Unit := do
  match publication.authority with
  | .direct requesting =>
    store.prepareRemoval publication.branchId publication.volumeId publication.expectedObjectId
      requesting publication.createdAt
  | .deleteOnClose requestingHandleId requestedAt readyAt => do
    store.rejectUnfinishedFlush publication.branchId publication.volumeId publication.expectedObjectId
    match publication.expectedFileVersionId with
    | none => .error .invalidInput
    | some _ =>
      if store.pending.any (fun row => finishes publication requestingHandleId requestedAt readyAt row &&
          !heldOpen store.handles row publication.createdAt) then .ok ()
      else .error .deletePending

def consumeUnlinkAuthority : Except HandleError BranchStore :=
  match publication.authority with
  | .direct _ => .ok store
  | .deleteOnClose requestingHandleId requestedAt readyAt =>
    if store.pending.countP (finishes publication requestingHandleId requestedAt readyAt) = 1 then
      .ok { store with
        pending := store.pending.filter fun row =>
          !finishes publication requestingHandleId requestedAt readyAt row }
    else .error .corrupt

/-- `apply` of an unlink. -/
def unlink : Except HandleError (PublicationDisposition × BranchStore) := do
  liftNamespace publication.validateShape
  match store.unlinks.find? (·.operationId == publication.operationId) with
  | some recorded =>
    if recorded = publication then return (.replayed, store) else .error .operationConflict
  | none =>
    if store.publications.any (·.file.operationId == publication.operationId) ||
        store.directories.any (·.operationId == publication.operationId) ||
        store.renames.any (·.operationId == publication.operationId) then
      .error (.namespace .operationConflict)
    else do
      let (head, commit) ← liftNamespace (store.ns.loadExpectedHead publication.branchId
        publication.volumeId publication.rootObjectId publication.expectedNamespaceCommitId)
      let directories ← liftNamespace (store.ns.loadPathDirectories publication.volumeId
        publication.rootObjectId commit.rootObjectRevisionId publication.rootObjectRevisionId
        publication.path.path publication.path.ancestors)
      let revision ← store.ns.validateTarget publication directories
      let store := store.expireStaleHandles publication.createdAt
      store.prepareUnlink publication
      let ns ← store.ns.unlinkCommit publication directories revision head.sequence
      let consumed ← { store with ns := ns }.consumeUnlinkAuthority publication
      return (.applied, { consumed with unlinks := consumed.unlinks ++ [publication] })

/-! ## Ready deletes -/

structure ReadyNamespaceDelete where
  branchId : BranchId
  volumeId : VolumeId
  objectId : ObjectId
  requestingHandleId : HandleId
  objectRevisionId : ObjectRevisionId
  fileVersionId : FileVersionId
  path : NamespacePath
  (requestedAt readyAt : UnixMicros)

/-- The work item of one pending row that is ready at the given instant. -/
def readyDelete (row : PendingObjectDelete) (readyAt : UnixMicros) :
    Except HandleError ReadyNamespaceDelete :=
  if readyAt < row.requestedAt then .error .corrupt
  else match store.handle? row.requestingHandleId with
    | none => .error .corrupt
    | some handle => .ok ⟨row.branchId, row.volumeId, row.objectId, row.requestingHandleId,
        row.objectRevisionId, row.versionId, handle.path, row.requestedAt, readyAt⟩

def loadReadyDelete (now : UnixMicros) :
    Except HandleError (ReadyNamespaceDelete × BranchStore) := do
  let store := store.expireStaleHandles now
  match store.pending.find? (fun row => row.requestingHandleId == requestingHandleId &&
      row.state != .requested) with
  | some row =>
    match row.state with
    | .requested => .error .deletePending
    | .ready readyAt =>
      let ready ← store.readyDelete row readyAt
      return (ready, store)
  | none => .error .deletePending

structure ReadyNamespaceDeletePage where
  entries : List ReadyNamespaceDelete
  nextAfterObjectId : Option ObjectId

def readyEntries (store : BranchStore) :
    List PendingObjectDelete → Except HandleError (List ReadyNamespaceDelete)
  | [] => .ok []
  | row :: rows =>
    match row.state with
    | .requested => store.readyEntries rows
    | .ready readyAt => do
      let entry ← store.readyDelete row readyAt
      let rest ← store.readyEntries rows
      return entry :: rest

/-- The ready rows of a volume after a cursor, by object. -/
def readyRows (after : Option ObjectId) : List PendingObjectDelete :=
  (store.pending.filter fun row => row.branchId == branchId && row.volumeId == volumeId &&
    row.state != .requested && after.all fun cursor => cursor < row.objectId).insertionSort
    fun a b => a.objectId ≤ b.objectId

/-- `load_ready_deletes`: expire, then one bounded page of delete-on-close work. -/
def loadReadyDeletes
    (after : Option ObjectId) (maximumResults : Nat) (now : UnixMicros) :
    Except HandleError (ReadyNamespaceDeletePage × BranchStore) := do
  if maximumResults = 0 ∨ 1024 < maximumResults then .error .invalidInput
  else do
    let store := store.expireStaleHandles now
    let fetched ← store.readyEntries ((store.readyRows branchId volumeId after).take (maximumResults + 1))
    let entries := fetched.take maximumResults
    let cursor := if maximumResults < fetched.length then entries.getLast?.map (·.objectId) else none
    return (⟨entries, cursor⟩, store)

end BranchStore

end MeshSpan
