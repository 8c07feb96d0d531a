import MeshSpan.Handles.System
import MeshSpan.Branch.History

/- What each committed operation of a branch store did.

   One inversion lemma per operation: either it answered from a recorded
   operation and changed nothing, or its guards held on the store whose stale
   rows have expired and the committed store is the given update of that store.
   The invariants over whole histories use these lemmas and never look into the
   operations again. -/

namespace MeshSpan

open Rows

namespace BranchStore

variable {store committed : BranchStore} {handle : OpenHandle}

theorem answered {ε ρ : Type} {c : Prop} [Decidable c] {recorded receipt : ρ} {err : ε}
    (h : (if c then .ok (recorded, store) else .error err) = Except.ok (receipt, committed)) :
    committed = store := by
  obtain ⟨-, h⟩ := admit_ok.mp h
  cases h
  rfl

/-! ## Guards -/

variable {now : UnixMicros} {branchId : BranchId} {objectId : ObjectId} {volumeId : VolumeId}
  {receipt : OpenHandleReceipt} {store : BranchStore} {disposition : PublicationDisposition}

theorem loadActive_ok {handleId : HandleId} (h : store.loadActive handleId now = .ok handle) :
    store.handle? handleId = some handle ∧ handle.state = .active ∧ now < handle.leaseExpiresAt := by
  unfold loadActive at h
  split at h
  · cases h
  rename_i found isRow
  obtain ⟨live, h⟩ := admit_ok.mp h
  obtain ⟨-, h⟩ := guard_ok.mp h
  obtain ⟨-, -, same⟩ := bind_eq_ok.mp h
  cases same
  simp only [OpenHandle.liveAt, Bool.and_eq_true, beq_iff_eq, decide_eq_true_eq] at live
  exact ⟨isRow, live⟩

theorem validateLeaseOwner_ok {request : HandleLeaseRequest}
    (h : validateLeaseOwner request handle = .ok ()) :
    handle.handleFence = request.expectedFence ∧ handle.leaseExpiresAt ≤ request.leaseExpiresAt := by
  obtain ⟨owner, h⟩ := guard_ok.mp h
  push Not at owner
  exact ⟨owner.1, owner.2.2.2⟩

theorem resultingFence_ok {request : HandleLeaseRequest} {fence : Nat}
    (h : resultingFence request = .ok fence) :
    request.expectedFence ≤ fence ∧ (request.takeover = false → fence = request.expectedFence) := by
  unfold resultingFence checkedAdd at h
  split at h
  · rename_i takeover
    split at h
    · rename_i next isNext
      split at isNext
      · cases isNext
        cases h
        exact ⟨Nat.le_succ _, fun no => absurd takeover (by simp [no])⟩
      · cases isNext
    · cases h
  · cases h
    exact ⟨le_refl _, fun _ => rfl⟩

theorem validateLockOwner_ok {request : LockRangeRequest}
    (h : validateLockOwner request handle = .ok ()) :
    handle.handleFence = request.handleFence ∧ request.leaseExpiresAt ≤ handle.leaseExpiresAt ∧
      (request.lifetime = .handle → request.leaseExpiresAt = handle.leaseExpiresAt) := by
  obtain ⟨owner, h⟩ := guard_ok.mp h
  push Not at owner
  exact ⟨owner.1, owner.2.2.2.1, owner.2.2.2.2⟩

theorem validateWriter_ok {request : HandleWriteAdmissionRequest}
    (h : validateWriter request handle = .ok ()) : handle.handleFence = request.handleFence := by
  obtain ⟨owner, h⟩ := guard_ok.mp h
  push Not at owner
  exact owner.1

theorem validateFlusher_ok {request : FilesystemHandleFlushRequest}
    (h : validateFlusher request handle = .ok ()) : handle.handleFence = request.handleFence := by
  obtain ⟨owner, h⟩ := guard_ok.mp h
  push Not at owner
  exact owner.1

theorem rejectPendingDelete_ok (h : store.rejectPendingDelete branchId volumeId objectId = .ok ()) :
    store.pendingOn branchId volumeId objectId = false := by
  obtain ⟨absent, h⟩ := guard_ok.mp h
  exact eq_false_of_ne_true absent

/-! ## Opening -/

structure Opened (store : BranchStore) (request : OpenHandleRequest) (committed : BranchStore) :
    Prop where
  authorized : request.authorizationRevision ≠ 0
  inserted : ∃ resolved path, store.ns.resolveFilePath request.branchId request.volumeId request.path =
      .ok (some resolved) ∧
    store.ns.resolveActualPath request.branchId request.volumeId request.path resolved = .ok path ∧
    store.handle? request.handleId = none ∧
    store.pendingOn request.branchId request.volumeId resolved.object = false ∧
    store.enforceShareModes request resolved.object = .ok () ∧
    committed = { store with handles := store.handles ++ [openedRow request resolved path] }

theorem validateOpen_ok {request : OpenHandleRequest} (h : validateOpen request = .ok ()) :
    request.authorizationRevision ≠ 0 := by
  obtain ⟨valid, h⟩ := guard_ok.mp h
  push Not at valid
  exact valid.1

theorem admitOpen_ok {request : OpenHandleRequest} {resolved : Namespace.ResolvedFile}
    (valid : validateOpen request = .ok ())
    (found : store.ns.resolveFilePath request.branchId request.volumeId request.path =
      .ok (some resolved)) (h : store.admitOpen request resolved = .ok (receipt, committed)) :
    Opened store request committed := by
  obtain ⟨fresh, h⟩ := guard_ok.mp h
  obtain ⟨_, pending, _, shares, path, isPath, -, -, h⟩ := bind₄_eq_ok.mp h
  obtain ⟨-, h⟩ := guard_ok.mp h
  cases h
  exact ⟨validateOpen_ok valid, resolved, path, found, isPath, by simpa using fresh,
    rejectPendingDelete_ok pending, shares, rfl⟩

theorem openExistingAt_ok {request : OpenHandleRequest} {expected : Option ObjectId}
    (h : store.openExistingAt request expected = .ok (receipt, committed)) :
    committed = store ∨ Opened (store.expireStaleHandles request.openedAt) request committed := by
  obtain ⟨_, valid, recorded, -, h⟩ := bind₂_eq_ok.mp h
  cases recorded with
  | some receipt' =>
    exact .inl (answered h)
  | none =>
    obtain ⟨-, -, found, isFound, h⟩ := bind₂_eq_ok.mp h
    cases found with
    | none => cases h
    | some resolved =>
      obtain ⟨-, h⟩ := guard_ok.mp h
      obtain ⟨-, h⟩ := guard_ok.mp h
      exact .inr (admitOpen_ok valid isFound h)

theorem openCreated_ok {request : OpenHandleRequest} {expected : Namespace.ResolvedFile}
    (h : store.openCreated request expected = .ok (receipt, committed)) :
    committed = store ∨ Opened (store.expireStaleHandles request.openedAt) request committed := by
  obtain ⟨_, valid, h⟩ := bind_eq_ok.mp h
  split at h
  · cases h
  · cases h
  all_goals
    obtain ⟨recorded, -, h⟩ := bind_eq_ok.mp h
    cases recorded with
    | some receipt' =>
      exact .inl (answered h)
    | none =>
      obtain ⟨-, -, found, isFound, h⟩ := bind₂_eq_ok.mp h
      cases found with
      | none => cases h
      | some resolved =>
        obtain ⟨-, h⟩ := guard_ok.mp h
        exact .inr (admitOpen_ok valid isFound h)

/-! ## Leases -/

structure Renewed (store : BranchStore) (request : HandleLeaseRequest) (handle : OpenHandle)
    (fence : Nat) (committed : BranchStore) : Prop where
  presented : request.expectedFence ≠ 0
  authorized : request.authorizationRevision ≠ 0
  active : (store.expireStaleHandles request.observedAt).loadActive request.handleId
    request.observedAt = .ok handle
  owner : handle.handleFence = request.expectedFence
  later : handle.leaseExpiresAt ≤ request.leaseExpiresAt
  raised : request.expectedFence ≤ fence
  kept : request.takeover = false → fence = request.expectedFence
  result : committed =
    { (store.expireStaleHandles request.observedAt).updateLease request fence with
      mutations := store.mutations ++ [.renewed request fence] }

theorem renew_ok {request : HandleLeaseRequest}
    {receipt : HandleLeaseReceipt} (h : store.renew request = .ok (receipt, committed)) :
    committed = store ∨ ∃ handle fence, Renewed store request handle fence committed := by
  obtain ⟨valid, h⟩ := guard_ok.mp h
  push Not at valid
  split at h
  · exact .inl (answered h)
  · cases h
  · obtain ⟨-, -, handle, active, _, owner, -, -, h⟩ := bind₄_eq_ok.mp h
    obtain ⟨fence, isFence, -, -, -, -, h⟩ := bind₃_eq_ok.mp h
    cases h
    obtain ⟨presents, later⟩ := validateLeaseOwner_ok owner
    obtain ⟨raised, kept⟩ := resultingFence_ok isFence
    exact .inr ⟨handle, fence, valid.1, valid.2.1, active, presents, later, raised, kept, rfl⟩

structure Closed (store : BranchStore) (request : CloseHandleRequest) (handle : OpenHandle)
    (committed : BranchStore) : Prop where
  active : (store.expireStaleHandles request.observedAt).loadActive request.handleId
    request.observedAt = .ok handle
  owner : handle.handleFence = request.expectedFence
  result : ∃ outcome closed,
    ((store.expireStaleHandles request.observedAt).retireHandle request handle).advancePendingDelete
      request handle = (outcome, closed) ∧
    committed = { closed with mutations := store.mutations ++ [.closed request outcome] }

theorem advancePendingDelete_eq (store : BranchStore) (request : CloseHandleRequest)
    (handle : OpenHandle) : (store.advancePendingDelete request handle).2 =
      { store with pending := (store.advancePendingDelete request handle).2.pending } := by
  unfold advancePendingDelete
  split
  · split <;> rfl
  · rfl

theorem close_ok {request : CloseHandleRequest}
    {receipt : CloseHandleReceipt} (h : store.close request = .ok (receipt, committed)) :
    committed = store ∨ ∃ handle, Closed store request handle committed := by
  obtain ⟨-, h⟩ := guard_ok.mp h
  split at h
  · exact .inl (answered h)
  · cases h
  · obtain ⟨-, -, handle, active, h⟩ := bind₂_eq_ok.mp h
    obtain ⟨owner, h⟩ := guard_ok.mp h
    push Not at owner
    rcases advanced : ((store.expireStaleHandles request.observedAt).retireHandle request
      handle).advancePendingDelete request handle with ⟨outcome, closed⟩
    have only := advancePendingDelete_eq ((store.expireStaleHandles request.observedAt).retireHandle
      request handle) request handle
    rw [advanced] at h only
    cases h
    refine .inr ⟨handle, active, owner.1, outcome, closed, advanced, ?_⟩
    have recorded := congrArg BranchStore.mutations only
    rw [show closed.mutations = store.mutations from recorded]

/-! ## Locks -/

structure Locked (store : BranchStore) (request : LockRangeRequest) (handle : OpenHandle)
    (committed : BranchStore) : Prop where
  presented : request.handleFence ≠ 0
  unrecorded : store.lockByOperation? request.operationId = none
  active : (store.expireStaleHandles request.observedAt).loadActive request.handleId
    request.observedAt = .ok handle
  owner : handle.handleFence = request.handleFence
  within : request.leaseExpiresAt ≤ handle.leaseExpiresAt
  bound : request.lifetime = .handle → request.leaseExpiresAt = handle.leaseExpiresAt
  unused : ∀ lock ∈ (store.expireStaleHandles request.observedAt).locks, lock.lockId ≠ request.lockId
  admitted : (store.expireStaleHandles request.observedAt).rejectOverlappingLock request handle =
    .ok ()
  result : committed = { store.expireStaleHandles request.observedAt with
    locks := (store.expireStaleHandles request.observedAt).locks ++ [lockedRow request] }

theorem lockRange_ok {request : LockRangeRequest}
    {receipt : LockRangeReceipt} (h : store.lockRange request = .ok (receipt, committed)) :
    committed = store ∨ ∃ handle, Locked store request handle committed := by
  obtain ⟨valid, h⟩ := guard_ok.mp h
  push Not at valid
  split at h
  · obtain ⟨-, h⟩ := guard_ok.mp h
    obtain ⟨-, h⟩ := admit_ok.mp h
    cases h
    exact .inl rfl
  · rename_i unrecorded
    obtain ⟨-, -, handle, active, _, owner, h⟩ := bind₃_eq_ok.mp h
    obtain ⟨unused, h⟩ := guard_ok.mp h
    obtain ⟨_, admitted, h⟩ := bind_eq_ok.mp h
    cases h
    obtain ⟨presents, within, bound⟩ := validateLockOwner_ok owner
    refine .inr ⟨handle, valid.1, unrecorded, active, presents, within, bound, ?_, admitted, rfl⟩
    simpa using unused

structure Unlocked (store : BranchStore) (request : UnlockRangeRequest) (handle : OpenHandle)
    (committed : BranchStore) : Prop where
  active : (store.expireStaleHandles request.observedAt).loadActive request.handleId
    request.observedAt = .ok handle
  owner : handle.handleFence = request.handleFence
  result : committed = { store.expireStaleHandles request.observedAt with
    locks := amend (releasedBy request) (fun lock => { lock with state := .released })
      (store.expireStaleHandles request.observedAt).locks
    mutations := store.mutations ++ [.unlocked request] }

theorem unlockRange_ok {request : UnlockRangeRequest}
    {receipt : UnlockRangeReceipt} (h : store.unlockRange request = .ok (receipt, committed)) :
    committed = store ∨ ∃ handle, Unlocked store request handle committed := by
  obtain ⟨-, h⟩ := guard_ok.mp h
  split at h
  · exact .inl (answered h)
  · cases h
  · obtain ⟨-, -, handle, active, h⟩ := bind₂_eq_ok.mp h
    obtain ⟨owner, h⟩ := guard_ok.mp h
    push Not at owner
    obtain ⟨-, h⟩ := admit_ok.mp h
    cases h
    exact .inr ⟨handle, active, owner.1, rfl⟩

/-! ## Writes and handle information -/

structure Written (store : BranchStore) (request : HandleWriteAdmissionRequest) (handle : OpenHandle)
    (committed : BranchStore) : Prop where
  active : (store.expireStaleHandles request.observedAt).loadActive request.handleId
    request.observedAt = .ok handle
  owner : handle.handleFence = request.handleFence
  admitted : (store.expireStaleHandles request.observedAt).rejectConflictingLock request handle =
    .ok ()
  result : committed =
    { (store.expireStaleHandles request.observedAt).updateHandle request.handleId request.handleFence
        request.observedAt (max handle.workingLogicalLength request.range.endOffset)
        handle.deleteOnClose with admissions := store.admissions ++ [request] }

theorem admitWrite_ok {request : HandleWriteAdmissionRequest}
    {receipt : HandleWriteAdmissionReceipt} (h : store.admitWrite request = .ok (receipt, committed)) :
    (receipt.disposition = .replayed ∧ committed = store) ∨
      (receipt.disposition = .applied ∧ ∃ handle, Written store request handle committed) := by
  obtain ⟨-, h⟩ := guard_ok.mp h
  split at h
  · obtain ⟨-, h⟩ := admit_ok.mp h
    cases h
    exact .inl ⟨rfl, rfl⟩
  · obtain ⟨-, -, handle, active, _, owner, _, admitted, h⟩ := bind₄_eq_ok.mp h
    cases h
    exact .inr ⟨rfl, handle, active, validateWriter_ok owner, admitted, rfl⟩

structure Informed (store : BranchStore) (request : HandleInformationRequest) (handle : OpenHandle)
    (committed : BranchStore) : Prop where
  active : (store.expireStaleHandles request.observedAt).loadActive request.handleId
    request.observedAt = .ok handle
  owner : handle.handleFence = request.handleFence
  result : committed =
    { (store.expireStaleHandles request.observedAt).updateHandle request.handleId request.handleFence
        request.observedAt (resultingState request.change handle).1
        (resultingState request.change handle).2 with
      information := store.information ++ [⟨request, (resultingState request.change handle).1,
        (resultingState request.change handle).2⟩] }

theorem setInformation_ok {request : HandleInformationRequest} {receipt : HandleInformationReceipt}
    (h : store.setInformation request = .ok (receipt, committed)) :
    committed = store ∨ ∃ handle, Informed store request handle committed := by
  obtain ⟨-, h⟩ := guard_ok.mp h
  split at h
  · exact .inl (answered h)
  obtain ⟨-, -, handle, active, h⟩ := bind₂_eq_ok.mp h
  obtain ⟨owner, h⟩ := guard_ok.mp h
  push Not at owner
  obtain ⟨-, h⟩ := admit_ok.mp h
  rcases changed : resultingState request.change handle with ⟨length, deleteOnClose⟩
  rw [changed] at h
  cases h
  refine .inr ⟨handle, active, owner.1, ?_⟩
  rw [changed]
  rfl

/-! ## Flush -/

structure Planned (store : BranchStore) (request : FilesystemHandleFlushRequest)
    (handle : OpenHandle) (plan : HandleFlushPlan) (committed : BranchStore) : Prop where
  active : (store.expireStaleHandles request.observedAt).loadActive request.handleId
    request.observedAt = .ok handle
  owner : handle.handleFence = request.handleFence
  result : committed = { store.expireStaleHandles request.observedAt with
    plans := store.plans ++ [plan] }

theorem prepareFlush_ok {request : FilesystemHandleFlushRequest}
    {plan : HandleFlushPlan} (h : store.prepareFlush request = .ok (plan, committed)) :
    committed = store ∨ ∃ handle, Planned store request handle plan committed := by
  obtain ⟨-, -, h⟩ := bind_eq_ok.mp h
  split at h
  · exact .inl (answered h)
  obtain ⟨-, h⟩ := guard_ok.mp h
  obtain ⟨handle, active, _, owner, current, -, ⟨revision, version, stage⟩, -, h⟩ := bind₄_eq_ok.mp h
  obtain ⟨-, h⟩ := guard_ok.mp h
  obtain ⟨built, -, -, -, -, -, -, -, h⟩ := bind₄_eq_ok.mp h
  cases h
  exact .inr ⟨handle, active, validateFlusher_ok owner, rfl⟩

/-! ## Publications -/

/-- What a publication does to the flush progress of the handle whose plan it carries out. -/
inductive Progressed (store : BranchStore) (publication : RootFilePublication) : BranchStore → Prop
  /-- The publication belongs to no plan. -/
  | unplanned (absent : store.plan? publication.file.operationId = none) :
    Progressed store publication store
  /-- The plan's handle is active with the plan's fence and its progress moves on. -/
  | flushed {plan : HandleFlushPlan} {handle : OpenHandle} {progress : List HandleFlushProgress}
    (isPlan : store.plan? publication.file.operationId = some plan)
    (carries : plan.matchesPublication publication)
    (isHandle : store.handle? plan.request.handleId = some handle)
    (active : handle.state = .active) (owner : handle.handleFence = plan.request.handleFence)
    (follows : store.pinned handle = (plan.expectedFileObjectRevisionId, plan.expectedVersionId))
    (moved : (store.progress? plan.request.handleId = none ∧
        progress = store.progress ++ [progressRow plan publication]) ∨
      ∃ prior, store.progress? plan.request.handleId = some prior ∧
        progress = amend (·.handleId == plan.request.handleId)
          (fun _ => progressRow plan publication) store.progress) :
    Progressed store publication { store with progress := progress }

theorem advanceProgress_ok {advanced : BranchStore} {publication : RootFilePublication}
    (h : store.advanceProgress publication = .ok advanced) : Progressed store publication advanced := by
  unfold advanceProgress at h
  split at h
  · rename_i absent
    cases h
    exact .unplanned absent
  · rename_i plan isPlan
    obtain ⟨valid, h⟩ := guard_ok.mp h
    push Not at valid
    split at h
    · cases h
    rename_i handle isHandle
    have isId : handle.handleId = plan.request.handleId := (get_mem isHandle).2
    obtain ⟨owner, h⟩ := admit_ok.mp h
    unfold persistProgressAdvance at h
    split at h
    · rename_i prior isPrior
      obtain ⟨agrees, h⟩ := guard_ok.mp h
      push Not at agrees
      cases h
      refine .flushed isPlan valid.2.2 isHandle owner.1 owner.2 ?_ (.inr ⟨prior, isPrior, rfl⟩)
      rw [pinned, isId, isPrior]
      exact Prod.ext agrees.1 agrees.2.1
    · rename_i absent
      obtain ⟨agrees, h⟩ := guard_ok.mp h
      push Not at agrees
      cases h
      refine .flushed isPlan valid.2.2 isHandle owner.1 owner.2 ?_ (.inl ⟨absent, rfl⟩)
      rw [pinned, isId, absent]
      exact Prod.ext agrees.1 agrees.2

structure Published (store : BranchStore) (publication : RootFilePublication)
    (request : Option OpenHandleRequest) (content : Except PublicationError Unit)
    (committed : BranchStore) : Prop where
  result : ∃ ns advanced opened, store.ns.publishFile publication content = .ok ns ∧
    Progressed { store with ns := ns } publication advanced ∧
    (opened = advanced ∨ ∃ open', request = some open' ∧
      Opened (advanced.expireStaleHandles open'.openedAt) open' opened) ∧
    committed = { opened with publications := opened.publications ++ [publication] }

theorem publish_ok {publication : RootFilePublication}
    {request : Option OpenHandleRequest} {content : Except PublicationError Unit}
    {receipt : NamespacePublicationReceipt × Option OpenHandleReceipt}
    (h : store.publish publication request content = .ok (receipt, committed)) :
    committed = store ∨ Published store publication request content committed := by
  obtain ⟨-, -, -, -, h⟩ := bind₂_eq_ok.mp h
  split at h
  · obtain ⟨-, h⟩ := admit_ok.mp h
    obtain ⟨_, _, h⟩ := bind_eq_ok.mp h
    cases h
    exact .inl rfl
  · obtain ⟨ns, isNs, advanced, isAdvanced, ⟨answer, opened⟩, isOpened, h⟩ := bind₃_eq_ok.mp h
    cases h
    refine .inr ⟨ns, advanced, opened, liftNamespace_eq_ok.mp isNs,
      advanceProgress_ok (liftNamespace_eq_ok.mp isAdvanced), ?_, rfl⟩
    cases request with
    | none =>
      cases isOpened
      exact .inl rfl
    | some open' =>
      obtain ⟨⟨created, after⟩, isCreated, same⟩ := bind_eq_ok.mp isOpened
      cases same
      exact (openCreated_ok isCreated).imp id fun applied => ⟨open', rfl, applied⟩

theorem createDirectory_ok {publication : DirectoryPublication}
    (h : store.createDirectory publication = .ok (disposition, committed)) :
    committed = store ∨ ∃ ns, store.ns.createDirectory publication = .ok ns ∧
      committed = { store with ns := ns, directories := store.directories ++ [publication] } := by
  replace h := passed h
  obtain ⟨-, h⟩ := guard_ok.mp h
  split at h
  · exact .inl (answered h)
  · obtain ⟨ns, isNs, h⟩ := bind_eq_ok.mp h
    cases h
    exact .inr ⟨ns, liftNamespace_eq_ok.mp isNs, rfl⟩

/-! ## Removals -/

def relocated (publication : NamespaceRenamePublication) (handle : OpenHandle) : Bool :=
  handle.on publication.branchId publication.volumeId publication.expectedObjectId &&
    handle.state == .active

structure Renamed (store : BranchStore) (publication : NamespaceRenamePublication)
    (committed : BranchStore) : Prop where
  result : ∃ head commit source revision moved ns,
    store.ns.loadExpectedHead publication.branchId publication.volumeId publication.rootObjectId
      publication.expectedNamespaceCommitId = .ok (head, commit) ∧
    store.ns.renameSource publication commit.rootObjectRevisionId = .ok (source, revision) ∧
    store.ns.renameMove publication source revision = .ok moved ∧
    moved.renameCommit publication revision head.sequence = .ok ns ∧
    (∀ handle ∈ (store.expireStaleHandles publication.createdAt).handles,
      relocated publication handle = true → handle.path = publication.source.path) ∧
    committed = { store.expireStaleHandles publication.createdAt with
      ns := ns
      renames := store.renames ++ [publication]
      handles := amend (relocated publication)
        (fun handle => { handle with path := publication.target.path })
        (store.expireStaleHandles publication.createdAt).handles }

theorem relocatePaths_ok {moved : BranchStore} {publication : NamespaceRenamePublication}
    (h : store.relocatePaths publication.branchId publication.volumeId publication.expectedObjectId
      publication.source.path publication.target.path = .ok moved) :
    (∀ handle ∈ store.handles, relocated publication handle = true →
      handle.path = publication.source.path) ∧ moved = { store with
      handles := amend (relocated publication)
        (fun handle => { handle with path := publication.target.path }) store.handles } := by
  obtain ⟨placed, h⟩ := guard_ok.mp h
  obtain ⟨-, h⟩ := guard_ok.mp h
  cases h
  refine ⟨fun handle mem isMoved => ?_, rfl⟩
  unfold relocated at isMoved
  by_contra elsewhere
  refine placed (List.any_eq_true.mpr ⟨handle, mem, ?_⟩)
  simp [isMoved, elsewhere]

theorem rename_ok {publication : NamespaceRenamePublication}
    (h : store.rename publication = .ok (disposition, committed)) :
    committed = store ∨ Renamed store publication committed := by
  obtain ⟨-, -, h⟩ := bind_eq_ok.mp h
  split at h
  · exact .inl (answered h)
  obtain ⟨-, h⟩ := guard_ok.mp h
  obtain ⟨⟨head, commit⟩, loaded, h⟩ := bind_eq_ok.mp h
  obtain ⟨⟨source, revision⟩, isSource, h⟩ := bind_eq_ok.mp h
  obtain ⟨-, -, moved, isMoved, ns, isNs, after, isAfter, h⟩ := bind₄_eq_ok.mp h
  obtain ⟨placed, rfl⟩ := relocatePaths_ok isAfter
  cases h
  exact .inr ⟨head, commit, source, revision, moved, ns, liftNamespace_eq_ok.mp loaded, isSource,
    isMoved, isNs, placed, rfl⟩

structure Unlinked (store : BranchStore) (publication : NamespaceUnlinkPublication)
    (committed : BranchStore) : Prop where
  result : ∃ head commit directories revision ns consumed,
    store.ns.loadExpectedHead publication.branchId publication.volumeId publication.rootObjectId
      publication.expectedNamespaceCommitId = .ok (head, commit) ∧
    store.ns.loadPathDirectories publication.volumeId publication.rootObjectId
      commit.rootObjectRevisionId publication.rootObjectRevisionId publication.path.path
      publication.path.ancestors = .ok directories ∧
    store.ns.validateTarget publication directories = .ok revision ∧
    store.ns.unlinkCommit publication directories revision head.sequence = .ok ns ∧
    { store.expireStaleHandles publication.createdAt with ns := ns }.consumeUnlinkAuthority
      publication = .ok consumed ∧
    committed = { consumed with unlinks := store.unlinks ++ [publication] }

theorem consumeUnlinkAuthority_ok {consumed : BranchStore} {publication : NamespaceUnlinkPublication}
    (h : store.consumeUnlinkAuthority publication = .ok consumed) :
    consumed = { store with pending := consumed.pending } ∧
      ∀ row ∈ consumed.pending, row ∈ store.pending := by
  unfold consumeUnlinkAuthority at h
  split at h
  · cases h
    exact ⟨rfl, fun _ mem => mem⟩
  · obtain ⟨-, h⟩ := admit_ok.mp h
    cases h
    exact ⟨rfl, fun _ mem => List.mem_of_mem_filter mem⟩

theorem unlink_ok {publication : NamespaceUnlinkPublication}
    (h : store.unlink publication = .ok (disposition, committed)) :
    committed = store ∨ Unlinked store publication committed := by
  obtain ⟨-, -, h⟩ := bind_eq_ok.mp h
  split at h
  · exact .inl (answered h)
  obtain ⟨-, h⟩ := guard_ok.mp h
  obtain ⟨⟨head, commit⟩, loaded, h⟩ := bind_eq_ok.mp h
  obtain ⟨directories, isLoaded, revision, isTarget, -, -, h⟩ := bind₃_eq_ok.mp h
  obtain ⟨ns, isNs, consumed, isConsumed, h⟩ := bind₂_eq_ok.mp h
  cases h
  refine .inr ⟨head, commit, directories, revision, ns, consumed, liftNamespace_eq_ok.mp loaded,
    liftNamespace_eq_ok.mp isLoaded, isTarget, isNs, isConsumed, ?_⟩
  have recorded := congrArg unlinks (consumeUnlinkAuthority_ok isConsumed).1
  rw [show consumed.unlinks = store.unlinks from recorded]

/-! ## Reading ready deletes -/

theorem loadReadyDelete_ok {requestingHandleId : HandleId} {ready : ReadyNamespaceDelete}
    (h : store.loadReadyDelete requestingHandleId now = .ok (ready, committed)) :
    committed = store.expireStaleHandles now := by
  unfold loadReadyDelete at h
  simp only at h
  split at h
  · split at h
    · cases h
    · obtain ⟨_, _, h⟩ := bind_eq_ok.mp h
      cases h
      rfl
  · cases h

theorem loadReadyDeletes_ok {after : Option ObjectId} {maximumResults : Nat}
    {page : ReadyNamespaceDeletePage}
    (h : store.loadReadyDeletes branchId volumeId after maximumResults now = .ok (page, committed)) :
    committed = store.expireStaleHandles now := by
  obtain ⟨-, h⟩ := guard_ok.mp h
  obtain ⟨_, _, h⟩ := bind_eq_ok.mp h
  cases h
  rfl

/-! ## Every operation -/

/-- What a committed operation did when it did not answer from a record. -/
inductive Applied (store : BranchStore) : StoreOperation → BranchStore → Prop
  | publish {publication request content committed}
    (done : Published store publication request content committed) :
    Applied store (.publish publication request content) committed
  | createDirectory {publication ns} (done : store.ns.createDirectory publication = .ok ns) :
    Applied store (.createDirectory publication)
      { store with ns := ns, directories := store.directories ++ [publication] }
  | openHandle {request expected committed}
    (done : Opened (store.expireStaleHandles request.openedAt) request committed) :
    Applied store (.openHandle request expected) committed
  | renew {request handle fence committed} (done : Renewed store request handle fence committed) :
    Applied store (.renew request) committed
  | close {request handle committed} (done : Closed store request handle committed) :
    Applied store (.close request) committed
  | lock {request handle committed} (done : Locked store request handle committed) :
    Applied store (.lock request) committed
  | unlock {request handle committed} (done : Unlocked store request handle committed) :
    Applied store (.unlock request) committed
  | write {request handle committed} (done : Written store request handle committed) :
    Applied store (.write request) committed
  | information {request handle committed} (done : Informed store request handle committed) :
    Applied store (.information request) committed
  | flush {request handle plan committed} (done : Planned store request handle plan committed) :
    Applied store (.flush request) committed
  | rename {publication committed} (done : Renamed store publication committed) :
    Applied store (.rename publication) committed
  | unlink {publication committed} (done : Unlinked store publication committed) :
    Applied store (.unlink publication) committed
  | readyDelete {requestingHandleId now} :
    Applied store (.readyDelete requestingHandleId now) (store.expireStaleHandles now)
  | expire {branchId volumeId after maximumResults now} :
    Applied store (.expire branchId volumeId after maximumResults now) (store.expireStaleHandles now)

theorem transact_ok {operation : StoreOperation} (h : store.transact operation = .ok committed) :
    committed = store ∨ Applied store operation committed := by
  cases operation
  all_goals obtain ⟨⟨_, _⟩, ran, rfl⟩ := map_eq_ok.mp h
  case publish => exact (publish_ok ran).imp id .publish
  case createDirectory =>
    refine (createDirectory_ok ran).imp id ?_
    rintro ⟨ns, isNs, rfl⟩
    exact .createDirectory isNs
  case openHandle => exact (openExistingAt_ok ran).imp id .openHandle
  case renew => exact (renew_ok ran).imp id fun ⟨_, _, done⟩ => .renew done
  case close => exact (close_ok ran).imp id fun ⟨_, done⟩ => .close done
  case lock => exact (lockRange_ok ran).imp id fun ⟨_, done⟩ => .lock done
  case unlock => exact (unlockRange_ok ran).imp id fun ⟨_, done⟩ => .unlock done
  case write => exact (admitWrite_ok ran).imp And.right fun ⟨_, _, done⟩ => .write done
  case information => exact (setInformation_ok ran).imp id fun ⟨_, done⟩ => .information done
  case flush => exact (prepareFlush_ok ran).imp id fun ⟨_, done⟩ => .flush done
  case rename => exact (rename_ok ran).imp id .rename
  case unlink => exact (unlink_ok ran).imp id .unlink
  case readyDelete =>
    rw [loadReadyDelete_ok ran]
    exact .inr .readyDelete
  case expire =>
    rw [loadReadyDeletes_ok ran]
    exact .inr .expire

end BranchStore

end MeshSpan
