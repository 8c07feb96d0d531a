import MeshSpan.Handles.Exclusion

/- What whole histories of handles keep, and the statements about exclusion.

   A handle keeps its file and its fence never falls; a lock keeps its owner and
   its range and, once inactive, is never active again. So a lock that is active
   now and was known when a write was admitted was active then, and the write's
   own check saw it.

   PROVED
     Later                        one committed operation, and a whole history
     admitted_clear               a write is admitted past no lock of another handle
     renew_not_corrupt            renewal never finds a lock that left its handle
     step_of_superseded           an operation with another fence changes nothing
     exclusion_under_every_history -/

namespace MeshSpan

open Rows OpenHandle BranchStore

/-- A later row of the same handle. -/
structure OpenHandle.Next (handle later : OpenHandle) : Prop where
  id : later.handleId = handle.handleId
  file : later.file = handle.file
  fence : handle.handleFence ≤ later.handleFence

theorem OpenHandle.Next.refl (handle : OpenHandle) : handle.Next handle := ⟨rfl, rfl, le_rfl⟩

theorem OpenHandle.Next.trans {a b c : OpenHandle} (ab : a.Next b) (bc : b.Next c) : a.Next c :=
  ⟨bc.id.trans ab.id, bc.file.trans ab.file, ab.fence.trans bc.fence⟩

/-- A later row of the same lock. -/
structure RangeLock.Next (lock later : RangeLock) : Prop where
  id : later.lockId = lock.lockId
  owner : later.handleId = lock.handleId
  range : later.range = lock.range
  active : later.state = .active → lock.state = .active

theorem RangeLock.Next.refl (lock : RangeLock) : lock.Next lock := ⟨rfl, rfl, rfl, fun active => active⟩

theorem RangeLock.Next.trans {a b c : RangeLock} (ab : a.Next b) (bc : b.Next c) : a.Next c :=
  ⟨bc.id.trans ab.id, bc.owner.trans ab.owner, bc.range.trans ab.range,
    fun active => ab.active (bc.active active)⟩

/-- The handles and locks of a store, and those of a later one. -/
structure Later (handles : List OpenHandle) (locks : List RangeLock) (handles' : List OpenHandle)
    (locks' : List RangeLock) : Prop where
  handles : Onward Next handles handles'
  locks : Onward RangeLock.Next locks locks'

namespace Later

variable {handles handles' handles'' : List OpenHandle} {locks locks' locks'' : List RangeLock}

theorem refl (handles : List OpenHandle) (locks : List RangeLock) : Later handles locks handles locks :=
  ⟨.refl Next.refl _, .refl RangeLock.Next.refl _⟩

theorem trans (first : Later handles locks handles' locks')
    (second : Later handles' locks' handles'' locks'') : Later handles locks handles'' locks'' :=
  ⟨first.handles.trans (fun _ _ _ ab bc => ab.trans bc) second.handles,
    first.locks.trans (fun _ _ _ ab bc => ab.trans bc) second.locks⟩

theorem of_handles (next : Onward Next handles handles') :
    Later handles locks handles' locks := ⟨next, .refl RangeLock.Next.refl _⟩

theorem of_locks (next : Onward RangeLock.Next locks locks') : Later handles locks handles locks' :=
  ⟨.refl Next.refl _, next⟩

theorem handles_amend {p : OpenHandle → Bool} {f : OpenHandle → OpenHandle}
    (keeps : ∀ handle, (f handle).frame = handle.frame) (handles : List OpenHandle) :
    Onward Next handles (amend p f handles) := by
  refine onward_amend Next.refl (fun handle _ => ?_) handles
  have id := congrArg handleId (keeps handle)
  have file := congrArg file (keeps handle)
  have fence := congrArg handleFence (keeps handle)
  exact ⟨id, file, ge_of_eq fence⟩

theorem locks_retire (q : RangeLock → Bool) {state : LeaseState} (inactive : state ≠ .active)
    (locks : List RangeLock) :
    Onward RangeLock.Next locks (amend q (fun lock => { lock with state := state }) locks) := by
  refine onward_amend RangeLock.Next.refl (fun lock _ => ?_) locks
  exact ⟨rfl, rfl, rfl, fun active => absurd active inactive⟩

theorem expire (store : BranchStore) (now : UnixMicros) :
    Later store.handles store.locks (store.expireStaleHandles now).handles
      (store.expireStaleHandles now).locks := by
  refine ⟨handles_amend (fun _ => ?_) _, locks_retire _ (by decide) _⟩
  rfl

/-! ## One committed operation -/

variable {store committed : BranchStore}

theorem opened {request : OpenHandleRequest} (h : Opened store request committed) :
    Later store.handles store.locks committed.handles committed.locks := by
  obtain ⟨resolved, path, -, -, -, -, -, rfl⟩ := h.inserted
  exact of_handles (onward_append Next.refl _ _)

variable {fence : Nat} {handle : OpenHandle} {operation : StoreOperation}

theorem renewed {request : HandleLeaseRequest} (h : Renewed store request handle fence committed) :
    Later store.handles store.locks committed.handles committed.locks := by
  rw [h.result]
  refine (expire store request.observedAt).trans ⟨?_, ?_⟩
  · refine onward_amend Next.refl (fun row amended => ?_) _
    simp only [Bool.and_eq_true, beq_iff_eq] at amended
    exact ⟨rfl, rfl, amended.1.2 ▸ h.raised⟩
  · refine Onward.trans (fun a b _ (ab : RangeLock.Next a b) bc => ab.trans bc)
      (onward_amend RangeLock.Next.refl (fun lock _ => ?_) _)
      (onward_amend RangeLock.Next.refl (fun lock _ => ?_) _)
    all_goals exact ⟨rfl, rfl, rfl, fun active => active⟩

theorem closed {request : CloseHandleRequest} (h : Closed store request handle committed) :
    Later store.handles store.locks committed.handles committed.locks := by
  obtain ⟨outcome, closed, advanced, rfl⟩ := h.result
  have only := advancePendingDelete_eq
    ((store.expireStaleHandles request.observedAt).retireHandle request handle) request handle
  rw [advanced] at only
  simp only at only
  rw [only]
  refine (expire store request.observedAt).trans
    ⟨handles_amend (fun _ => ?_) _, locks_retire _ (by decide) _⟩
  rfl

theorem published {publication : RootFilePublication}
    {request : Option OpenHandleRequest} {content : Except PublicationError Unit}
    (h : Published store publication request content committed) :
    Later store.handles store.locks committed.handles committed.locks := by
  obtain ⟨ns, advanced, after, -, progressed, isOpened, rfl⟩ := h.result
  have progress : Later store.handles store.locks advanced.handles advanced.locks := by
    cases progressed with
    | unplanned _ => exact refl _ _
    | flushed _ _ _ _ _ _ _ => exact refl _ _
  rcases isOpened with rfl | ⟨open', -, applied⟩
  · exact progress
  · have done := (progress.trans (expire advanced open'.openedAt)).trans (opened applied)
    exact done

theorem updated (store : BranchStore) (now : UnixMicros) (handleId : HandleId) (fence length : Nat)
    (deleteOnClose : Bool) : Later store.handles store.locks
      ((store.expireStaleHandles now).updateHandle handleId fence now length deleteOnClose).handles
      (store.expireStaleHandles now).locks := by
  refine (expire store now).trans (of_handles (handles_amend (fun _ => ?_) _))
  rfl

theorem renamed {publication : NamespaceRenamePublication} (h : Renamed store publication committed) :
    Later store.handles store.locks committed.handles committed.locks := by
  obtain ⟨head, commit, source, revision, moved, ns, -, -, -, -, -, rfl⟩ := h.result
  refine (expire store publication.createdAt).trans (of_handles (handles_amend (fun _ => ?_) _))
  rfl

theorem unlinked {publication : NamespaceUnlinkPublication} (h : Unlinked store publication committed) :
    Later store.handles store.locks committed.handles committed.locks := by
  obtain ⟨head, commit, directories, revision, ns, consumed, -, -, -, -, isConsumed, rfl⟩ := h.result
  rw [(consumeUnlinkAuthority_ok isConsumed).1]
  exact expire store publication.createdAt

theorem transact (h : store.transact operation = .ok committed) :
    Later store.handles store.locks committed.handles committed.locks := by
  rcases transact_ok h with rfl | applied
  · exact refl _ _
  cases applied with
  | publish done => exact published done
  | createDirectory done => exact refl _ _
  | openHandle done => exact (expire store _).trans (opened done)
  | renew done => exact renewed done
  | close done => exact closed done
  | lock done =>
    exact done.result ▸ (expire store _).trans (of_locks (onward_append RangeLock.Next.refl _ _))
  | unlock done =>
    exact done.result ▸ (expire store _).trans (of_locks (locks_retire _ (by decide) _))
  | write done => exact done.result ▸ updated store _ _ _ _ _
  | information done => exact done.result ▸ updated store _ _ _ _ _
  | flush done => exact done.result ▸ expire store _
  | rename done => exact renamed done
  | unlink done => exact unlinked done
  | readyDelete => exact expire store _
  | expire => exact expire store _

theorem run (store : BranchStore) (operations : List StoreOperation) :
    Later store.handles store.locks (store.run operations).handles (store.run operations).locks := by
  induction operations generalizing store with
  | nil => exact refl _ _
  | cons operation rest ih =>
    have step : Later store.handles store.locks (store.step operation).handles
        (store.step operation).locks := by
      unfold step
      split
      · rename_i committed applied
        exact transact applied
      · exact refl _ _
    exact step.trans (ih (store.step operation))

end Later

namespace BranchStore

/-! ## Fences -/

/-- The handle and the fence that an operation presents. The publication of a flush presents
those of its plan. -/
def presents (store : BranchStore) : StoreOperation → Option (HandleId × Nat)
  | .renew request => some (request.handleId, request.expectedFence)
  | .close request => some (request.handleId, request.expectedFence)
  | .lock request => some (request.handleId, request.handleFence)
  | .unlock request => some (request.handleId, request.handleFence)
  | .write request => some (request.handleId, request.handleFence)
  | .information request => some (request.handleId, request.handleFence)
  | .flush request => some (request.handleId, request.handleFence)
  | .publish publication _ _ => (store.plan? publication.file.operationId).map fun plan =>
      (plan.request.handleId, plan.request.handleFence)
  | _ => none

variable {store : BranchStore} {handleId : HandleId} {handle : OpenHandle} {now : UnixMicros}
  {request : HandleWriteAdmissionRequest}

/-- The handle that an operation acts through has, before expiry, the fence it has after it. -/
theorem loadActive_fence (h : (store.expireStaleHandles now).loadActive handleId now = .ok handle) :
    ∃ old ∈ store.handles, old.handleId = handleId ∧ old.handleFence = handle.handleFence := by
  obtain ⟨isHandle, -, -⟩ := loadActive_ok h
  obtain ⟨mem, isId⟩ := get_mem isHandle
  obtain ⟨old, inOld, rfl⟩ := mem_amend.mp mem
  refine ⟨old, inOld, ?_⟩
  split at isId
  · exact ⟨isId, by simp [*]⟩
  · exact ⟨isId, by simp [*]⟩

/-- An operation that presents a fence other than its handle's changes nothing. -/
theorem step_of_superseded (store : BranchStore)
    (presented : store.presents operation = some (handleId, fence))
    (superseded : ∀ handle ∈ store.handles, handle.handleId = handleId → handle.handleFence ≠ fence) :
    store.step operation = store := by
  -- an operation that went through would have found the presented fence on its handle
  have refused : ∀ {now : UnixMicros} {handle : OpenHandle},
      (store.expireStaleHandles now).loadActive handleId now = .ok handle →
      handle.handleFence ≠ fence := by
    intro now handle active same
    obtain ⟨old, inOld, isId, isFence⟩ := loadActive_fence active
    exact superseded old inOld isId (isFence.trans same)
  unfold step
  split
  · rename_i committed ran
    rcases transact_ok ran with same | applied
    · exact same
    cases applied with
    | publish done =>
      obtain ⟨ns, advanced, opened, -, progressed, -⟩ := done.result
      obtain ⟨plan, isPlan, presentsPlan⟩ := Option.map_eq_some_iff.mp presented
      obtain ⟨rfl, rfl⟩ := Prod.mk.inj presentsPlan
      cases progressed with
      | unplanned absent => exact absurd (isPlan.symm.trans absent) nofun
      | flushed isPlan' _ isHandle _ owner _ _ =>
        obtain rfl := Option.some.inj (isPlan.symm.trans isPlan')
        obtain ⟨mem, isId⟩ := get_mem isHandle
        exact absurd owner (superseded _ mem isId)
    | renew done | close done | lock done | unlock done | write done | information done
    | flush done =>
      obtain ⟨rfl, rfl⟩ := Prod.mk.inj (Option.some.inj presented)
      exact absurd done.owner (refused done.active)
    | createDirectory | openHandle | rename | unlink | readyDelete | expire => cases presented
  · rfl

/-! ## Writes -/

/-- The active locks that other handles of the writer's file hold over a written range. -/
def Obstructs (store : BranchStore) (request : HandleWriteAdmissionRequest) (lock : RangeLock) : Prop :=
  lock ∈ store.locks ∧ lock.state = .active ∧ lock.handleId ≠ request.handleId ∧
    lock.range.overlaps request.range = true ∧
    ∃ owner ∈ store.handles, ∃ writer ∈ store.handles, owner.handleId = lock.handleId ∧
      writer.handleId = request.handleId ∧ owner.file = writer.file

theorem mem_updateHandle {length : Nat} {deleteOnClose : Bool} {row : OpenHandle}
    (mem : row ∈ (store.updateHandle handleId fence now length deleteOnClose).handles) :
    ∃ old ∈ store.handles, row.handleId = old.handleId ∧ row.file = old.file := by
  obtain ⟨old, inOld, rfl⟩ := mem_amend.mp mem
  refine ⟨old, inOld, ?_⟩
  split <;> exact ⟨rfl, rfl⟩

section

variable (inv : Exclusive store.ns store.handles store.locks)

include inv

/-- A write is admitted only where no other handle holds a lock. -/
theorem admitted_clear {committed : BranchStore} (h : Written store request handle committed)
    (lock : RangeLock) : ¬ committed.Obstructs request lock := by
  rintro ⟨mem, active, foreign, overlapping, owner, inOwner, writer, inWriter, isOwner, isWriter,
    sameFile⟩
  have expired := inv.expire request.observedAt
  have settled := Exclusive.settled_expire store request.observedAt
  obtain ⟨isHandle, -, -⟩ := loadActive_ok h.active
  obtain ⟨inHandles, isId⟩ := get_mem isHandle
  rw [h.result] at mem inOwner inWriter
  -- the admission itself changes no lock and no handle's file
  obtain ⟨oldOwner, inOld, ownerId, ownerFile⟩ := mem_updateHandle inOwner
  obtain ⟨oldWriter, inOldWriter, writerId, writerFile⟩ := mem_updateHandle inWriter
  have isWriterRow : oldWriter = handle := expired.handlesKeyed.eq_of_key inOldWriter inHandles
    (writerId.symm.trans (isWriter.trans isId.symm))
  rw [isWriterRow] at writerFile
  have onFile : (store.expireStaleHandles request.observedAt).lockOn lock handle = true :=
    Exclusive.lockOn_iff.mpr ⟨oldOwner, inOld, ownerId.symm.trans isOwner,
      ownerFile.symm.trans (sameFile.trans writerFile)⟩
  have live : lock.liveAt request.observedAt = true := by
    simp [RangeLock.liveAt, active, settled.locks lock mem active]
  have admitted := h.admitted
  obtain ⟨none, admitted⟩ := guard_ok.mp admitted
  refine none (List.any_eq_true.mpr ⟨lock, mem, ?_⟩)
  simp [onFile, live, foreign, overlapping]

/-- A lock that is active later and obstructs an admitted write was taken after the write. -/
theorem obstructing_later (clear : ∀ lock, ¬ store.Obstructs request lock)
    (operations : List StoreOperation)
    (later : Exclusive (store.run operations).ns (store.run operations).handles
      (store.run operations).locks) {writer : OpenHandle} (inWriter : writer ∈ store.handles)
    (isWriter : writer.handleId = request.handleId) {lock : RangeLock}
    (obstructs : (store.run operations).Obstructs request lock) :
    ∀ old ∈ store.locks, old.lockId ≠ lock.lockId := by
  obtain ⟨mem, active, foreign, overlapping, owner, inOwner, writer', inWriter', isOwner, isWriter',
    sameFile⟩ := obstructs
  have onward := Later.run store operations
  intro old inOld sameId
  -- the old row and the active one are the same lock
  obtain ⟨lock', inLock', next⟩ := onward.locks old inOld
  obtain rfl := later.locksKeyed.eq_of_key inLock' mem (next.id.trans sameId)
  have wasActive := next.active active
  obtain ⟨oldOwner, inOldOwner, isOldOwner, -⟩ := inv.owned old inOld wasActive
  obtain ⟨owner', inOwner', nextOwner⟩ := onward.handles oldOwner inOldOwner
  obtain ⟨writer'', inWriter'', nextWriter⟩ := onward.handles writer inWriter
  obtain rfl := later.handlesKeyed.eq_of_key inOwner' inOwner
    (nextOwner.id.trans (isOldOwner.trans (next.owner.symm.trans isOwner.symm)))
  obtain rfl := later.handlesKeyed.eq_of_key inWriter'' inWriter'
    (nextWriter.id.trans (isWriter.trans isWriter'.symm))
  refine clear old ⟨inOld, wasActive, next.owner ▸ foreign, next.range ▸ overlapping, oldOwner,
    inOldOwner, writer, inWriter, isOldOwner, isWriter, ?_⟩
  exact nextOwner.file.symm.trans (sameFile.trans nextWriter.file)

/-! ## Renewal -/

/-- In a store that keeps the invariant, every handle-lifetime lock of a handle passes the check
that a renewal makes. -/
theorem validateHandleBoundLocks_ok {request : HandleLeaseRequest}
    (isHandle : store.handle? request.handleId = some handle)
    (owner : handle.handleFence = request.expectedFence) :
    store.validateHandleBoundLocks request handle = .ok () := by
  unfold validateHandleBoundLocks
  rw [if_pos]
  refine List.all_eq_true.mpr fun lock mem => ?_
  obtain ⟨inLocks, bound⟩ := List.mem_filter.mp mem
  simp only [RangeLock.boundTo, Bool.and_eq_true, beq_iff_eq] at bound
  obtain ⟨⟨ofHandle, active⟩, lifetime⟩ := bound
  obtain ⟨owner', inOwner, isOwner, follows⟩ := inv.owned lock inLocks active
  obtain ⟨inHandles, isId⟩ := get_mem isHandle
  have same : owner' = handle :=
    inv.handlesKeyed.eq_of_key inOwner inHandles (isOwner.trans (ofHandle.trans isId.symm))
  rw [same] at follows
  have recorded : store.lockByOperation? lock.request.operationId = some lock :=
    get_of_mem inv.acquisitionsKeyed inLocks
  unfold lockFollows
  rw [recorded]
  simp [inv.acquired lock inLocks, lifetime, ofHandle, follows.fence, owner, follows.bound lifetime]

theorem loadActive_not_corrupt (handleId : HandleId) (now : UnixMicros) :
    store.loadActive handleId now ≠ .error .corrupt := by
  intro h
  unfold loadActive at h
  split at h
  · cases h
  rename_i handle isHandle
  have sound := inv.sound handle (get_mem isHandle).1
  split at h
  · rw [if_neg (not_or.mpr ⟨sound.authorized, sound.fenced⟩), sound.pinned] at h
    cases h
  · cases h

theorem renew_not_corrupt (request : HandleLeaseRequest) : store.renew request ≠ .error .corrupt := by
  have expired := inv.expire request.observedAt
  intro h
  unfold renew at h
  split at h
  · cases h
  split at h
  · split at h
    · cases h
    · cases h
  · cases h
  · rcases bind_eq_error.mp h with collision | ⟨_, -, h⟩
    · unfold rejectOperationCollision at collision
      split at collision <;> cases collision
    rcases bind_eq_error.mp h with stale | ⟨handle, active, h⟩
    · exact loadActive_not_corrupt expired _ _ stale
    rcases bind_eq_error.mp h with foreign | ⟨_, owner, h⟩
    · unfold validateLeaseOwner at foreign
      split at foreign
      · cases foreign
      · split at foreign <;> cases foreign
    rcases bind_eq_error.mp h with left | ⟨_, -, h⟩
    · rw [validateHandleBoundLocks_ok expired (loadActive_ok active).1
        (validateLeaseOwner_ok owner).1] at left
      cases left
    rcases bind_eq_error.mp h with overflow | ⟨fence, -, h⟩
    · unfold resultingFence at overflow
      split at overflow
      · split at overflow <;> cases overflow
      · cases overflow
    rcases bind_eq_error.mp h with large | ⟨_, -, h⟩
    · unfold toI64 at large
      split at large <;> cases large
    rcases bind_eq_error.mp h with large | ⟨_, -, h⟩
    · unfold toI64 at large
      split at large <;> cases large
    cases h

end

/-! ## Exclusion under every history -/

/-- Along every history of operations, with any observation times: active locks of one file are
compatible, active handles of one file share each other's access, an admitted write crosses no
active lock of another handle except one that was taken after it, a handle-lifetime lock has its
handle's fence and deadline and renewal never finds it otherwise, fences never fall, and an
operation with a superseded fence changes nothing. -/
theorem exclusion_under_every_history (operations : List StoreOperation) :
    (∀ a ∈ (empty.run operations).locks, ∀ b ∈ (empty.run operations).locks, a.state = .active →
      b.state = .active → a.lockId ≠ b.lockId → ∀ x ∈ (empty.run operations).handles,
      ∀ y ∈ (empty.run operations).handles, x.handleId = a.handleId → y.handleId = b.handleId →
      x.file = y.file → a.range.overlaps b.range = false ∨ (a.kind = .shared ∧ b.kind = .shared)) ∧
    (∀ a ∈ (empty.run operations).handles, ∀ b ∈ (empty.run operations).handles,
      a.state = .active → b.state = .active → a.handleId ≠ b.handleId → a.file = b.file →
      a.desiredAccess.exceeds b.shareAccess = false ∧ b.desiredAccess.exceeds a.shareAccess = false) ∧
    (∀ before request after receipt admitted,
      operations = before ++ StoreOperation.write request :: after →
      (empty.run before).admitWrite request = .ok (receipt, admitted) →
      receipt.disposition = .applied →
      (∀ lock, ¬ admitted.Obstructs request lock) ∧
      ∀ lock, (empty.run operations).Obstructs request lock →
        ∀ old ∈ admitted.locks, old.lockId ≠ lock.lockId) ∧
    (∀ lock ∈ (empty.run operations).locks, lock.state = .active → lock.lifetime = .handle →
      ∃ owner ∈ (empty.run operations).handles, owner.handleId = lock.handleId ∧
        owner.state = .active ∧ lock.handleFence = owner.handleFence ∧
        lock.leaseExpiresAt = owner.leaseExpiresAt) ∧
    (∀ request, (empty.run operations).renew request ≠ .error .corrupt) ∧
    (∀ before after, operations = before ++ after → ∀ old ∈ (empty.run before).handles,
      ∃ handle ∈ (empty.run operations).handles, handle.handleId = old.handleId ∧
        old.handleFence ≤ handle.handleFence) ∧
    (∀ operation handleId fence,
      (empty.run operations).presents operation = some (handleId, fence) →
      (∀ handle ∈ (empty.run operations).handles, handle.handleId = handleId →
        handle.handleFence ≠ fence) →
      (empty.run operations).step operation = empty.run operations) := by
  have inv := Exclusive.run operations
  refine ⟨inv.compatible, inv.shared, ?_, ?_, renew_not_corrupt inv, ?_, ?_⟩
  · rintro before request after receipt admitted rfl ran applied
    have invBefore := Exclusive.run before
    rcases admitWrite_ok ran with ⟨replayed, -⟩ | ⟨-, handle, written⟩
    · exact absurd (applied.symm.trans replayed) (by decide)
    have clear := admitted_clear invBefore written
    refine ⟨clear, fun lock obstructs => ?_⟩
    -- the rest of the history starts from the admitting store
    have committed : (empty.run before).transact (.write request) = .ok admitted :=
      map_eq_ok.mpr ⟨_, ran, rfl⟩
    have whole : empty.run (before ++ StoreOperation.write request :: after) = admitted.run after := by
      unfold run
      rw [List.foldl_append, List.foldl_cons]
      congr 1
      show (empty.run before).step (.write request) = admitted
      rw [step, committed]
    rw [whole] at obstructs inv
    obtain ⟨writer, inWriter, isWriter⟩ : ∃ writer ∈ admitted.handles,
        writer.handleId = request.handleId := by
      obtain ⟨old, inOld, isId, -⟩ := loadActive_fence written.active
      obtain ⟨writer, inWriter, next⟩ := (Later.transact committed).handles old inOld
      exact ⟨writer, inWriter, next.id.trans isId⟩
    exact obstructing_later (invBefore.transact committed) clear after inv inWriter isWriter obstructs
  · intro lock mem active lifetime
    obtain ⟨owner, inOwner, isOwner, follows⟩ := inv.owned lock mem active
    exact ⟨owner, inOwner, isOwner, follows.active, follows.fence, follows.bound lifetime⟩
  · rintro before after rfl old mem
    have whole : empty.run (before ++ after) = (empty.run before).run after := List.foldl_append
    rw [whole]
    obtain ⟨handle, inHandle, next⟩ := (Later.run (empty.run before) after).handles old mem
    exact ⟨handle, inHandle, next.id, next.fence⟩
  · intro operation handleId fence presented superseded
    exact step_of_superseded _ presented superseded

end BranchStore

end MeshSpan
