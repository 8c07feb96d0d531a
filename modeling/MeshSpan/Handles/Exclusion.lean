import MeshSpan.Handles.Effects

/- Locks and share modes exclude, whatever the callers' clocks say.

   Expiry is lazy and driven by each caller's own time, so nothing can be said
   about a row's deadline alone. What survives every order of times is a joint
   invariant of three tables: an active lock belongs to an active handle and
   carries its fence, two active locks of one file are compatible, and two
   active handles of one file share what the other one does.

   PROVED
     Exclusive                  the invariant, over the namespace, handles and locks
     Exclusive.retire           rows may stop being active, handle by handle
     Exclusive.expire           expiry, and nothing active is past the observed time
     Exclusive.open, .renew, .lock
     exclusive_run              every history from the empty store -/

namespace MeshSpan

open Rows OpenHandle List

variable (handle : OpenHandle)

def OpenHandle.file : BranchId × VolumeId × ObjectId :=
  (handle.branchId, handle.volumeId, handle.objectId)

variable {objectId : ObjectId} {state : LeaseState} {request : OpenHandleRequest}

theorem OpenHandle.on_iff {handle : OpenHandle} {branchId : BranchId} {volumeId : VolumeId} :
    handle.on branchId volumeId objectId = true ↔ handle.file = (branchId, volumeId, objectId) := by
  simp [on, file, and_assoc]

/-- The fields of a handle that exclusion rests on, with the others blanked. -/
def OpenHandle.frame : OpenHandle :=
  { handle with state := .active, workingLogicalLength := 0, deleteOnClose := false, path := [] }

/-- Two locks that may be held together: disjoint, or both shared. -/
def RangeLock.Compatible (a b : RangeLock) : Prop :=
  a.range.overlaps b.range = false ∨ (a.kind = .shared ∧ b.kind = .shared)

theorem RangeLock.Compatible.symm {a b : RangeLock} (h : a.Compatible b) : b.Compatible a :=
  h.imp ((ByteRange.overlaps_comm _ _).trans ·) And.symm

def OpenHandle.Shares (a b : OpenHandle) : Prop :=
  a.desiredAccess.exceeds b.shareAccess = false ∧ b.desiredAccess.exceeds a.shareAccess = false

/-- An active lock and the handle it was taken through: one fence, a deadline within the
handle's, and the handle's own deadline when the lock lives as long as the handle. -/
structure RangeLock.Follows (lock : RangeLock) (owner : OpenHandle) : Prop where
  active : owner.state = .active
  fence : lock.handleFence = owner.handleFence
  within : lock.leaseExpiresAt ≤ owner.leaseExpiresAt
  bound : lock.lifetime = .handle → lock.leaseExpiresAt = owner.leaseExpiresAt

/-- What a handle pinned is in the history of its branch, and its fence was never zero. -/
structure OpenHandle.Sound (handle : OpenHandle) (ns : Namespace) : Prop where
  authorized : handle.authorizationRevision ≠ 0
  fenced : handle.handleFence ≠ 0
  pinned : ns.validateOpenLineage handle.branchId handle.volumeId handle.openedNamespaceCommitId
    handle.objectId handle.objectRevisionId handle.openedVersionId = .ok ()

/-- The joint invariant of the namespace, the handles and the locks. -/
structure Exclusive (ns : Namespace) (handles : List OpenHandle) (locks : List RangeLock) : Prop where
  consistent : ns.Consistent
  handlesKeyed : Keyed handleId handles
  locksKeyed : Keyed RangeLock.lockId locks
  acquisitionsKeyed : Keyed (fun lock : RangeLock => lock.request.operationId) locks
  sound : ∀ handle ∈ handles, handle.Sound ns
  acquired : ∀ lock ∈ locks, lock.request.handleFence ≠ 0
  owned : ∀ lock ∈ locks, lock.state = .active →
    ∃ owner ∈ handles, owner.handleId = lock.handleId ∧ lock.Follows owner
  compatible : ∀ a ∈ locks, ∀ b ∈ locks, a.state = .active → b.state = .active →
    a.lockId ≠ b.lockId → ∀ x ∈ handles, ∀ y ∈ handles, x.handleId = a.handleId →
    y.handleId = b.handleId → x.file = y.file → a.Compatible b
  shared : ∀ a ∈ handles, ∀ b ∈ handles, a.state = .active → b.state = .active →
    a.handleId ≠ b.handleId → a.file = b.file → a.Shares b

namespace Exclusive

variable {ns : Namespace} {handles : List OpenHandle} {locks : List RangeLock}

theorem empty : Exclusive .empty [] [] where
  consistent := Namespace.consistent_empty
  handlesKeyed := nodup_nil
  locksKeyed := nodup_nil
  acquisitionsKeyed := nodup_nil
  sound _ mem := by cases mem
  acquired _ mem := by cases mem
  owned _ mem := by cases mem
  compatible _ mem := by cases mem
  shared _ mem := by cases mem

theorem grow (inv : Exclusive ns handles locks) {ns' : Namespace} (grown : ns.Extends ns')
    (consistent : ns'.Consistent) : Exclusive ns' handles locks :=
  { inv with
    consistent := consistent
    sound := fun handle mem => ⟨(inv.sound handle mem).authorized, (inv.sound handle mem).fenced,
      Namespace.validateOpenLineage_mono grown (inv.sound handle mem).pinned⟩ }

/-! ## Rows that stop being active -/

variable {p : OpenHandle → Bool} {f : OpenHandle → OpenHandle}

/-- A row that is on the file of another, shares what it does, and is active only if it is. -/
structure Stands (row old : OpenHandle) : Prop where
  handleId : row.handleId = old.handleId
  file : row.file = old.file
  desired : row.desiredAccess = old.desiredAccess
  share : row.shareAccess = old.shareAccess
  state : row.state = .active → old.state = .active

theorem Stands.of_frame {row old : OpenHandle} (same : row.frame = old.frame)
    (state : row.state = .active → old.state = .active) : Stands row old := by
  have id := congrArg OpenHandle.handleId same
  have file := congrArg OpenHandle.file same
  have desired := congrArg OpenHandle.desiredAccess same
  have share := congrArg OpenHandle.shareAccess same
  exact ⟨id, file, desired, share, state⟩

/-- The fields of a lock that a renewal leaves alone, with the others blanked. -/
def frame (lock : RangeLock) : RangeLock := { lock with handleFence := 0, leaseExpiresAt := 0 }

section

variable {handles' : List OpenHandle} (stands : ∀ row ∈ handles', ∃ old ∈ handles, Stands row old)

include stands

theorem stays_compatible (inv : Exclusive ns handles locks) {locks' : List RangeLock}
    (framed : ∀ lock ∈ locks', lock.state = .active → ∃ old ∈ locks, frame lock = frame old) :
    ∀ a ∈ locks', ∀ b ∈ locks', a.state = .active → b.state = .active →
      a.lockId ≠ b.lockId → ∀ x ∈ handles', ∀ y ∈ handles', x.handleId = a.handleId →
      y.handleId = b.handleId → x.file = y.file → a.Compatible b := by
  intro a memA b memB activeA activeB differ x memX y memY isX isY sameFile
  obtain ⟨oldA, inA, sameA⟩ := framed a memA activeA
  obtain ⟨oldB, inB, sameB⟩ := framed b memB activeB
  obtain ⟨oldX, inX, forX⟩ := stands x memX
  obtain ⟨oldY, inY, forY⟩ := stands y memY
  have ownerA := congrArg RangeLock.handleId sameA
  have ownerB := congrArg RangeLock.handleId sameB
  have compatible : (frame oldA).Compatible (frame oldB) := inv.compatible oldA inA oldB inB
    ((congrArg RangeLock.state sameA).symm.trans activeA)
    ((congrArg RangeLock.state sameB).symm.trans activeB)
    (fun same => differ ((congrArg RangeLock.lockId sameA).trans
      (same.trans (congrArg RangeLock.lockId sameB).symm)))
    oldX inX oldY inY (forX.handleId.symm.trans (isX.trans ownerA))
    (forY.handleId.symm.trans (isY.trans ownerB))
    (forX.file.symm.trans (sameFile.trans forY.file))
  rw [← sameA, ← sameB] at compatible
  exact compatible

theorem stays_shared (inv : Exclusive ns handles locks) :
    ∀ a ∈ handles', ∀ b ∈ handles', a.state = .active → b.state = .active →
      a.handleId ≠ b.handleId → a.file = b.file → a.Shares b := by
  intro a memA b memB activeA activeB differ sameFile
  obtain ⟨oldA, inA, forA⟩ := stands a memA
  obtain ⟨oldB, inB, forB⟩ := stands b memB
  have shares := inv.shared oldA inA oldB inB (forA.state activeA) (forB.state activeB)
    (fun same => differ (forA.handleId.trans (same.trans forB.handleId.symm)))
    (forA.file.symm.trans (sameFile.trans forB.file))
  unfold Shares at shares ⊢
  rw [forA.desired, forB.desired, forA.share, forB.share]
  exact shares

end

section

variable (inv : Exclusive ns handles locks)

include inv

/-- Handles may change outside their frame or stop being active, and locks may stop being active,
as long as no active lock outlives its handle. -/
theorem retire {q : RangeLock → Bool} (keeps : ∀ handle, (f handle).frame = handle.frame)
    (dies : ∀ handle, (f handle).state = .active → handle.state = .active) (inactive : state ≠ .active)
    (released : ∀ lock ∈ locks, lock.state = .active → q lock = false → ∀ owner ∈ handles,
      owner.handleId = lock.handleId → p owner = true → (f owner).state = owner.state) :
    Exclusive ns (amend p f handles)
      (amend q (fun lock => { lock with state := state }) locks) := by
  -- a lock that is still active is a row that was not amended
  have still : ∀ lock ∈ amend q (fun lock => { lock with state := state }) locks,
      lock.state = .active → lock ∈ locks ∧ q lock = false := by
    intro lock mem active
    obtain ⟨old, inOld, same⟩ := mem_amend.mp mem
    cases isAmended : q old
    · simp only [isAmended] at same
      exact same ▸ ⟨inOld, isAmended⟩
    · simp only [isAmended, if_true] at same
      exact absurd active (same ▸ inactive)
  have stands : ∀ row ∈ amend p f handles, ∃ old ∈ handles, Stands row old :=
    forall_amend (fun old inOld => ⟨old, inOld, .of_frame (keeps old) (dies old)⟩)
      fun old inOld => ⟨old, inOld, .of_frame rfl id⟩
  constructor
  · exact inv.consistent
  · refine keyed_amend (fun handle => ?_) inv.handlesKeyed
    have same := congrArg handleId (keeps handle)
    exact same
  · refine keyed_amend (fun lock => ?_) inv.locksKeyed
    rfl
  · refine keyed_amend (fun lock => ?_) inv.acquisitionsKeyed
    rfl
  · refine forall_amend (fun handle mem => ?_) inv.sound
    have sound : handle.frame.Sound ns := ⟨(inv.sound handle mem).authorized,
      (inv.sound handle mem).fenced, (inv.sound handle mem).pinned⟩
    rw [← keeps] at sound
    exact { sound with }
  · exact forall_amend inv.acquired inv.acquired
  · intro lock mem active
    obtain ⟨inLocks, kept⟩ := still lock mem active
    obtain ⟨owner, inOwner, isOwner, follows⟩ := inv.owned lock inLocks active
    have same : (if p owner then f owner else owner).frame = owner.frame := by
      split
      · exact keeps owner
      · rfl
    have live : (if p owner then f owner else owner).state = .active := by
      split
      · rename_i amended
        exact (released lock inLocks active kept owner inOwner isOwner amended).trans follows.active
      · exact follows.active
    have fence := congrArg handleFence same
    have lease := congrArg leaseExpiresAt same
    refine ⟨_, mem_amend.mpr ⟨owner, inOwner, rfl⟩,
      (congrArg handleId same).trans isOwner, live, follows.fence.trans fence.symm,
      follows.within.trans (ge_of_eq lease), fun bound => (follows.bound bound).trans lease.symm⟩
  · exact stays_compatible stands inv fun lock mem active => ⟨lock, (still lock mem active).1, rfl⟩
  · exact stays_shared stands inv

theorem retire_handles (keeps : ∀ handle, (f handle).frame = handle.frame)
    (same : ∀ handle, (f handle).state = handle.state) : Exclusive ns (amend p f handles) locks := by
  have retired := inv.retire (keeps ·) (fun handle active => same handle ▸ active)
    (show LeaseState.released ≠ .active by decide) (p := p) (q := fun _ => false)
    fun _ _ _ _ owner _ _ _ => same owner
  rw [amend_none] at retired
  exact retired

theorem retire_locks (q : RangeLock → Bool) (inactive : state ≠ .active) :
    Exclusive ns handles (amend q (fun lock => { lock with state := state }) locks) := by
  have retired := inv.retire (f := id) (fun _ => rfl) (fun _ active => active) inactive
    (p := fun _ => false) (q := q) fun _ _ _ _ _ _ _ _ => rfl
  rw [amend_none] at retired
  exact retired

end

/-! ## Expiry -/

/-- Nothing is active past the given time. -/
structure Settled (handles : List OpenHandle) (locks : List RangeLock) (now : UnixMicros) : Prop where
  handles : ∀ handle ∈ handles, handle.state = .active → now < handle.leaseExpiresAt
  locks : ∀ lock ∈ locks, lock.state = .active → now < lock.leaseExpiresAt

variable {store : BranchStore}

theorem expire (inv : Exclusive store.ns store.handles store.locks) (now : UnixMicros) :
    Exclusive (store.expireStaleHandles now).ns (store.expireStaleHandles now).handles
      (store.expireStaleHandles now).locks := by
  refine inv.retire (fun _ => rfl) (fun _ active => by cases active) (by decide) ?_
  -- the locks of an outlived handle expire with it
  intro lock mem active kept owner inOwner isOwner outlived
  have amended : store.handles.any (fun h => h.handleId == lock.handleId && h.outlivedAt now) = true :=
    any_eq_true.mpr ⟨owner, inOwner, by simp [isOwner, outlived]⟩
  rw [active, amended] at kept
  simp at kept

theorem settled_expire (store : BranchStore) (now : UnixMicros) :
    Settled (store.expireStaleHandles now).handles (store.expireStaleHandles now).locks now := by
  constructor
  · intro handle mem active
    obtain ⟨old, -, same⟩ := mem_amend.mp mem
    split at same
    · rw [← same] at active
      cases active
    · rename_i kept
      rw [same] at kept
      simpa [outlivedAt, active] using kept
  · intro lock mem active
    obtain ⟨old, -, same⟩ := mem_amend.mp mem
    split at same
    · rw [← same] at active
      cases active
    · rename_i kept
      rw [same, active] at kept
      simp only [beq_self_eq_true, Bool.true_and, Bool.or_eq_true, decide_eq_true_eq, not_or] at kept
      exact not_le.mp kept.1

/-! ## Opening -/

variable {handle : OpenHandle}

theorem enforceShareModes_ok (h : store.enforceShareModes request objectId = .ok ())
    (settled : Settled store.handles store.locks request.openedAt) (mem : handle ∈ store.handles)
    (active : handle.state = .active)
    (sameFile : handle.file = (request.branchId, request.volumeId, objectId)) :
    request.desiredAccess.exceeds handle.shareAccess = false ∧
      handle.desiredAccess.exceeds request.shareAccess = false := by
  obtain ⟨admitted, h⟩ := guard_ok.mp h
  by_contra conflict
  refine admitted (any_eq_true.mpr ⟨handle, mem, ?_⟩)
  have live : handle.liveAt request.openedAt = true := by
    simp [liveAt, active, settled.handles handle mem active]
  simp only [on_iff.mpr sameFile, live, BranchStore.shareConflict, Bool.true_and,
    Bool.or_eq_true]
  by_contra none
  push Not at none
  exact conflict ⟨eq_false_of_ne_true none.1, eq_false_of_ne_true none.2⟩

variable {committed : BranchStore}

theorem opened (inv : Exclusive store.ns store.handles store.locks)
    (settled : Settled store.handles store.locks request.openedAt)
    (h : BranchStore.Opened store request committed) :
    Exclusive committed.ns committed.handles committed.locks := by
  obtain ⟨resolved, path, found, -, fresh, -, shares, rfl⟩ := h.inserted
  have unused : ∀ other ∈ store.handles, other.handleId ≠ request.handleId := get_eq_none.mp fresh
  -- no lock is owned by the new handle
  have notOwner : ∀ lock ∈ store.locks, lock.state = .active → request.handleId ≠ lock.handleId := by
    intro lock mem active same
    obtain ⟨owner, inOwner, isOwner, -⟩ := inv.owned lock mem active
    exact unused owner inOwner (isOwner.trans same.symm)
  refine ⟨inv.consistent, keyed_append inv.handlesKeyed unused, inv.locksKeyed,
    inv.acquisitionsKeyed, forall_mem_append.mpr ⟨inv.sound, forall_mem_singleton.mpr ?_⟩,
    inv.acquired, ?_, ?_, ?_⟩
  · exact ⟨h.authorized, one_ne_zero, Namespace.resolveFilePath_lineage inv.consistent found⟩
  · intro lock mem active
    obtain ⟨owner, inOwner, rest⟩ := inv.owned lock mem active
    exact ⟨owner, mem_append_left _ inOwner, rest⟩
  · intro a memA b memB activeA activeB differ x memX y memY isX isY
    rcases mem_snoc.mp memX with oldX | rfl
    · rcases mem_snoc.mp memY with oldY | rfl
      · exact inv.compatible a memA b memB activeA activeB differ x oldX y oldY isX isY
      · exact absurd isY (notOwner b memB activeB)
    · exact absurd isX (notOwner a memA activeA)
  · intro a memA b memB activeA activeB differ sameFile
    rcases mem_snoc.mp memA with oldA | rfl
    · rcases mem_snoc.mp memB with oldB | rfl
      · exact inv.shared a oldA b oldB activeA activeB differ sameFile
      · exact (enforceShareModes_ok shares settled oldA activeA sameFile).symm
    · rcases mem_snoc.mp memB with oldB | rfl
      · exact enforceShareModes_ok shares settled oldB activeB sameFile.symm
      · exact absurd rfl differ

/-! ## Locking -/

variable {lock : RangeLock}

theorem lockOn_iff : store.lockOn lock handle = true ↔
      ∃ owner ∈ store.handles, owner.handleId = lock.handleId ∧ owner.file = handle.file := by
  unfold BranchStore.lockOn
  rw [any_eq_true]
  simp only [Bool.and_eq_true, beq_iff_eq, on_iff]
  rfl

theorem rejectOverlappingLock_ok {request : LockRangeRequest}
    (h : store.rejectOverlappingLock request handle = .ok ())
    (settled : Settled store.handles store.locks request.observedAt)
    (mem : lock ∈ store.locks) (active : lock.state = .active) {owner : OpenHandle}
    (inOwner : owner ∈ store.handles) (isOwner : owner.handleId = lock.handleId)
    (sameFile : owner.file = handle.file) : lock.Compatible (BranchStore.lockedRow request) := by
  obtain ⟨admitted, h⟩ := guard_ok.mp h
  have live : lock.liveAt request.observedAt = true := by
    simp [RangeLock.liveAt, active, settled.locks lock mem active]
  have none : BranchStore.lockConflict request lock = false := by
    by_contra conflict
    refine admitted (any_eq_true.mpr ⟨lock, mem, ?_⟩)
    simp [lockOn_iff.mpr ⟨owner, inOwner, isOwner, sameFile⟩, live, Bool.eq_true_of_not_eq_false conflict]
  rcases Bool.and_eq_false_iff.mp none with apart | shared
  · exact .inl apart
  simp only [Bool.or_eq_false_iff, beq_eq_false_iff_ne, ne_eq] at shared
  refine .inr ⟨?_, ?_⟩
  · cases kind : lock.kind
    · rfl
    · exact absurd kind shared.2
  · show request.kind = .shared
    cases kind : request.kind
    · rfl
    · exact absurd kind shared.1

theorem locked {request : LockRangeRequest} (inv : Exclusive store.ns store.handles store.locks)
    (h : BranchStore.Locked store request handle committed) :
    Exclusive committed.ns committed.handles committed.locks := by
  have expired := inv.expire request.observedAt
  have settled := settled_expire store request.observedAt
  obtain ⟨isHandle, isActive, -⟩ := BranchStore.loadActive_ok h.active
  obtain ⟨inHandles, isId⟩ := get_mem isHandle
  rw [h.result]
  -- the handle the lock was taken through is its only owner
  have owns : ∀ x ∈ (store.expireStaleHandles request.observedAt).handles,
      x.handleId = request.handleId → x = handle := fun x mem same =>
    expired.handlesKeyed.eq_of_key mem inHandles (same.trans isId.symm)
  refine ⟨expired.consistent, expired.handlesKeyed, keyed_append expired.locksKeyed h.unused,
    keyed_append expired.acquisitionsKeyed ?_, expired.sound,
    forall_mem_append.mpr ⟨expired.acquired, forall_mem_singleton.mpr h.presented⟩,
    forall_mem_append.mpr ⟨expired.owned, forall_mem_singleton.mpr fun _ =>
      ⟨handle, inHandles, isId, isActive, h.owner.symm, h.within, h.bound⟩⟩, ?_, expired.shared⟩
  · -- expiry keeps the acquisition of every lock
    intro lock mem same
    obtain ⟨old, inOld, rfl⟩ := mem_amend.mp mem
    refine get_eq_none.mp h.unrecorded old inOld ?_
    split at same
    · exact same
    · exact same
  · intro a memA b memB activeA activeB differ x memX y memY isX isY sameFile
    rcases mem_snoc.mp memA with oldA | rfl
    · rcases mem_snoc.mp memB with oldB | rfl
      · exact expired.compatible a oldA b oldB activeA activeB differ x memX y memY isX isY sameFile
      · rw [owns y memY isY] at sameFile
        exact rejectOverlappingLock_ok h.admitted settled oldA activeA memX isX sameFile
    · rcases mem_snoc.mp memB with oldB | rfl
      · rw [owns x memX isX] at sameFile
        exact (rejectOverlappingLock_ok h.admitted settled oldB activeB memY isY sameFile.symm).symm
      · exact absurd rfl differ

/-! ## Renewal -/

variable {request : HandleLeaseRequest} {fence : Nat}

theorem mem_updateLease (mem : lock ∈ (store.updateLease request fence).locks) :
    ∃ old ∈ store.locks, frame lock = frame old ∧
      (old.handleId ≠ request.handleId → lock = old) ∧
      (old.handleId = request.handleId → old.state = .active →
        lock.handleFence = (if request.takeover then fence else old.handleFence) ∧
        lock.leaseExpiresAt =
          (if old.lifetime = .handle then request.leaseExpiresAt else old.leaseExpiresAt)) := by
  obtain ⟨mid, inMid, rfl⟩ := mem_amend.mp mem
  obtain ⟨old, inOld, rfl⟩ := mem_amend.mp inMid
  refine ⟨old, inOld, ?_, ?_, ?_⟩
  · split <;> split <;> rfl
  · intro other
    simp [RangeLock.boundTo, other]
  · intro same active
    by_cases takeover : request.takeover = true <;> by_cases bound : old.lifetime = .handle <;>
      simp [RangeLock.boundTo, same, active, takeover, bound]

def renewedRow (request : HandleLeaseRequest) (fence : Nat) (handle : OpenHandle) : OpenHandle :=
  { handle with
    gatewayNodeId := request.gatewayNodeId
    authorizationRevision := request.authorizationRevision
    handleFence := fence
    leaseExpiresAt := request.leaseExpiresAt }

theorem updateLease_handles (keyed : Keyed handleId store.handles)
    (active : store.loadActive request.handleId request.observedAt = .ok handle)
    (owner : handle.handleFence = request.expectedFence) : (store.updateLease request fence).handles =
      amend (·.handleId == request.handleId) (renewedRow request fence) store.handles := by
  obtain ⟨isHandle, isActive, later⟩ := BranchStore.loadActive_ok active
  obtain ⟨inHandles, isId⟩ := get_mem isHandle
  refine map_congr_left fun row mem => ?_
  by_cases same : row.handleId = request.handleId
  · rw [keyed.eq_of_key mem inHandles (same.trans isId.symm)]
    simp [isId, owner, liveAt, isActive, later, renewedRow]
  · simp [same]

section

variable (inv : Exclusive store.ns store.handles store.locks)

include inv

theorem renewed (h : BranchStore.Renewed store request handle fence committed) :
    Exclusive committed.ns committed.handles committed.locks := by
  have expired := inv.expire request.observedAt
  obtain ⟨isHandle, isActive, -⟩ := BranchStore.loadActive_ok h.active
  obtain ⟨inHandles, isId⟩ := get_mem isHandle
  rw [h.result]
  show Exclusive _ (((store.expireStaleHandles request.observedAt).updateLease request fence).handles) _
  rw [updateLease_handles expired.handlesKeyed h.active h.owner]
  have stands : ∀ row ∈ amend (fun row : OpenHandle => row.handleId == request.handleId)
      (renewedRow request fence) (store.expireStaleHandles request.observedAt).handles,
      ∃ old ∈ (store.expireStaleHandles request.observedAt).handles, Stands row old :=
    forall_amend (fun old inOld => ⟨old, inOld, rfl, rfl, rfl, rfl, id⟩) fun old inOld =>
      ⟨old, inOld, rfl, rfl, rfl, rfl, id⟩
  have fenced : fence ≠ 0 := by
    have := h.raised
    have := h.presented
    omega
  refine ⟨expired.consistent, keyed_amend (fun _ => ?_) expired.handlesKeyed, ?_, ?_, ?_, ?_, ?_,
    ?_, ?_⟩
  · rfl
  · refine keyed_amend (fun _ => ?_) (keyed_amend (fun _ => ?_) expired.locksKeyed) <;> rfl
  · refine keyed_amend (fun _ => ?_) (keyed_amend (fun _ => ?_) expired.acquisitionsKeyed) <;> rfl
  · exact forall_amend (fun old inOld => ⟨h.authorized, fenced, (expired.sound old inOld).pinned⟩)
      expired.sound
  · intro lock mem
    obtain ⟨old, inOld, same, -⟩ := mem_updateLease mem
    have request := congrArg RangeLock.request same
    rw [show lock.request = old.request from request]
    exact expired.acquired old inOld
  · intro lock mem active
    obtain ⟨old, inOld, same, other, mine⟩ := mem_updateLease mem
    have wasActive : old.state = .active := (congrArg RangeLock.state same).symm.trans active
    obtain ⟨owner, inOwner, isOwner, follows⟩ := expired.owned old inOld wasActive
    by_cases ofHandle : old.handleId = request.handleId
    · -- the owner is the renewed handle
      obtain ⟨newFence, newLease⟩ := mine ofHandle wasActive
      have isHandle : owner = handle := expired.handlesKeyed.eq_of_key inOwner inHandles
        (isOwner.trans (ofHandle.trans isId.symm))
      rw [isHandle] at follows
      have lockId := congrArg RangeLock.handleId same
      have lifetime := congrArg RangeLock.lifetime same
      refine ⟨renewedRow request fence handle, mem_amend.mpr ⟨handle, inHandles, by simp [isId]⟩,
        ?_, isActive, ?_, ?_, ?_⟩
      · exact isId.trans (ofHandle.symm.trans lockId.symm)
      · rw [newFence]
        cases takeover : request.takeover
        · show old.handleFence = fence
          rw [h.kept takeover, follows.fence, h.owner]
        · rfl
      · rw [newLease]
        split
        · exact le_refl _
        · exact follows.within.trans h.later
      · intro bound
        rw [newLease, if_pos (show old.lifetime = .handle from lifetime.symm.trans bound)]
        rfl
    · rw [other ofHandle]
      refine ⟨owner, mem_amend_of_not inOwner ?_, isOwner, follows⟩
      simpa using fun same => ofHandle (isOwner.symm.trans same)
  · refine stays_compatible stands expired fun lock mem _ => ?_
    obtain ⟨old, inOld, same, -⟩ := mem_updateLease mem
    exact ⟨old, inOld, same⟩
  · exact stays_shared stands expired

/-! ## The other operations -/

theorem closed {request : CloseHandleRequest} (h : BranchStore.Closed store request handle committed) :
    Exclusive committed.ns committed.handles committed.locks := by
  obtain ⟨outcome, closed, advanced, rfl⟩ := h.result
  have only := BranchStore.advancePendingDelete_eq
    ((store.expireStaleHandles request.observedAt).retireHandle request handle) request handle
  rw [advanced] at only
  simp only at only
  rw [only]
  refine (inv.expire request.observedAt).retire (fun _ => rfl) fun _ active => by cases active
    (by decide) ?_
  -- a handle is closed together with its active locks
  intro lock mem active kept owner inOwner isOwner closing
  simp only [Bool.and_eq_true, beq_iff_eq] at closing
  simp [active, ← isOwner, closing.1.1] at kept

theorem updated (handleId : HandleId) (fence : Nat) (now : UnixMicros) (length : Nat)
    (deleteOnClose : Bool) : Exclusive (store.updateHandle handleId fence now length deleteOnClose).ns
      (store.updateHandle handleId fence now length deleteOnClose).handles
      (store.updateHandle handleId fence now length deleteOnClose).locks :=
  inv.retire_handles (fun _ => rfl) fun _ => rfl

theorem published {publication : RootFilePublication} {request : Option OpenHandleRequest}
    {content : Except PublicationError Unit}
    (h : BranchStore.Published store publication request content committed) :
    Exclusive committed.ns committed.handles committed.locks := by
  obtain ⟨ns, advanced, after, isNs, progressed, isOpened, rfl⟩ := h.result
  obtain ⟨grown, consistent⟩ := Namespace.publishFile_extends isNs
  have published := inv.grow grown (consistent inv.consistent)
  have progress : Exclusive advanced.ns advanced.handles advanced.locks := by
    cases progressed with
    | unplanned _ => exact published
    | flushed _ _ _ _ _ _ _ => exact published
  rcases isOpened with rfl | ⟨open', -, applied⟩
  · exact progress
  · have done := opened (progress.expire open'.openedAt) (settled_expire advanced open'.openedAt) applied
    exact done

theorem renamed {publication : NamespaceRenamePublication}
    (h : BranchStore.Renamed store publication committed) :
    Exclusive committed.ns committed.handles committed.locks := by
  obtain ⟨head, commit, source, revision, moved, ns, loaded, -, isMoved, isNs, -, rfl⟩ := h.result
  obtain ⟨grown, consistent⟩ := Namespace.rename_extends loaded isMoved isNs
  exact ((inv.expire publication.createdAt).grow grown (consistent inv.consistent)).retire_handles
    (fun _ => rfl) fun _ => rfl

theorem unlinked {publication : NamespaceUnlinkPublication}
    (h : BranchStore.Unlinked store publication committed) :
    Exclusive committed.ns committed.handles committed.locks := by
  obtain ⟨head, commit, directories, revision, ns, consumed, loaded, -, -, isNs, isConsumed, rfl⟩ :=
    h.result
  obtain ⟨grown, consistent⟩ := Namespace.unlinkCommit_extends loaded isNs
  rw [(BranchStore.consumeUnlinkAuthority_ok isConsumed).1]
  exact (inv.expire publication.createdAt).grow grown (consistent inv.consistent)

/-- Every committed transaction keeps the invariant. -/
theorem transact {operation : StoreOperation} (h : store.transact operation = .ok committed) :
    Exclusive committed.ns committed.handles committed.locks := by
  rcases BranchStore.transact_ok h with rfl | applied
  · exact inv
  cases applied with
  | publish done => exact inv.published done
  | createDirectory done =>
    obtain ⟨grown, consistent⟩ := Namespace.createDirectory_extends done
    exact inv.grow grown (consistent inv.consistent)
  | openHandle done => exact opened (inv.expire _) (settled_expire store _) done
  | renew done => exact inv.renewed done
  | close done => exact inv.closed done
  | lock done => exact inv.locked done
  | unlock done => exact done.result ▸ (inv.expire _).retire_locks _ (by decide)
  | write done => exact done.result ▸ (inv.expire _).updated _ _ _ _ _
  | information done => exact done.result ▸ (inv.expire _).updated _ _ _ _ _
  | flush done => exact done.result ▸ inv.expire _
  | rename done => exact inv.renamed done
  | unlink done => exact inv.unlinked done
  | readyDelete => exact inv.expire _
  | expire => exact inv.expire _

end

/-- Every history from the empty store. -/
theorem run (operations : List StoreOperation) :
    Exclusive (BranchStore.empty.run operations).ns (BranchStore.empty.run operations).handles
      (BranchStore.empty.run operations).locks :=
  BranchStore.run_induction (P := fun store => Exclusive store.ns store.handles store.locks) empty
    (fun _ _ _ inv committed => inv.transact committed) operations

end Exclusive

end MeshSpan
