import MeshSpan.Handles.Flush

/- Every operation on a branch store, and whole histories of them.

   An operation that fails is rolled back, so a failed step leaves the store as
   it was. Nothing relates the observation times of two operations. -/

namespace MeshSpan

inductive StoreOperation where
  | publish (publication : RootFilePublication) (request : Option OpenHandleRequest)
      (content : Except PublicationError Unit)
  | createDirectory (publication : DirectoryPublication)
  | openHandle (request : OpenHandleRequest) (expectedObjectId : Option ObjectId)
  | renew (request : HandleLeaseRequest)
  | close (request : CloseHandleRequest)
  | lock (request : LockRangeRequest)
  | unlock (request : UnlockRangeRequest)
  | write (request : HandleWriteAdmissionRequest)
  | information (request : HandleInformationRequest)
  | flush (request : FilesystemHandleFlushRequest)
  | rename (publication : NamespaceRenamePublication)
  | unlink (publication : NamespaceUnlinkPublication)
  | readyDelete (requestingHandleId : HandleId) (now : UnixMicros)
  | expire (branchId : BranchId) (volumeId : VolumeId) (after : Option ObjectId)
      (maximumResults : Nat) (now : UnixMicros)

namespace BranchStore

variable (store : BranchStore)

/-- The transaction of one operation: its result and the store it commits. -/
def transact : StoreOperation → Except HandleError BranchStore
  | .publish publication request content => (·.2) <$> store.publish publication request content
  | .createDirectory publication => (·.2) <$> store.createDirectory publication
  | .openHandle request expected => (·.2) <$> store.openExistingAt request expected
  | .renew request => (·.2) <$> store.renew request
  | .close request => (·.2) <$> store.close request
  | .lock request => (·.2) <$> store.lockRange request
  | .unlock request => (·.2) <$> store.unlockRange request
  | .write request => (·.2) <$> store.admitWrite request
  | .information request => (·.2) <$> store.setInformation request
  | .flush request => (·.2) <$> store.prepareFlush request
  | .rename publication => (·.2) <$> store.rename publication
  | .unlink publication => (·.2) <$> store.unlink publication
  | .readyDelete requestingHandleId now => (·.2) <$> store.loadReadyDelete requestingHandleId now
  | .expire branchId volumeId after maximumResults now =>
    (·.2) <$> store.loadReadyDeletes branchId volumeId after maximumResults now

/-- A failed transaction rolls back. -/
def step (operation : StoreOperation) : BranchStore :=
  match store.transact operation with
  | .ok committed => committed
  | .error _ => store

def run (operations : List StoreOperation) : BranchStore :=
  operations.foldl step store

/-- A property of the empty store that every committed transaction keeps holds after every
history. -/
theorem run_induction {P : BranchStore → Prop} (start : P empty)
    (keeps : ∀ store operation committed, P store → store.transact operation = .ok committed →
      P committed) (operations : List StoreOperation) : P (empty.run operations) := by
  suffices h : ∀ store, P store → P (store.run operations) from h empty start
  induction operations with
  | nil => exact fun store holds => holds
  | cons operation rest ih =>
    intro store holds
    refine ih (store.step operation) ?_
    unfold step
    split
    · rename_i committed applied
      exact keeps store operation committed holds applied
    · exact holds

end BranchStore

end MeshSpan
