import MeshSpan.Branch.Namespace

/- Namespace publications: file, directory, rename and unlink.

   Each publication names the commit it expects at the head and the directory
   revisions it expects on its path, copies those directories under new
   revision ids with one entry changed, and moves the head to a new commit.
   A publication either applies as a whole or leaves the tables as they were.

   Correspondence (Rust ↔ Lean)
     namespace_publication.rs          load_base, load_path_directories,
                                       validate_old_entry, mutate_namespace_path,
                                       remove_namespace_path, publish_inner,
                                       create_directory_inner
     namespace_publication/rename.rs   validate_shape, persist_namespace_move
     namespace_publication/unlink.rs   validate_shape, validate_target
     namespace_publication/lazy_file_head.rs, publication.rs
                                       materialize, prepare_file, persist_version,
                                       advance_file_head
     schema/branch/005, 006            the CHECK and UNIQUE constraints of
                                       `namespace_commit_intents`, `persistBranchIntent`

   Content manifests, cleanup fences and content-reuse reservations are other
   components: what they answer to a publication is the parameter `content`. -/

namespace MeshSpan

open Rows

/-- One directory on a publication's path and the revision that replaces it. -/
structure DirectoryRevisionTransition where
  objectId : ObjectId
  (expectedRevisionId newRevisionId : ObjectRevisionId)
  moves : expectedRevisionId ≠ newRevisionId
deriving DecidableEq

/-- A path with one transition for each directory above its leaf. -/
structure NamespacePublicationPath where
  path : NamespacePath
  ancestors : List DirectoryRevisionTransition
  chain : ancestors.length + 1 = path.length
deriving DecidableEq

/-- The last component; a publication path is never empty. -/
def NamespacePublicationPath.leafName (path : NamespacePublicationPath) : NamespaceComponent :=
  path.path.getLast (List.ne_nil_of_length_pos (path.chain ▸ Nat.succ_pos _))

structure LoadedDirectory where
  editor : DirectoryTrie
  objectId : ObjectId
  priorRevisionId : Option ObjectRevisionId
  newRevisionId : ObjectRevisionId

/-- What a publication installs for one directory of its path. -/
structure DirectoryRevisionResult where
  objectId : ObjectId
  priorRevisionId : Option ObjectRevisionId
  newRevisionId : ObjectRevisionId
  root : DirectoryTrie

def LoadedDirectory.result (loaded : LoadedDirectory) (root : DirectoryTrie) :
    DirectoryRevisionResult :=
  ⟨loaded.objectId, loaded.priorRevisionId, loaded.newRevisionId, root⟩

namespace Namespace

/-! ## Loading the directories of a path -/

variable (ns : Namespace)

def loadDirectory (revisionId : ObjectRevisionId) (objectId : ObjectId)
    (newRevisionId : ObjectRevisionId) (volumeId : VolumeId) :
    Except PublicationError LoadedDirectory :=
  match ns.revision? revisionId with
  | none => .error .sqlite
  | some stored =>
    if stored.objectId ≠ objectId ∨ stored.volumeId ≠ volumeId then .error .corrupt
    else match stored.content with
      | .directory root => .ok ⟨root, objectId, some revisionId, newRevisionId⟩
      | .file _ => .error .corrupt

def expectTransition (loaded : LoadedDirectory) (name : NamespaceComponent)
    (transition : DirectoryRevisionTransition) : Except PublicationError Unit :=
  match loaded.editor.lookup name with
  | none => .error .staleHead
  | some entry =>
    if entry.kind ≠ .directory ∨ entry.objectId ≠ transition.objectId ∨
        entry.objectRevisionId ≠ transition.expectedRevisionId then .error .staleHead
    else .ok ()

/-- `load_path_directories`: root first, the leaf's parent last. -/
def loadPathDirectories (ns : Namespace) (volumeId : VolumeId) :
    ObjectId → ObjectRevisionId → ObjectRevisionId → NamespacePath →
    List DirectoryRevisionTransition → Except PublicationError (List LoadedDirectory)
  | objectId, current, next, _, [] => do
    return [← ns.loadDirectory current objectId next volumeId]
  | _, _, _, [], _ :: _ => .error .invalidInput
  | objectId, current, next, name :: names, transition :: transitions => do
    let loaded ← ns.loadDirectory current objectId next volumeId
    expectTransition loaded name transition
    let below ← ns.loadPathDirectories volumeId transition.objectId transition.expectedRevisionId
      transition.newRevisionId names transitions
    return loaded :: below

/-! ## Copying the path -/

/-- A change of the leaf's directory, carried up to the root (`propagate_directory_change`). -/
def mutatePath (change : NamespaceComponent → DirectoryTrie → Except DirectoryTrieError DirectoryTrie) :
    List LoadedDirectory → NamespacePath → Except PublicationError (List DirectoryRevisionResult)
  | [], _ => .error .corrupt
  | [parent], leaf :: _ => do
    let root ← liftDirectory (change leaf parent.editor)
    return [parent.result root]
  | _, [] => .error .corrupt
  | directory :: child :: deeper, name :: names => do
    let below ← mutatePath change (child :: deeper) names
    match directory.editor.lookup name with
    | none => .error .corrupt
    | some old =>
      let replacement : DirectoryEntry :=
        { name := name, objectId := child.objectId, objectRevisionId := child.newRevisionId,
          kind := .directory, generation := old.generation, generation_pos := old.generation_pos }
      let root ← liftDirectory (directory.editor.upsert replacement (some old.objectRevisionId))
      return directory.result root :: below

variable (directories : List LoadedDirectory) (path : NamespacePath)

def mutateNamespacePath
    (entry : DirectoryEntry) (expected : Option ObjectRevisionId) :
    Except PublicationError (List DirectoryRevisionResult) :=
  mutatePath (fun _ trie => trie.upsert entry expected) directories path

def removeNamespacePath
    (expected : ObjectRevisionId) : Except PublicationError (List DirectoryRevisionResult) :=
  mutatePath (fun leaf trie => trie.remove leaf expected) directories path

/-! ## Persisting -/

def persistObjectRevision (revision : ObjectRevision) : Except PublicationError Namespace :=
  if (ns.revision? revision.revisionId).isSome then .error .operationConflict
  else .ok { ns with revisions := ns.revisions ++ [revision] }

def persistDirectories (volumeId : VolumeId) :
    Namespace → List DirectoryRevisionResult → Except PublicationError Namespace
  | ns, [] => .ok ns
  | ns, result :: results => do
    let next ← ns.persistObjectRevision
      ⟨result.newRevisionId, volumeId, result.objectId, result.priorRevisionId, .directory result.root⟩
    persistDirectories volumeId next results

def persistCommit (commit : NamespaceCommit) : Except PublicationError Namespace :=
  if (ns.commit? commit.commitId).isSome then .error .operationConflict
  else .ok { ns with commits := ns.commits ++ [commit] }

def maximumPathDepth : Nat := 1024

/-- The table constraints of `namespace_commit_intents`: a directory intent has no prior revision,
the path is not too deep, and no directory occurs twice above the leaf. -/
def persistBranchIntent (kind : DirectoryEntryKind) (prior : Option ObjectRevisionId)
    (path : NamespacePublicationPath) : Except PublicationError Unit :=
  if (kind = .directory ∧ prior.isSome) ∨ maximumPathDepth < path.path.length ∨
      ¬ (path.ancestors.map DirectoryRevisionTransition.objectId).Nodup then .error .sqlite
  else .ok ()

variable (branchId : BranchId) (volumeId : VolumeId)

/-- The head row that a compare-and-set moves. -/
def headSelected (expectedId : NamespaceCommitId)
    (previousSequence : Nat) (head : BranchNamespaceHead) : Bool :=
  head.branchId == branchId && head.volumeId == volumeId &&
    head.namespaceCommitId == expectedId && head.sequence == previousSequence

/-- `advance_namespace_head`: compare and set, or create the first head. -/
def advanceNamespaceHead
    (expected : Option NamespaceCommitId) (commitId : NamespaceCommitId) (previousSequence : Nat) :
    Except PublicationError Namespace :=
  if u64Max < previousSequence + 1 ∨ i64Max < previousSequence + 1 then .error .invalidInput
  else match expected with
    | some expectedId =>
      if ns.heads.any (headSelected branchId volumeId expectedId previousSequence) then
        .ok { ns with
          heads := amend (headSelected branchId volumeId expectedId previousSequence)
            (fun head => { head with namespaceCommitId := commitId, sequence := previousSequence + 1 })
            ns.heads }
      else .error .staleHead
    | none =>
      if (ns.head? branchId volumeId).isSome then .error .sqlite
      else .ok { ns with heads := ns.heads ++ [⟨branchId, volumeId, commitId, previousSequence + 1⟩] }

/-! ## Heads -/

def loadHead : Except PublicationError (Option (BranchNamespaceHead × NamespaceCommit)) :=
  match ns.head? branchId volumeId with
  | none => .ok none
  | some head =>
    match ns.commit? head.namespaceCommitId with
    | none => .error .sqlite
    | some commit =>
      if commit.volumeId = volumeId then .ok (some (head, commit)) else .error .corrupt

variable (rootObjectId : ObjectId)

def loadExpectedHead (expected : NamespaceCommitId) :
    Except PublicationError (BranchNamespaceHead × NamespaceCommit) := do
  match ← ns.loadHead branchId volumeId with
  | none => .error .staleHead
  | some (head, commit) =>
    if head.namespaceCommitId ≠ expected then .error .staleHead
    else if commit.rootObjectId ≠ rootObjectId then .error .corrupt
    else return (head, commit)

/-- The directories a publication edits and the sequence of the head it replaces. -/
structure NamespaceBase where
  directories : List LoadedDirectory
  headSequence : Nat

/-- `load_base`. The first publication of a volume starts from an empty root. -/
def loadBase
    (rootRevisionId : ObjectRevisionId) (expected : Option NamespaceCommitId)
    (path : NamespacePublicationPath) : Except PublicationError NamespaceBase := do
  match ← ns.loadHead branchId volumeId, expected with
  | none, none =>
    if path.ancestors = [] then
      return ⟨[⟨DirectoryTrie.empty, rootObjectId, none, rootRevisionId⟩], 0⟩
    else .error .staleHead
  | some (head, commit), some expectedId =>
    if head.namespaceCommitId ≠ expectedId then .error .staleHead
    else if commit.rootObjectId ≠ rootObjectId then .error .corrupt
    else if rootRevisionId = commit.rootObjectRevisionId ∨
        path.ancestors.any (·.newRevisionId == commit.rootObjectRevisionId) then
      .error .invalidInput
    else
      let directories ← ns.loadPathDirectories volumeId rootObjectId commit.rootObjectRevisionId
        rootRevisionId path.path path.ancestors
      return ⟨directories, head.sequence⟩
  | _, _ => .error .staleHead

def leafEntry (path : NamespacePublicationPath) : Except PublicationError (Option DirectoryEntry) :=
  match directories.getLast? with
  | none => .error .corrupt
  | some parent => .ok (parent.editor.lookup path.leafName)

end Namespace

/-! ## File publications -/

structure FilePublication where
  operationId : OperationId
  branchId : BranchId
  volumeId : VolumeId
  objectId : ObjectId
  expectedCurrentVersionId : Option FileVersionId
  versionId : FileVersionId
  parentVersionId : Option FileVersionId
  (retentionPolicySequence manifestFormatVersion logicalLength : Nat)
  createdBy : PrincipalId
  createdAt : UnixMicros
deriving DecidableEq

structure RootFilePublication where
  file : FilePublication
  rootObjectId : ObjectId
  expectedNamespaceCommitId : Option NamespaceCommitId
  expectedFileObjectRevisionId : Option ObjectRevisionId
  (fileObjectRevisionId rootObjectRevisionId : ObjectRevisionId)
  namespaceCommitId : NamespaceCommitId
  path : NamespacePublicationPath
  entryGeneration : Nat
deriving DecidableEq

namespace RootFilePublication

variable (publication : RootFilePublication)

def objects : List ObjectId :=
  publication.rootObjectId :: publication.file.objectId ::
    publication.path.ancestors.map DirectoryRevisionTransition.objectId

def newRevisions : List ObjectRevisionId :=
  publication.rootObjectRevisionId :: publication.fileObjectRevisionId ::
    publication.path.ancestors.map DirectoryRevisionTransition.newRevisionId

def priorRevisions : List ObjectRevisionId :=
  publication.expectedFileObjectRevisionId.toList ++
    publication.path.ancestors.map DirectoryRevisionTransition.expectedRevisionId

/-- `validate_publication` and `validate`. -/
def validate : Except PublicationError Unit :=
  if publication.file.parentVersionId ≠ publication.file.expectedCurrentVersionId ∨
      publication.file.retentionPolicySequence = 0 ∨
      i64Max < publication.file.retentionPolicySequence ∨
      publication.file.manifestFormatVersion = 0 ∨ i64Max < publication.file.logicalLength ∨
      publication.entryGeneration = 0 ∨ ¬ publication.objects.Nodup ∨
      ¬ publication.newRevisions.Nodup ∨
      publication.newRevisions.any (publication.priorRevisions.contains ·) then
    .error .invalidInput
  else .ok ()

end RootFilePublication

namespace Namespace

variable (ns : Namespace) (publication : RootFilePublication)

def validateOldEntry
    (old : Option DirectoryEntry) : Except PublicationError Unit :=
  if old.map DirectoryEntry.objectRevisionId ≠ publication.expectedFileObjectRevisionId then
    .error .staleHead
  else match old with
    | none =>
      if publication.file.expectedCurrentVersionId.isNone then .ok () else .error .staleHead
    | some entry =>
      if entry.objectId ≠ publication.file.objectId ∨ entry.kind ≠ .file then .error .staleHead
      else match ns.revision? entry.objectRevisionId with
        | none => .error .sqlite
        | some stored =>
          if stored.objectId = publication.file.objectId ∧
              stored.volumeId = publication.file.volumeId ∧
              some stored.content = publication.file.expectedCurrentVersionId.map .file then .ok ()
          else .error .corrupt

variable (file : FilePublication)

/-- `lazy_file_head::materialize`: a branch file row for an inherited version. -/
def materialize : Except PublicationError Namespace :=
  match file.expectedCurrentVersionId with
  | none => .ok ns
  | some expected =>
    if (ns.file? file.branchId file.objectId).isSome then .ok ns
    else match ns.version? expected with
      | none => .error .corrupt
      | some version =>
        if version.volumeId = file.volumeId ∧ version.objectId = file.objectId then
          .ok { ns with files := ns.files ++ [⟨file.branchId, file.objectId, file.volumeId, some expected, 1⟩] }
        else .error .corrupt

/-- `prepare_file`: the branch file row the publication replaces, created when new. -/
def prepareFile : Except PublicationError (Namespace × Nat) :=
  match ns.file? file.branchId file.objectId with
  | some head =>
    if head.volumeId ≠ file.volumeId ∨ head.currentVersionId ≠ file.expectedCurrentVersionId then
      .error .staleHead
    else .ok (ns, head.sequence)
  | none =>
    if file.expectedCurrentVersionId.isSome then .error .staleHead
    else .ok ({ ns with files := ns.files ++ [⟨file.branchId, file.objectId, file.volumeId, none, 0⟩] }, 0)

/-- `persist_version`, after the content tables have admitted the manifest. -/
def persistVersion (content : Except PublicationError Unit) : Except PublicationError Namespace := do
  content
  if (ns.version? file.versionId).isSome then .error .operationConflict
  else return { ns with versions := ns.versions ++
    [⟨file.versionId, file.volumeId, file.objectId, file.logicalLength, file.createdAt⟩] }

/-- `record_supersession`: the superseded version is of the file and not younger. -/
def recordSupersession : Except PublicationError Unit :=
  match file.expectedCurrentVersionId with
  | none => .ok ()
  | some previous =>
    match ns.version? previous with
    | none => .error .sqlite
    | some stored =>
      if stored.volumeId ≠ file.volumeId ∨ stored.objectId ≠ file.objectId ∨
          file.createdAt < stored.createdAt then .error .corrupt
      else .ok ()

variable (previousSequence : Nat)

def fileSelected (head : BranchFileHead) : Bool :=
  head.branchId == file.branchId && head.objectId == file.objectId &&
    head.sequence == previousSequence

def advanceFileHead : Except PublicationError Namespace :=
  if u64Max < previousSequence + 1 ∨ i64Max < previousSequence + 1 then .error .invalidInput
  else if ns.files.any (fileSelected file previousSequence) then
    .ok { ns with
      files := amend (fileSelected file previousSequence)
        (fun head => { head with currentVersionId := some file.versionId, sequence := previousSequence + 1 })
        ns.files }
  else .error .staleHead

/-- The namespace part of `publish_inner`: everything from the base to the new head. -/
def publishFile
    (content : Except PublicationError Unit) : Except PublicationError Namespace := do
  let base ← ns.loadBase publication.file.branchId publication.file.volumeId
    publication.rootObjectId publication.rootObjectRevisionId publication.expectedNamespaceCommitId
    publication.path
  let old ← leafEntry base.directories publication.path
  ns.validateOldEntry publication old
  let ns ← ns.materialize publication.file
  let entry ← liftDirectory (DirectoryEntry.build publication.path.leafName publication.file.objectId
    publication.fileObjectRevisionId .file publication.entryGeneration)
  let directories ← mutateNamespacePath base.directories publication.path.path entry
    publication.expectedFileObjectRevisionId
  let (ns, sequence) ← ns.prepareFile publication.file
  let ns ← ns.persistVersion publication.file content
  ns.recordSupersession publication.file
  let ns ← ns.advanceFileHead publication.file sequence
  let ns ← ns.persistObjectRevision ⟨publication.fileObjectRevisionId, publication.file.volumeId,
    publication.file.objectId, publication.expectedFileObjectRevisionId,
    .file publication.file.versionId⟩
  let ns ← ns.persistDirectories publication.file.volumeId directories
  let ns ← ns.persistCommit ⟨publication.namespaceCommitId, publication.file.volumeId,
    publication.rootObjectId, publication.rootObjectRevisionId, publication.expectedNamespaceCommitId⟩
  persistBranchIntent .file publication.expectedFileObjectRevisionId publication.path
  ns.advanceNamespaceHead publication.file.branchId publication.file.volumeId
    publication.expectedNamespaceCommitId publication.namespaceCommitId base.headSequence

end Namespace

/-! ## Directory publications -/

structure DirectoryPublication where
  operationId : OperationId
  branchId : BranchId
  volumeId : VolumeId
  rootObjectId : ObjectId
  expectedNamespaceCommitId : Option NamespaceCommitId
  directoryObjectId : ObjectId
  (directoryObjectRevisionId rootObjectRevisionId : ObjectRevisionId)
  namespaceCommitId : NamespaceCommitId
  path : NamespacePublicationPath
  entryGeneration : Nat
  createdBy : PrincipalId
  createdAt : UnixMicros
deriving DecidableEq

namespace DirectoryPublication

variable (publication : DirectoryPublication)

def objects : List ObjectId :=
  publication.rootObjectId :: publication.directoryObjectId ::
    publication.path.ancestors.map DirectoryRevisionTransition.objectId

def newRevisions : List ObjectRevisionId :=
  publication.rootObjectRevisionId :: publication.directoryObjectRevisionId ::
    publication.path.ancestors.map DirectoryRevisionTransition.newRevisionId

def priorRevisions : List ObjectRevisionId :=
  publication.path.ancestors.map DirectoryRevisionTransition.expectedRevisionId

def validate : Except PublicationError Unit :=
  if publication.entryGeneration = 0 ∨ ¬ publication.objects.Nodup ∨
      ¬ publication.newRevisions.Nodup ∨
      publication.newRevisions.any (publication.priorRevisions.contains ·) then
    .error .invalidInput
  else .ok ()

end DirectoryPublication

namespace Namespace

def createDirectory (ns : Namespace) (publication : DirectoryPublication) :
    Except PublicationError Namespace := do
  let base ← ns.loadBase publication.branchId publication.volumeId publication.rootObjectId
    publication.rootObjectRevisionId publication.expectedNamespaceCommitId publication.path
  match ← leafEntry base.directories publication.path with
  | some _ => .error .staleHead
  | none =>
    let entry ← liftDirectory (DirectoryEntry.build publication.path.leafName
      publication.directoryObjectId publication.directoryObjectRevisionId .directory
      publication.entryGeneration)
    let directories ← mutateNamespacePath base.directories publication.path.path entry none
    let ns ← ns.persistObjectRevision ⟨publication.directoryObjectRevisionId, publication.volumeId,
      publication.directoryObjectId, none, .directory DirectoryTrie.empty⟩
    let ns ← ns.persistDirectories publication.volumeId directories
    let ns ← ns.persistCommit ⟨publication.namespaceCommitId, publication.volumeId,
      publication.rootObjectId, publication.rootObjectRevisionId,
      publication.expectedNamespaceCommitId⟩
    persistBranchIntent .directory none publication.path
    ns.advanceNamespaceHead publication.branchId publication.volumeId
      publication.expectedNamespaceCommitId publication.namespaceCommitId base.headSequence

end Namespace

/-! ## Rename -/

abbrev HandleId := Nat

structure NamespaceRenamePublication where
  operationId : OperationId
  branchId : BranchId
  volumeId : VolumeId
  rootObjectId : ObjectId
  expectedNamespaceCommitId : NamespaceCommitId
  expectedObjectId : ObjectId
  expectedObjectRevisionId : ObjectRevisionId
  expectedSourceEntryGeneration : Nat
  source : NamespacePublicationPath
  intermediateRootObjectRevisionId : ObjectRevisionId
  target : NamespacePublicationPath
  targetEntryGeneration : Nat
  rootObjectRevisionId : ObjectRevisionId
  namespaceCommitId : NamespaceCommitId
  requestingHandleId : Option HandleId
  createdBy : PrincipalId
  createdAt : UnixMicros
deriving DecidableEq

namespace NamespaceRenamePublication

variable (publication : NamespaceRenamePublication)

/-- The revisions the rename creates, for both roots and both chains. -/
def newRevisions : List ObjectRevisionId :=
  publication.intermediateRootObjectRevisionId :: publication.rootObjectRevisionId ::
    (publication.source.ancestors ++ publication.target.ancestors).map
      DirectoryRevisionTransition.newRevisionId

def validateShape : Except PublicationError Unit :=
  if publication.source.path = publication.target.path ∨
      publication.expectedSourceEntryGeneration = 0 ∨ publication.targetEntryGeneration = 0 ∨
      publication.rootObjectId = publication.expectedObjectId ∨
      publication.intermediateRootObjectRevisionId = publication.expectedObjectRevisionId ∨
      publication.rootObjectRevisionId = publication.expectedObjectRevisionId ∨
      ¬ publication.newRevisions.Nodup then .error .invalidInput
  else .ok ()

/-- `reject_cycle`: a directory does not move below itself. -/
def rejectCycle (content : ObjectContent) : Except PublicationError Unit :=
  match content with
  | .file _ => .ok ()
  | .directory _ =>
    let source := publication.source.path.canonical
    let target := publication.target.path.canonical
    if source.length < target.length ∧ target.take source.length = source then .error .invalidInput
    else .ok ()

end NamespaceRenamePublication

def ObjectContent.kind : ObjectContent → DirectoryEntryKind
  | .directory _ => .directory
  | .file _ => .file

namespace Namespace

variable (ns : Namespace) (publication : NamespaceRenamePublication)

/-- `validate_source`: the source entry is the expected object at its expected revision. -/
def validateSource (directories : List LoadedDirectory) : Except HandleError ObjectRevision := do
  match ← liftNamespace (leafEntry directories publication.source) with
  | none => .error .notFound
  | some entry =>
    if entry.objectId ≠ publication.expectedObjectId ∨
        entry.objectRevisionId ≠ publication.expectedObjectRevisionId ∨
        entry.generation ≠ publication.expectedSourceEntryGeneration then
      .error (.namespace .staleHead)
    else match ns.revision? publication.expectedObjectRevisionId with
      | none => .error (.namespace .sqlite)
      | some revision =>
        if revision.volumeId ≠ publication.volumeId ∨
            revision.objectId ≠ publication.expectedObjectId ∨
            revision.content.kind ≠ entry.kind then .error (.namespace .corrupt)
        else match revision.content with
          | .directory _ => return revision
          | .file version =>
            match ns.file? publication.branchId publication.expectedObjectId with
            | none => .error (.namespace .corrupt)
            | some head =>
              if head.volumeId ≠ publication.volumeId ∨ head.currentVersionId ≠ some version then
                .error (.namespace .staleHead)
              else return revision

/-- The first half of `persist_namespace_move`: the source is what the rename expects. -/
def renameSource
    (currentRoot : ObjectRevisionId) : Except HandleError (List LoadedDirectory × ObjectRevision) := do
  let directories ← liftNamespace (ns.loadPathDirectories publication.volumeId
    publication.rootObjectId currentRoot publication.intermediateRootObjectRevisionId
    publication.source.path publication.source.ancestors)
  let revision ← ns.validateSource publication directories
  liftNamespace (publication.rejectCycle revision.content)
  return (directories, revision)

/-- The second half of `persist_namespace_move`: remove at the source, insert at the target. -/
def renameMove
    (source : List LoadedDirectory) (revision : ObjectRevision) : Except HandleError Namespace := do
  let removed ← liftNamespace (removeNamespacePath source publication.source.path
    publication.expectedObjectRevisionId)
  let ns ← liftNamespace (ns.persistDirectories publication.volumeId removed)
  let target ← liftNamespace (ns.loadPathDirectories publication.volumeId publication.rootObjectId
    publication.intermediateRootObjectRevisionId publication.rootObjectRevisionId
    publication.target.path publication.target.ancestors)
  match ← liftNamespace (leafEntry target publication.target) with
  | some _ => .error .alreadyExists
  | none =>
    let entry ← liftNamespace (liftDirectory (DirectoryEntry.build publication.target.leafName
      publication.expectedObjectId publication.expectedObjectRevisionId revision.content.kind
      publication.targetEntryGeneration))
    let inserted ← liftNamespace (mutateNamespacePath target publication.target.path entry none)
    liftNamespace (ns.persistDirectories publication.volumeId inserted)

/-- The commit of a rename, with the table constraints of both of its paths. -/
def renameCommit (revision : ObjectRevision) (headSequence : Nat) : Except HandleError Namespace := do
  let ns ← liftNamespace (ns.persistCommit ⟨publication.namespaceCommitId, publication.volumeId,
    publication.rootObjectId, publication.rootObjectRevisionId,
    some publication.expectedNamespaceCommitId⟩)
  liftNamespace (persistBranchIntent revision.content.kind revision.priorRevisionId publication.target)
  liftNamespace (persistBranchIntent .file none publication.source)
  liftNamespace (ns.advanceNamespaceHead publication.branchId publication.volumeId
    (some publication.expectedNamespaceCommitId) publication.namespaceCommitId headSequence)

end Namespace

/-! ## Unlink -/

inductive NamespaceUnlinkAuthority where
  | direct (requestingHandleId : Option HandleId)
  | deleteOnClose (requestingHandleId : HandleId) (requestedAt readyAt : UnixMicros)
deriving DecidableEq

structure NamespaceUnlinkPublication where
  operationId : OperationId
  branchId : BranchId
  volumeId : VolumeId
  rootObjectId : ObjectId
  expectedNamespaceCommitId : NamespaceCommitId
  expectedObjectId : ObjectId
  expectedObjectRevisionId : ObjectRevisionId
  expectedKind : DirectoryEntryKind
  expectedFileVersionId : Option FileVersionId
  expectedEntryGeneration : Nat
  path : NamespacePublicationPath
  rootObjectRevisionId : ObjectRevisionId
  namespaceCommitId : NamespaceCommitId
  authority : NamespaceUnlinkAuthority
  createdBy : PrincipalId
  createdAt : UnixMicros
deriving DecidableEq

namespace NamespaceUnlinkPublication

variable (publication : NamespaceUnlinkPublication)

def kindMatchesVersion : Bool :=
  match publication.expectedKind with
  | .directory => publication.expectedFileVersionId.isNone
  | .file => publication.expectedFileVersionId.isSome

/-- Delete-on-close removes files, and not before they were asked to go. -/
def authorityIsValid : Bool :=
  match publication.authority with
  | .direct _ => true
  | .deleteOnClose _ requestedAt readyAt =>
    publication.expectedKind == .file && (requestedAt ≤ readyAt)

def validateShape : Except PublicationError Unit :=
  if publication.expectedEntryGeneration = 0 ∨
      publication.rootObjectId = publication.expectedObjectId ∨
      publication.rootObjectRevisionId = publication.expectedObjectRevisionId ∨
      publication.kindMatchesVersion = false ∨ publication.authorityIsValid = false ∨
      ¬ (publication.rootObjectRevisionId ::
          publication.path.ancestors.map DirectoryRevisionTransition.newRevisionId).Nodup then
    .error .invalidInput
  else .ok ()

end NamespaceUnlinkPublication

namespace Namespace

/-- `validate_target`: the entry is the expected object, and a directory is empty. -/
def validateTarget (ns : Namespace) (publication : NamespaceUnlinkPublication)
    (directories : List LoadedDirectory) : Except HandleError ObjectRevision := do
  match ← liftNamespace (leafEntry directories publication.path) with
  | none => .error .notFound
  | some entry =>
    if entry.objectId ≠ publication.expectedObjectId ∨
        entry.objectRevisionId ≠ publication.expectedObjectRevisionId ∨
        entry.kind ≠ publication.expectedKind ∨
        entry.generation ≠ publication.expectedEntryGeneration then .error (.namespace .staleHead)
    else match ns.revision? publication.expectedObjectRevisionId with
      | none => .error (.namespace .sqlite)
      | some revision =>
        if revision.volumeId ≠ publication.volumeId ∨
            revision.objectId ≠ publication.expectedObjectId ∨
            revision.content.kind ≠ publication.expectedKind then .error (.namespace .corrupt)
        else match revision.content with
          | .directory root =>
            if root ≠ DirectoryTrie.empty then .error .directoryNotEmpty else return revision
          | .file version =>
            if some version ≠ publication.expectedFileVersionId then .error (.namespace .staleHead)
            else match ns.file? publication.branchId publication.expectedObjectId with
              | none => .error (.namespace .corrupt)
              | some head =>
                if head.volumeId = publication.volumeId ∧ head.currentVersionId = some version then
                  return revision
                else .error (.namespace .staleHead)

def unlinkCommit (ns : Namespace) (publication : NamespaceUnlinkPublication)
    (directories : List LoadedDirectory) (revision : ObjectRevision) (headSequence : Nat) :
    Except HandleError Namespace := do
  let removed ← liftNamespace (removeNamespacePath directories publication.path.path
    publication.expectedObjectRevisionId)
  let ns ← liftNamespace (ns.persistDirectories publication.volumeId removed)
  let ns ← liftNamespace (ns.persistCommit ⟨publication.namespaceCommitId, publication.volumeId,
    publication.rootObjectId, publication.rootObjectRevisionId,
    some publication.expectedNamespaceCommitId⟩)
  liftNamespace (persistBranchIntent publication.expectedKind revision.priorRevisionId publication.path)
  liftNamespace (ns.advanceNamespaceHead publication.branchId publication.volumeId
    (some publication.expectedNamespaceCommitId) publication.namespaceCommitId headSequence)

end Namespace

end MeshSpan
