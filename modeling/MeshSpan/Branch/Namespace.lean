import MeshSpan.Primitives
import MeshSpan.Rows
import MeshSpan.Reconciliation.Plan

/- The branch store's namespace: immutable revisions, commits and heads.

   A volume's tree is a persistent structure. Every directory and file has
   immutable revisions, a directory revision maps canonical names to entries, a
   namespace commit names a root revision and its parent commit, and a branch
   head names a commit. A publication copies the directories on one path, commits
   and moves the head.

   Correspondence (Rust ↔ Lean)
     directory.rs        DirectoryTrie (a content-addressed hash trie) ↔ `DirectoryTrie`,
                         the entries it maps; `lookup`, `upsert`, `remove`
     schema/branch/001, 003   the row types
     handles.rs          resolve_file_path, resolve_actual_path, validate_open_lineage

   The three path walks of the code differ only in what they answer where the walk
   stops, so they are readings of one `walk`. Digests that the code recomputes from a
   row's own columns are not stored. -/

namespace MeshSpan

open Rows

abbrev FileVersionId := Nat

abbrev PrincipalId := Nat

/-- Authoritative instant, in microseconds. -/
abbrev UnixMicros := Int

/-- A stored name: as displayed, and as looked up. -/
structure NamespaceComponent where
  (display canonical : String)
deriving DecidableEq, Repr

abbrev NamespacePath := List NamespaceComponent

def NamespacePath.canonical (path : NamespacePath) : List String :=
  path.map NamespaceComponent.canonical

inductive DirectoryEntryKind where
  | directory
  | file
deriving DecidableEq, Repr

inductive DirectoryTrieError where
  | invalidEntry
  | staleEntry
  | nameConflict
  | corrupt
deriving DecidableEq, Repr

inductive PublicationError where
  | invalidInput
  | staleHead
  | operationConflict
  | cleanupFenced
  | corrupt
  | directory (cause : DirectoryTrieError)
  | sqlite
deriving Repr

inductive HandleError where
  | invalidInput
  | notFound
  | alreadyExists
  | creationRequired
  | sharingViolation
  | deletePending
  | staleHandle
  | gatewayMismatch
  | lockConflict
  | flushInProgress
  | directoryNotEmpty
  | staleLock
  | operationConflict
  | corrupt
  | namespace (cause : PublicationError)
  | sqlite
deriving Repr

def liftNamespace {α : Type} : Except PublicationError α → Except HandleError α
  | .ok value => .ok value
  | .error cause => .error (.namespace cause)

theorem liftNamespace_eq_ok {α : Type} {x : Except PublicationError α} {value : α} :
    liftNamespace x = .ok value ↔ x = .ok value := by
  cases x <;> simp [liftNamespace]

def liftDirectory {α : Type} : Except DirectoryTrieError α → Except PublicationError α
  | .ok value => .ok value
  | .error cause => .error (.directory cause)

/-! ## Directories -/

/-- One name of a directory, with a positive name-reuse generation. -/
structure DirectoryEntry where
  name : NamespaceComponent
  objectId : ObjectId
  objectRevisionId : ObjectRevisionId
  kind : DirectoryEntryKind
  generation : Nat
  generation_pos : 0 < generation
deriving DecidableEq

/-- `DirectoryEntry::new`. -/
def DirectoryEntry.build (name : NamespaceComponent) (objectId : ObjectId)
    (objectRevisionId : ObjectRevisionId) (kind : DirectoryEntryKind) (generation : Nat) :
    Except DirectoryTrieError DirectoryEntry :=
  if positive : 0 < generation then
    .ok ⟨name, objectId, objectRevisionId, kind, generation, positive⟩
  else .error .invalidEntry

/-- The entries one directory revision maps. -/
structure DirectoryTrie where
  entries : List DirectoryEntry
deriving DecidableEq

namespace DirectoryTrie

def empty : DirectoryTrie := ⟨[]⟩

variable (trie : DirectoryTrie) (name : NamespaceComponent)

def lookup : Option DirectoryEntry :=
  get (·.name.canonical) name.canonical trie.entries

def without : List DirectoryEntry :=
  trie.entries.filter (·.name.canonical != name.canonical)

/-- `validate_replacement`: the base must be the expected revision, and a name keeps its object. -/
def validateReplacement (previous : Option DirectoryEntry) (next : DirectoryEntry)
    (expected : Option ObjectRevisionId) : Except DirectoryTrieError Unit :=
  if previous.map DirectoryEntry.objectRevisionId ≠ expected then .error .staleEntry
  else match previous with
    | some old =>
      if old.objectId ≠ next.objectId ∨ old.kind ≠ next.kind ∨ old.generation ≠ next.generation then
        .error .nameConflict
      else .ok ()
    | none => .ok ()

def upsert (entry : DirectoryEntry) (expected : Option ObjectRevisionId) :
    Except DirectoryTrieError DirectoryTrie := do
  validateReplacement (trie.lookup entry.name) entry expected
  return ⟨trie.without entry.name ++ [entry]⟩

def remove (expected : ObjectRevisionId) : Except DirectoryTrieError DirectoryTrie :=
  match trie.lookup name with
  | none => .error .staleEntry
  | some previous =>
    if previous.objectRevisionId ≠ expected then .error .staleEntry
    else .ok ⟨trie.without name⟩

end DirectoryTrie

/-! ## Rows -/

/-- What an immutable revision selects. -/
inductive ObjectContent where
  | directory (root : DirectoryTrie)
  | file (version : FileVersionId)
deriving DecidableEq

structure ObjectRevision where
  revisionId : ObjectRevisionId
  volumeId : VolumeId
  objectId : ObjectId
  priorRevisionId : Option ObjectRevisionId
  content : ObjectContent

structure FileVersion where
  versionId : FileVersionId
  volumeId : VolumeId
  objectId : ObjectId
  logicalLength : Nat
  createdAt : UnixMicros

structure NamespaceCommit where
  commitId : NamespaceCommitId
  volumeId : VolumeId
  rootObjectId : ObjectId
  rootObjectRevisionId : ObjectRevisionId
  parentId : Option NamespaceCommitId

structure BranchNamespaceHead where
  branchId : BranchId
  volumeId : VolumeId
  namespaceCommitId : NamespaceCommitId
  sequence : Nat

/-- `branch_files`: the current version of one file on one branch. -/
structure BranchFileHead where
  branchId : BranchId
  objectId : ObjectId
  volumeId : VolumeId
  currentVersionId : Option FileVersionId
  sequence : Nat

structure Namespace where
  revisions : List ObjectRevision
  versions : List FileVersion
  commits : List NamespaceCommit
  heads : List BranchNamespaceHead
  files : List BranchFileHead

namespace Namespace

def empty : Namespace := ⟨[], [], [], [], []⟩

variable (ns : Namespace)

def revision? (id : ObjectRevisionId) : Option ObjectRevision :=
  get ObjectRevision.revisionId id ns.revisions

def version? (id : FileVersionId) : Option FileVersion :=
  get FileVersion.versionId id ns.versions

def commit? (id : NamespaceCommitId) : Option NamespaceCommit :=
  get NamespaceCommit.commitId id ns.commits

variable (branchId : BranchId)

def head? (volumeId : VolumeId) : Option BranchNamespaceHead :=
  get (fun head : BranchNamespaceHead => (head.branchId, head.volumeId)) (branchId, volumeId) ns.heads

def file? (objectId : ObjectId) : Option BranchFileHead :=
  get (fun file : BranchFileHead => (file.branchId, file.objectId)) (branchId, objectId) ns.files

/-- The head's commit (`branch_namespace_heads JOIN namespace_commits`). -/
def headCommit? (volumeId : VolumeId) : Option NamespaceCommit :=
  (ns.head? branchId volumeId).bind (ns.commit? ·.namespaceCommitId)

/-! ## Walking a path -/

variable (volumeId : VolumeId)

/-- The entries of a directory revision that must be the given directory object. -/
def openDirectory (objectId : ObjectId)
    (revisionId : ObjectRevisionId) : Except HandleError DirectoryTrie :=
  match ns.revision? revisionId with
  | none => .error .sqlite
  | some revision =>
    if revision.volumeId ≠ volumeId ∨ revision.objectId ≠ objectId then .error .corrupt
    else match revision.content with
      | .directory root => .ok root
      | .file _ => .error .corrupt

/-- Where a walk from the root ends. -/
inductive Walk where
  /-- An inner component is absent, or names a file. -/
  | stopped
  /-- Every inner component is a directory; `leaf` is the last component's entry. -/
  | arrived (above : List DirectoryEntry) (leaf : Option DirectoryEntry)

variable (entry : DirectoryEntry)

/-- The walk reached one more directory on its way. -/
def Walk.below : Walk → Walk
  | .stopped => .stopped
  | .arrived above leaf => .arrived (entry :: above) leaf

def walk (ns : Namespace) (volumeId : VolumeId) :
    ObjectId → ObjectRevisionId → NamespacePath → Except HandleError Walk
  | _, _, [] => .ok .stopped
  | objectId, revisionId, [leaf] => do
    let trie ← ns.openDirectory volumeId objectId revisionId
    return .arrived [] (trie.lookup leaf)
  | objectId, revisionId, name :: next :: rest => do
    let trie ← ns.openDirectory volumeId objectId revisionId
    match trie.lookup name with
    | none => return .stopped
    | some entry =>
      if entry.kind = .directory then
        Walk.below entry <$> ns.walk volumeId entry.objectId entry.objectRevisionId (next :: rest)
      else return .stopped

/-- `load_revision` of a leaf that must agree with its entry. -/
def leafRevision : Except HandleError ObjectRevision :=
  match ns.revision? entry.objectRevisionId with
  | none => .error .sqlite
  | some revision =>
    if revision.volumeId ≠ volumeId ∨ revision.objectId ≠ entry.objectId then .error .corrupt
    else .ok revision

def leafVersion : Except HandleError FileVersionId := do
  let revision ← ns.leafRevision volumeId entry
  match revision.content with
  | .file version => return version
  | .directory _ => .error .corrupt

structure ResolvedFile where
  namespaceCommit : NamespaceCommitId
  object : ObjectId
  objectRevision : ObjectRevisionId
  version : FileVersionId
  logicalLength : Nat
deriving DecidableEq

/-- `resolve_leaf`: the entry must be a file whose version is the branch's current one. -/
def resolveLeaf (volumeId : VolumeId) (commitId : NamespaceCommitId) (entry : DirectoryEntry) :
    Except HandleError (Option ResolvedFile) := do
  if entry.kind ≠ .file then return none
  let version ← ns.leafVersion volumeId entry
  match ns.file? branchId entry.objectId with
  | none => .error .corrupt
  | some file =>
    if file.volumeId ≠ volumeId ∨ file.currentVersionId ≠ some version then .error .corrupt
    else match ns.version? version with
      | none => .error .corrupt
      | some stored =>
        return some ⟨commitId, entry.objectId, entry.objectRevisionId, version, stored.logicalLength⟩

def resolveFilePath (volumeId : VolumeId)
    (path : NamespacePath) : Except HandleError (Option ResolvedFile) :=
  match ns.headCommit? branchId volumeId with
  | none => .ok none
  | some commit => do
    match ← ns.walk volumeId commit.rootObjectId commit.rootObjectRevisionId path with
    | .arrived _ (some entry) => ns.resolveLeaf branchId volumeId commit.commitId entry
    | _ => return none

/-- `resolve_actual_path`: the display names stored along the path of a resolved file. -/
def resolveActualPath (volumeId : VolumeId)
    (path : NamespacePath) (resolved : ResolvedFile) : Except HandleError NamespacePath :=
  match ns.headCommit? branchId volumeId with
  | none => .error .sqlite
  | some commit => do
    match ← ns.walk volumeId commit.rootObjectId commit.rootObjectRevisionId path with
    | .arrived above (some entry) =>
      if entry.objectId ≠ resolved.object ∨ entry.objectRevisionId ≠ resolved.objectRevision then
        .error .corrupt
      else return above.map DirectoryEntry.name ++ [entry.name]
    | _ => .error .corrupt

/-! ## Commit lineage -/

/-- The commits reachable from one through parents (the recursive `lineage` query). -/
def lineage (ns : Namespace) : Nat → NamespaceCommitId → List NamespaceCommitId
  | 0, commitId => [commitId]
  | steps + 1, commitId =>
    match (ns.commit? commitId).bind NamespaceCommit.parentId with
    | none => [commitId]
    | some parent => commitId :: ns.lineage steps parent

/-- The history of a branch head. A chain of parents visits every commit at most once. -/
def headLineage (volumeId : VolumeId) : List NamespaceCommitId :=
  match ns.head? branchId volumeId with
  | none => []
  | some head => ns.lineage ns.commits.length head.namespaceCommitId

def validateOpenLineage (volumeId : VolumeId)
    (commitId : NamespaceCommitId) (objectId : ObjectId) (revisionId : ObjectRevisionId)
    (versionId : FileVersionId) : Except HandleError Unit :=
  match ns.commit? commitId, ns.revision? revisionId, ns.version? versionId with
  | some commit, some revision, some version =>
    if commitId ∈ ns.headLineage branchId volumeId ∧ commit.volumeId = volumeId ∧
        revision.volumeId = volumeId ∧ revision.objectId = objectId ∧
        revision.content = .file versionId ∧
        version.volumeId = volumeId ∧ version.objectId = objectId then .ok ()
    else .error .corrupt
  | _, _, _ => .error .corrupt

end Namespace

end MeshSpan
