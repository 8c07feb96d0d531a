import MeshSpan.Branch.Publication

/- Publications only add to a namespace.

   No publication changes or removes a revision, a version or a commit, and a
   branch head only moves to a commit whose parent is the head it leaves. So
   whatever a handle pinned when it opened stays in the tables and in the
   history of its branch.

   PROVED
     `Extends`     rows stay, and the lineage of every head grows
     `Consistent`  a file revision's version is of that file, and a head's commit
                   is of the head's volume
     publishFile_extends, createDirectory_extends, rename_extends, unlinkCommit_extends
     validateOpenLineage_mono, resolveFilePath_lineage -/

namespace MeshSpan

open Rows List Option Except

namespace Namespace

/-- The second namespace has every row of the first, and longer histories. -/
structure Extends (ns ns' : Namespace) : Prop where
  revision : ∀ {id row}, ns.revision? id = some row → ns'.revision? id = some row
  version : ∀ {id row}, ns.version? id = some row → ns'.version? id = some row
  commit : ∀ {id row}, ns.commit? id = some row → ns'.commit? id = some row
  lineage : ∀ {branchId volumeId id}, id ∈ ns.headLineage branchId volumeId →
    id ∈ ns'.headLineage branchId volumeId

theorem Extends.trans {a b c : Namespace} (ab : Extends a b) (bc : Extends b c) : Extends a c where
  revision h := bc.revision (ab.revision h)
  version h := bc.version (ab.version h)
  commit h := bc.commit (ab.commit h)
  lineage h := bc.lineage (ab.lineage h)

/-- What the tables say about one file or head agrees between them. -/
structure Consistent (ns : Namespace) : Prop where
  versions : ∀ {id row version}, ns.revision? id = some row → row.content = .file version →
    ∃ stored, ns.version? version = some stored ∧ stored.volumeId = row.volumeId ∧
      stored.objectId = row.objectId
  heads : ∀ {branchId volumeId head}, ns.head? branchId volumeId = some head →
    ∃ commit, ns.commit? head.namespaceCommitId = some commit ∧ commit.volumeId = volumeId

theorem consistent_empty : Consistent empty where
  versions found := by cases found
  heads found := by cases found

/-! ## Lineage -/

theorem mem_lineage_self (ns : Namespace) (steps : Nat) (id : NamespaceCommitId) :
    id ∈ ns.lineage steps id := by
  cases steps with
  | zero => exact mem_singleton.mpr rfl
  | succ steps =>
    unfold lineage
    split
    · exact mem_singleton.mpr rfl
    · exact mem_cons_self

variable {ns ns' mid moved : Namespace} {volumeId : VolumeId}
  {results : List DirectoryRevisionResult} {rows : List ObjectRevision}
  {rootObjectId objectId : ObjectId} {content : Except PublicationError Unit}
  {publication : NamespaceRenamePublication} {source : List LoadedDirectory}
  {revisionId : ObjectRevisionId} {versionId : FileVersionId} {resolved : ResolvedFile}

theorem lineage_mono (keeps : ∀ {id row}, ns.commit? id = some row → ns'.commit? id = some row) :
    ∀ {steps steps' : Nat} {start id : NamespaceCommitId}, steps ≤ steps' →
      id ∈ ns.lineage steps start → id ∈ ns'.lineage steps' start
  | 0, _, start, id, _, mem => by
    have here : id = start := mem_singleton.mp mem
    exact here ▸ ns'.mem_lineage_self _ _
  | steps + 1, 0, _, _, le, _ => absurd le (by omega)
  | steps + 1, steps' + 1, start, id, le, mem => by
    unfold lineage at mem
    split at mem
    · have here : id = start := mem_singleton.mp mem
      exact here ▸ ns'.mem_lineage_self _ _
    · rename_i parent found
      obtain ⟨row, isRow, isParent⟩ := bind_eq_some_iff.mp found
      have later : (ns'.commit? start).bind NamespaceCommit.parentId = some parent :=
        bind_eq_some_iff.mpr ⟨row, keeps isRow, isParent⟩
      unfold lineage
      rw [later]
      rcases mem_cons.mp mem with here | above
      · exact here ▸ mem_cons_self
      · exact mem_cons_of_mem _ (lineage_mono keeps (Nat.le_of_succ_le_succ le) above)

theorem headLineage_mono (keeps : ∀ {id row}, ns.commit? id = some row → ns'.commit? id = some row)
    (longer : ns.commits.length ≤ ns'.commits.length) (heads : ns'.heads = ns.heads)
    {branchId : BranchId} {id : NamespaceCommitId} (mem : id ∈ ns.headLineage branchId volumeId) :
    id ∈ ns'.headLineage branchId volumeId := by
  unfold headLineage head? at mem ⊢
  rw [heads]
  split at mem
  · cases mem
  · exact lineage_mono keeps longer mem

variable {ns : Namespace} {branchId : BranchId} {volumeId : VolumeId} {head : BranchNamespaceHead}

theorem head_mem_lineage (found : ns.head? branchId volumeId = some head) :
    head.namespaceCommitId ∈ ns.headLineage branchId volumeId := by
  unfold headLineage
  rw [found]
  exact ns.mem_lineage_self _ _

/-! ## Insertions -/

variable {ns' : Namespace}

theorem extends_of_grown (revisions : ns.revisions <+: ns'.revisions)
    (versions : ns.versions <+: ns'.versions) (commits : ns.commits <+: ns'.commits)
    (heads : ns'.heads = ns.heads) : Extends ns ns' where
  revision := get_of_grown revisions
  version := get_of_grown versions
  commit := get_of_grown commits
  lineage := headLineage_mono (get_of_grown commits) commits.length_le heads

theorem persistObjectRevision_ok {row : ObjectRevision} (h : ns.persistObjectRevision row = .ok ns') :
    ns.revision? row.revisionId = none ∧ ns' = { ns with revisions := ns.revisions ++ [row] } := by
  obtain ⟨absent, h⟩ := guard_ok.mp h
  exact ⟨by simpa using absent, (ok.inj h).symm⟩

def resultRow (volumeId : VolumeId) (result : DirectoryRevisionResult) : ObjectRevision :=
  ⟨result.newRevisionId, volumeId, result.objectId, result.priorRevisionId, .directory result.root⟩

theorem persistDirectories_ok :
    ∀ {ns ns' : Namespace}, persistDirectories volumeId ns results = .ok ns' →
      ns' = { ns with revisions := ns.revisions ++ results.map (resultRow volumeId) } := by
  induction results with
  | nil =>
    intro ns ns' h
    have same : ns = ns' := ok.inj h
    simp [← same]
  | cons result results ih =>
    intro ns ns' h
    obtain ⟨next, stored, rest⟩ := bind_eq_ok.mp h
    obtain ⟨-, rfl⟩ := persistObjectRevision_ok stored
    rw [ih rest, map_cons, append_assoc, singleton_append]
    rfl

variable {row : NamespaceCommit}

theorem persistCommit_ok (h : ns.persistCommit row = .ok ns') :
    ns.commit? row.commitId = none ∧ ns' = { ns with commits := ns.commits ++ [row] } := by
  obtain ⟨absent, h⟩ := guard_ok.mp h
  exact ⟨by simpa using absent, (ok.inj h).symm⟩

variable {expected : Option NamespaceCommitId} {commitId : NamespaceCommitId} {sequence : Nat}

section

variable (h : ns.advanceNamespaceHead branchId volumeId expected commitId sequence = .ok ns')

include h

theorem advanceNamespaceHead_ok : ns' = { ns with heads := ns'.heads } := by
  obtain ⟨-, h⟩ := guard_ok.mp h
  split at h
  · obtain ⟨-, h⟩ := admit_ok.mp h
    rw [← ok.inj h]
  · obtain ⟨-, h⟩ := guard_ok.mp h
    rw [← ok.inj h]

/-- After a head moves, the head of its volume is the new commit and every other head is as it
was. The head it leaves is the one that was expected. -/
theorem head_advanceNamespaceHead
    (left : ns.head? branchId volumeId = expected.map (⟨branchId, volumeId, ·, sequence⟩))
    (b : BranchId) (v : VolumeId) : ns'.head? b v = if b = branchId ∧ v = volumeId then
        some ⟨branchId, volumeId, commitId, sequence + 1⟩ else ns.head? b v := by
  unfold advanceNamespaceHead at h
  split at h
  · cases h
  split at h
  · rename_i expectedId
    split at h
    · rw [← ok.inj h]
      unfold head? at left ⊢
      show get _ (b, v) (amend _ _ ns.heads) = _
      rw [get_amend (by intro row; rfl)]
      by_cases here : b = branchId ∧ v = volumeId
      · obtain ⟨rfl, rfl⟩ := here
        rw [left]
        simp [headSelected]
      · rw [if_neg here]
        cases found : get (fun head : BranchNamespaceHead => (head.branchId, head.volumeId)) (b, v)
            ns.heads with
        | none => rfl
        | some other =>
          obtain ⟨-, isKey⟩ := get_mem found
          have unselected : headSelected branchId volumeId expectedId sequence other = false := by
            unfold headSelected
            rw [(Prod.mk.inj isKey).1, (Prod.mk.inj isKey).2]
            by_cases sameBranch : b = branchId
            · have otherVolume : v ≠ volumeId := fun same => here ⟨sameBranch, same⟩
              simp [otherVolume]
            · simp [sameBranch]
          rw [map_some, unselected]
          rfl
    · cases h
  · obtain ⟨absent, h⟩ := guard_ok.mp h
    rw [← ok.inj h]
    unfold head? at absent ⊢
    show get _ (b, v) (ns.heads ++ [_]) = _
    rw [get_append]
    by_cases here : b = branchId ∧ v = volumeId
    · obtain ⟨rfl, rfl⟩ := here
      rw [not_isSome_iff_eq_none.mp absent]
      simp
    · have apart : (branchId, volumeId) ≠ (b, v) :=
        fun same => here ⟨(Prod.mk.inj same).1.symm, (Prod.mk.inj same).2.symm⟩
      rw [if_neg here, if_neg apart]
      cases get (fun head : BranchNamespaceHead => (head.branchId, head.volumeId)) (b, v)
        ns.heads <;> rfl

end

/-- A new commit on top of the head it leaves: nothing is lost, and the head keeps its history. -/
theorem commitHead_extends
    (left : ns.head? branchId volumeId = row.parentId.map (⟨branchId, volumeId, ·, sequence⟩))
    (stored : ns.persistCommit row = .ok mid)
    (moved : mid.advanceNamespaceHead branchId volumeId row.parentId row.commitId sequence = .ok ns') :
    Extends ns ns' := by
  obtain ⟨fresh, rfl⟩ := persistCommit_ok stored
  have frame := advanceNamespaceHead_ok moved
  have heads : ∀ b v, ns'.head? b v = if b = branchId ∧ v = volumeId then
      some ⟨branchId, volumeId, row.commitId, sequence + 1⟩ else ns.head? b v := by
    have after := head_advanceNamespaceHead moved left
    exact fun b v => after b v
  have commits : ns'.commits = ns.commits ++ [row] := by rw [frame]
  have keeps : ∀ {id found}, ns.commit? id = some found → ns'.commit? id = some found := by
    intro id found isRow
    exact get_of_grown (commits ▸ prefix_append _ _) isRow
  refine ⟨fun found => ?_, fun found => ?_, keeps, ?_⟩
  · rw [frame]
    exact found
  · rw [frame]
    exact found
  · intro b v id mem
    have longer : ns'.commits.length = ns.commits.length + 1 := by rw [commits]; simp
    unfold headLineage at mem ⊢
    rw [heads b v]
    by_cases here : b = branchId ∧ v = volumeId
    · obtain ⟨rfl, rfl⟩ := here
      rw [if_pos ⟨rfl, rfl⟩]
      rw [left] at mem
      cases parent : row.parentId with
      | none =>
        rw [parent] at mem
        cases mem
      | some expected =>
        rw [parent] at mem
        -- the new head's first step is the head it left
        have first : (ns'.commit? row.commitId).bind NamespaceCommit.parentId = some expected := by
          have isRow : ns'.commit? row.commitId = some row := by
            show get _ _ ns'.commits = _
            rw [commits, get_append, show get _ _ ns.commits = none from fresh]
            simp
          rw [isRow]
          exact parent
        show id ∈ ns'.lineage ns'.commits.length row.commitId
        rw [longer]
        unfold lineage
        rw [first]
        exact mem_cons_of_mem _ (lineage_mono keeps (le_refl _) mem)
    · rw [if_neg here]
      cases found : ns.head? b v with
      | none =>
        rw [found] at mem
        cases mem
      | some head =>
        rw [found] at mem
        show id ∈ ns'.lineage ns'.commits.length head.namespaceCommitId
        exact lineage_mono keeps (show ns.commits.length ≤ ns'.commits.length by omega) mem

theorem commitHead_consistent (consistent : Consistent ns)
    (left : ns.head? branchId volumeId = row.parentId.map (⟨branchId, volumeId, ·, sequence⟩))
    (ofVolume : row.volumeId = volumeId) (stored : ns.persistCommit row = .ok mid)
    (moved : mid.advanceNamespaceHead branchId volumeId row.parentId row.commitId sequence = .ok ns') :
    Consistent ns' := by
  have grown := commitHead_extends left stored moved
  obtain ⟨fresh, rfl⟩ := persistCommit_ok stored
  have frame := advanceNamespaceHead_ok moved
  have heads : ∀ b v, ns'.head? b v = if b = branchId ∧ v = volumeId then
      some ⟨branchId, volumeId, row.commitId, sequence + 1⟩ else ns.head? b v := by
    have after := head_advanceNamespaceHead moved left
    exact fun b v => after b v
  constructor
  · intro id found version isRow isFile
    rw [frame] at isRow ⊢
    exact consistent.versions isRow isFile
  · intro b v head isHead
    rw [heads b v] at isHead
    by_cases here : b = branchId ∧ v = volumeId
    · rw [if_pos here] at isHead
      rw [← some.inj isHead]
      refine ⟨row, ?_, ofVolume.trans here.2.symm⟩
      show get _ _ ns'.commits = _
      rw [frame]
      show get _ _ (ns.commits ++ [row]) = _
      rw [get_append, show get _ _ ns.commits = none from fresh]
      simp
    · rw [if_neg here] at isHead
      obtain ⟨commit, isCommit, volume⟩ := consistent.heads isHead
      exact ⟨commit, grown.commit isCommit, volume⟩

/-- New revisions keep the tables consistent when each new file revision comes with its version. -/
theorem Consistent.with_revisions (consistent : Consistent ns) (heads : ns'.heads = ns.heads)
    (commits : ns'.commits = ns.commits) (versions : ns.versions <+: ns'.versions)
    (revisions : ns'.revisions = ns.revisions ++ rows)
    (matched : ∀ row ∈ rows, ∀ version, row.content = .file version →
      ∃ stored, ns'.version? version = some stored ∧ stored.volumeId = row.volumeId ∧
        stored.objectId = row.objectId) : Consistent ns' := by
  constructor
  · intro id found version isRow isFile
    have isNew : get ObjectRevision.revisionId id ns'.revisions = some found := isRow
    unfold Rows.get at isNew
    rw [revisions, find?_append] at isNew
    cases old : ns.revisions.find? (·.revisionId == id) with
    | some row =>
      rw [old] at isNew
      have same : row = found := some.inj isNew
      obtain ⟨stored, isVersion, agrees⟩ := consistent.versions (same ▸ old) isFile
      exact ⟨stored, get_of_grown versions isVersion, agrees⟩
    | none =>
      rw [old] at isNew
      exact matched found (mem_of_find?_eq_some isNew) version isFile
  · intro b v head isHead
    unfold head? at isHead
    rw [heads] at isHead
    obtain ⟨commit, isCommit, volume⟩ := consistent.heads isHead
    refine ⟨commit, ?_, volume⟩
    unfold commit?
    rw [commits]
    exact isCommit

/-! ## The statements of a publication -/

theorem loadHead_ok {found : Option (BranchNamespaceHead × NamespaceCommit)}
    (h : ns.loadHead branchId volumeId = .ok found) :
    (found = none ∧ ns.head? branchId volumeId = none) ∨
      ∃ head commit, found = some (head, commit) ∧ ns.head? branchId volumeId = some head ∧
        ns.commit? head.namespaceCommitId = some commit ∧ commit.volumeId = volumeId := by
  unfold loadHead at h
  split at h
  · rename_i absent
    exact .inl ⟨(ok.inj h).symm, absent⟩
  · rename_i head isHead
    split at h
    · cases h
    · rename_i commit isCommit
      obtain ⟨ofVolume, h⟩ := admit_ok.mp h
      exact .inr ⟨head, commit, (ok.inj h).symm, isHead, isCommit, ofVolume⟩

theorem head_eq (found : ns.head? branchId volumeId = some head) :
    head = ⟨branchId, volumeId, head.namespaceCommitId, head.sequence⟩ := by
  obtain ⟨-, isKey⟩ := get_mem found
  rw [← (Prod.mk.inj isKey).1, ← (Prod.mk.inj isKey).2]

theorem loadBase_ok {rootRevisionId : ObjectRevisionId} {path : NamespacePublicationPath}
    {base : NamespaceBase}
    (h : ns.loadBase branchId volumeId rootObjectId rootRevisionId expected path = .ok base) :
    ns.head? branchId volumeId = expected.map (⟨branchId, volumeId, ·, base.headSequence⟩) := by
  obtain ⟨found, loaded, rest⟩ := bind_eq_ok.mp h
  rcases loadHead_ok loaded with ⟨rfl, absent⟩ | ⟨head, commit, rfl, isHead, -, -⟩
  · cases expected with
    | none => exact absent
    | some id => cases rest
  · cases expected with
    | none => cases rest
    | some id =>
      obtain ⟨same, rest⟩ := guard_ok.mp rest
      obtain ⟨-, rest⟩ := guard_ok.mp rest
      obtain ⟨-, rest⟩ := guard_ok.mp rest
      obtain ⟨directories, -, made⟩ := bind_eq_ok.mp rest
      have isBase : base = ⟨directories, head.sequence⟩ := (ok.inj made).symm
      rw [isHead, isBase, head_eq isHead, not_not.mp same]
      rfl

variable {commit : NamespaceCommit}

theorem loadExpectedHead_ok {expected : NamespaceCommitId}
    (h : ns.loadExpectedHead branchId volumeId rootObjectId expected = .ok (head, commit)) :
    ns.head? branchId volumeId = some ⟨branchId, volumeId, expected, head.sequence⟩ ∧
      ns.commit? expected = some commit ∧ commit.volumeId = volumeId ∧
      commit.rootObjectId = rootObjectId := by
  obtain ⟨found, loaded, rest⟩ := bind_eq_ok.mp h
  rcases loadHead_ok loaded with ⟨rfl, absent⟩ | ⟨head', commit', rfl, isHead, isCommit, ofVolume⟩
  · cases rest
  obtain ⟨same, rest⟩ := guard_ok.mp rest
  obtain ⟨sameRoot, rest⟩ := guard_ok.mp rest
  have isPair : (head', commit') = (head, commit) := ok.inj rest
  obtain ⟨rfl, rfl⟩ := Prod.mk.inj isPair
  refine ⟨?_, not_not.mp same ▸ isCommit, ofVolume, not_not.mp sameRoot⟩
  rw [isHead, head_eq isHead, not_not.mp same]

variable {file : FilePublication}

theorem materialize_ok (h : ns.materialize file = .ok ns') : ns' = { ns with files := ns'.files } := by
  unfold materialize at h
  split at h
  · rw [← ok.inj h]
  split at h
  · rw [← ok.inj h]
  split at h
  · cases h
  · split at h
    · rw [← ok.inj h]
    · cases h

theorem prepareFile_ok
    (h : ns.prepareFile file = .ok (ns', sequence)) : ns' = { ns with files := ns'.files } := by
  unfold prepareFile at h
  split at h
  · obtain ⟨-, h⟩ := guard_ok.mp h
    rw [← (Prod.mk.inj (ok.inj h)).1]
  · obtain ⟨-, h⟩ := guard_ok.mp h
    rw [← (Prod.mk.inj (ok.inj h)).1]

theorem advanceFileHead_ok
    (h : ns.advanceFileHead file sequence = .ok ns') : ns' = { ns with files := ns'.files } := by
  obtain ⟨-, h⟩ := guard_ok.mp h
  obtain ⟨-, h⟩ := admit_ok.mp h
  rw [← ok.inj h]

def versionRow (file : FilePublication) : FileVersion :=
  ⟨file.versionId, file.volumeId, file.objectId, file.logicalLength, file.createdAt⟩

theorem persistVersion_ok (h : ns.persistVersion file content = .ok ns') :
    ns.version? file.versionId = none ∧ ns' = { ns with versions := ns.versions ++ [versionRow file] } := by
  obtain ⟨-, -, rest⟩ := bind_eq_ok.mp h
  obtain ⟨absent, rest⟩ := guard_ok.mp rest
  exact ⟨by simpa using absent, (ok.inj rest).symm⟩

/-! ## Publications -/

theorem publishFile_extends {publication : RootFilePublication}
    (h : ns.publishFile publication content = .ok ns') :
    Extends ns ns' ∧ (Consistent ns → Consistent ns') := by
  obtain ⟨base, loaded, old, -, -, -, materialized, isMaterialized, h⟩ := bind₄_eq_ok.mp h
  obtain ⟨entry, -, directories, -, ⟨prepared, sequence⟩, isPrepared, h⟩ := bind₃_eq_ok.mp h
  obtain ⟨versioned, isVersioned, -, -, filed, isFiled, revised, isRevised, h⟩ := bind₄_eq_ok.mp h
  obtain ⟨copied, isCopied, committed, isCommitted, -, -, moved⟩ := bind₃_eq_ok.mp h
  have left := loadBase_ok loaded
  -- what the tables are just before the commit
  have e1 := materialize_ok isMaterialized
  have e2 := prepareFile_ok isPrepared
  obtain ⟨fresh, e3⟩ := persistVersion_ok isVersioned
  have e4 := advanceFileHead_ok isFiled
  obtain ⟨-, e5⟩ := persistObjectRevision_ok isRevised
  have e6 := persistDirectories_ok isCopied
  have heads : copied.heads = ns.heads := by rw [e6, e5, e4, e3, e2, e1]
  have commits : copied.commits = ns.commits := by rw [e6, e5, e4, e3, e2, e1]
  have versions : copied.versions = ns.versions ++ [versionRow publication.file] := by
    rw [e6, e5, e4, e3, e2, e1]
  have revisions : copied.revisions = ns.revisions ++
      (⟨publication.fileObjectRevisionId, publication.file.volumeId, publication.file.objectId,
        publication.expectedFileObjectRevisionId, .file publication.file.versionId⟩ ::
        directories.map (resultRow publication.file.volumeId)) := by
    rw [e6, e5, e4, e3, e2, e1, append_assoc]
    rfl
  have grown : Extends ns copied := extends_of_grown (revisions ▸ prefix_append _ _)
    (versions ▸ prefix_append _ _) (commits ▸ prefix_rfl) heads
  have leftCopied : copied.head? publication.file.branchId publication.file.volumeId =
      publication.expectedNamespaceCommitId.map
        (⟨publication.file.branchId, publication.file.volumeId, ·, base.headSequence⟩) := by
    unfold head?
    rw [heads]
    exact left
  refine ⟨grown.trans (commitHead_extends leftCopied isCommitted moved), fun consistent => ?_⟩
  refine commitHead_consistent ?_ leftCopied rfl isCommitted moved
  refine consistent.with_revisions heads commits (versions ▸ prefix_append _ _) revisions ?_
  intro row mem version isFile
  rcases mem_cons.mp mem with rfl | inDirectories
  · have isVersion : publication.file.versionId = version := ObjectContent.file.inj isFile
    refine ⟨versionRow publication.file, ?_, rfl, rfl⟩
    have absent : get FileVersion.versionId version ns.versions = none := by
      rw [← isVersion, ← fresh, e2, e1]
      rfl
    unfold version?
    rw [versions, get_append, absent]
    simp [versionRow, isVersion]
  · obtain ⟨result, -, rfl⟩ := mem_map.mp inDirectories
    cases isFile

theorem commitDirectories_extends {copied committed : Namespace}
    (stored : copied = { ns with revisions := ns.revisions ++ rows })
    (directories : ∀ row ∈ rows, ∃ root, row.content = .directory root)
    (left : ns.head? branchId volumeId = row.parentId.map (⟨branchId, volumeId, ·, sequence⟩))
    (ofVolume : row.volumeId = volumeId) (isCommitted : copied.persistCommit row = .ok committed)
    (moved : committed.advanceNamespaceHead branchId volumeId row.parentId row.commitId sequence =
      .ok ns') : Extends ns ns' ∧ (Consistent ns → Consistent ns') := by
  have leftCopied : copied.head? branchId volumeId =
      row.parentId.map (⟨branchId, volumeId, ·, sequence⟩) := by
    rw [stored]
    exact left
  have grown : Extends ns copied := by
    rw [stored]
    exact extends_of_grown (prefix_append _ _) prefix_rfl prefix_rfl rfl
  refine ⟨grown.trans (commitHead_extends leftCopied isCommitted moved), fun consistent => ?_⟩
  refine commitHead_consistent ?_ leftCopied ofVolume isCommitted moved
  rw [stored]
  refine consistent.with_revisions rfl rfl prefix_rfl rfl ?_
  intro new mem version isFile
  obtain ⟨root, isDirectory⟩ := directories new mem
  rw [isDirectory] at isFile
  cases isFile

theorem resultRow_directory :
    ∀ row ∈ results.map (resultRow volumeId), ∃ root, row.content = .directory root := by
  intro row mem
  obtain ⟨result, -, rfl⟩ := mem_map.mp mem
  exact ⟨result.root, rfl⟩

theorem createDirectory_extends {publication : DirectoryPublication}
    (h : ns.createDirectory publication = .ok ns') :
    Extends ns ns' ∧ (Consistent ns → Consistent ns') := by
  obtain ⟨base, loaded, old, -, h⟩ := bind₂_eq_ok.mp h
  cases old with
  | some _ => cases h
  | none =>
    obtain ⟨entry, -, directories, -, revised, isRevised, h⟩ := bind₃_eq_ok.mp h
    obtain ⟨copied, isCopied, committed, isCommitted, -, -, moved⟩ := bind₃_eq_ok.mp h
    obtain ⟨-, rfl⟩ := persistObjectRevision_ok isRevised
    have stored := persistDirectories_ok isCopied
    rw [append_assoc, singleton_append] at stored
    refine commitDirectories_extends stored ?_ (loadBase_ok loaded) rfl isCommitted moved
    exact forall_mem_cons.mpr ⟨⟨DirectoryTrie.empty, rfl⟩, resultRow_directory⟩

variable {revision : ObjectRevision}

theorem renameMove_ok (h : ns.renameMove publication source revision = .ok moved) :
    ∃ results : List DirectoryRevisionResult, moved =
      { ns with revisions := ns.revisions ++ results.map (resultRow publication.volumeId) } := by
  obtain ⟨removed, -, copied, isCopied, target, -, old, -, h⟩ := bind₄_eq_ok.mp h
  cases old with
  | some _ => cases h
  | none =>
    obtain ⟨entry, -, inserted, -, isMoved⟩ := bind₂_eq_ok.mp h
    refine ⟨removed ++ inserted, ?_⟩
    rw [persistDirectories_ok (liftNamespace_eq_ok.mp isMoved),
      persistDirectories_ok (liftNamespace_eq_ok.mp isCopied), map_append, append_assoc]

theorem rename_extends
    (loaded : ns.loadExpectedHead publication.branchId publication.volumeId publication.rootObjectId
      publication.expectedNamespaceCommitId = .ok (head, commit))
    (isMoved : ns.renameMove publication source revision = .ok moved)
    (h : moved.renameCommit publication revision head.sequence = .ok ns') :
    Extends ns ns' ∧ (Consistent ns → Consistent ns') := by
  obtain ⟨results, stored⟩ := renameMove_ok isMoved
  obtain ⟨committed, isCommitted, -, -, -, -, advanced⟩ := bind₃_eq_ok.mp h
  exact commitDirectories_extends stored resultRow_directory (loadExpectedHead_ok loaded).1 rfl
    (liftNamespace_eq_ok.mp isCommitted) (liftNamespace_eq_ok.mp advanced)

theorem unlinkCommit_extends {publication : NamespaceUnlinkPublication} {directories : List LoadedDirectory}
    (loaded : ns.loadExpectedHead publication.branchId publication.volumeId publication.rootObjectId
      publication.expectedNamespaceCommitId = .ok (head, commit))
    (h : ns.unlinkCommit publication directories revision head.sequence = .ok ns') :
    Extends ns ns' ∧ (Consistent ns → Consistent ns') := by
  obtain ⟨removed, -, copied, isCopied, committed, isCommitted, -, -, advanced⟩ := bind₄_eq_ok.mp h
  exact commitDirectories_extends (persistDirectories_ok (liftNamespace_eq_ok.mp isCopied))
    resultRow_directory (loadExpectedHead_ok loaded).1 rfl (liftNamespace_eq_ok.mp isCommitted)
    (liftNamespace_eq_ok.mp advanced)

/-! ## What a handle pins -/

theorem validateOpenLineage_eq_ok :
    ns.validateOpenLineage branchId volumeId commitId objectId revisionId versionId = .ok () ↔
      ∃ commit revision version, ns.commit? commitId = some commit ∧
        ns.revision? revisionId = some revision ∧ ns.version? versionId = some version ∧
        commitId ∈ ns.headLineage branchId volumeId ∧ commit.volumeId = volumeId ∧
        revision.volumeId = volumeId ∧ revision.objectId = objectId ∧
        revision.content = .file versionId ∧
        version.volumeId = volumeId ∧ version.objectId = objectId := by
  unfold validateOpenLineage
  cases ns.commit? commitId <;> cases ns.revision? revisionId <;> cases ns.version? versionId <;>
    simp

/-- What a handle pinned stays valid in every later namespace. -/
theorem validateOpenLineage_mono (grown : Extends ns ns')
    (h : ns.validateOpenLineage branchId volumeId commitId objectId revisionId versionId = .ok ()) :
    ns'.validateOpenLineage branchId volumeId commitId objectId revisionId versionId = .ok () := by
  obtain ⟨commit, revision, version, isCommit, isRevision, isVersion, reached, rest⟩ :=
    validateOpenLineage_eq_ok.mp h
  exact validateOpenLineage_eq_ok.mpr ⟨commit, revision, version, grown.commit isCommit,
    grown.revision isRevision, grown.version isVersion, grown.lineage reached, rest⟩

variable {entry : DirectoryEntry}

theorem leafRevision_ok (h : ns.leafRevision volumeId entry = .ok revision) :
    ns.revision? entry.objectRevisionId = some revision ∧ revision.volumeId = volumeId ∧
      revision.objectId = entry.objectId := by
  unfold leafRevision at h
  split at h
  · cases h
  rename_i found isRow
  obtain ⟨agrees, h⟩ := guard_ok.mp h
  cases h
  push Not at agrees
  exact ⟨isRow, agrees⟩

theorem leafVersion_ok {version : FileVersionId} (h : ns.leafVersion volumeId entry = .ok version) :
    ∃ revision, ns.revision? entry.objectRevisionId = some revision ∧ revision.volumeId = volumeId ∧
      revision.objectId = entry.objectId ∧ revision.content = .file version := by
  obtain ⟨revision, loaded, h⟩ := bind_eq_ok.mp h
  obtain ⟨isRow, ofVolume, ofObject⟩ := leafRevision_ok loaded
  split at h
  · rename_i found isFile
    cases h
    exact ⟨revision, isRow, ofVolume, ofObject, isFile⟩
  · cases h

theorem resolveLeaf_ok (h : ns.resolveLeaf branchId volumeId commitId entry = .ok (some resolved)) :
    entry.kind = .file ∧ ns.leafVersion volumeId entry = .ok resolved.version ∧
      resolved.namespaceCommit = commitId ∧ resolved.object = entry.objectId ∧
      resolved.objectRevision = entry.objectRevisionId := by
  unfold resolveLeaf at h
  split at h
  · cases h
  rename_i isFile
  obtain ⟨version, loaded, h⟩ := bind_eq_ok.mp h
  split at h
  · cases h
  obtain ⟨-, h⟩ := guard_ok.mp h
  split at h
  · cases h
  · cases h
    exact ⟨not_not.mp isFile, loaded, rfl, rfl, rfl⟩

theorem resolveFilePath_lineage (consistent : Consistent ns) {path : NamespacePath}
    (h : ns.resolveFilePath branchId volumeId path = .ok (some resolved)) :
    ns.validateOpenLineage branchId volumeId resolved.namespaceCommit resolved.object
      resolved.objectRevision resolved.version = .ok () := by
  unfold resolveFilePath at h
  split at h
  · cases h
  rename_i commit isHead
  obtain ⟨place, -, h⟩ := bind_eq_ok.mp h
  split at h
  · rename_i above entry
    obtain ⟨-, loaded, isCommit, isObject, isRevision⟩ := resolveLeaf_ok h
    obtain ⟨revision, isRow, ofVolume, ofObject, isFile⟩ := leafVersion_ok loaded
    obtain ⟨stored, isVersion, sameVolume, sameObject⟩ := consistent.versions isRow isFile
    obtain ⟨head, isHeadRow, isCommitRow⟩ := bind_eq_some_iff.mp isHead
    obtain ⟨found, isFound, headVolume⟩ := consistent.heads isHeadRow
    have same : found = commit := some.inj (isFound.symm.trans isCommitRow)
    have isId : commit.commitId = head.namespaceCommitId := (get_mem isCommitRow).2
    rw [isCommit, isObject, isRevision, isId]
    exact validateOpenLineage_eq_ok.mpr ⟨commit, revision, stored, isCommitRow, isRow, isVersion,
      head_mem_lineage isHeadRow, same ▸ headVolume, ofVolume, ofObject, isFile,
      sameVolume.trans ofVolume, sameObject.trans ofObject⟩
  · cases h

end Namespace

end MeshSpan
