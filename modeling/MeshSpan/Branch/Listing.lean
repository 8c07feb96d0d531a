import MeshSpan.Branch.Namespace

/- Directory listing: bounded pages of one immutable directory.

   A directory revision names the root of a content-addressed trie keyed by name
   hash: 64 levels of internal nodes, one nibble each, and leaves that hold every
   name of one hash. A page is read by a descent that seeks to the entry after the
   cursor, and continues from the last entry it returned.

   Correspondence (Rust ↔ Lean)
     directory.rs        DirectoryNodeView ↔ `DirectoryNode`; validate_node and the
                         nibble path of `upsert` ↔ `WellFormed`; lookup_at; name_hash, over
                         any names ↔ `Connection.nameHash`, collisions allowed
     namespace_query.rs  list, validate_cursor, collect_entries, hash_nibble, list_entry,
                         load_revision, load_file_length
   A hash is its 64 nibbles, high nibble first, so byte order is list order. The
   descent's `cursor` and `on_cursor_path` are one argument, the cursor while the
   node is on its path; `depth` is `64 - levels`. A resolved directory
   (`resolve_directory`) is an input: pages of one walk may resolve differently. -/

namespace MeshSpan.Listing

open List Option Rows

/-- The 64 nibbles of a name hash. -/
abbrev NameHash := List Nat

inductive NamespaceQueryError where
  | invalidInput
  | staleCursor
  | corrupt
  | sqlite
deriving DecidableEq

inductive DirectoryNode where
  | internal (depth : Nat) (children : List (Nat × Digest))
  | leaf (keyHash : NameHash) (entries : List DirectoryEntry)

/-- The content columns of a version, and those of the manifest it names. -/
structure VersionContent where
  contentDigest : Digest
  manifestLength : Nat
  manifestDigest : Digest

/-- The tables a listing reads, the hash of a canonical name and the root of a stored trie. -/
structure Connection where
  ns : Namespace
  content? : FileVersionId → Option VersionContent
  nameHash : String → NameHash
  nameHash_length : ∀ name, (nameHash name).length = 64
  node? : Digest → Option DirectoryNode
  directoryRoot : DirectoryTrie → Digest

structure DirectoryListCursor where
  namespaceCommitId : NamespaceCommitId
  directoryObjectId : ObjectId
  directoryObjectRevisionId : ObjectRevisionId
  afterNameHash : NameHash
  afterName : NamespaceComponent

structure ResolvedDirectory where
  commit : NamespaceCommitId
  object : ObjectId
  revision : ObjectRevisionId

structure NamespaceListEntry where
  name : NamespaceComponent
  objectId : ObjectId
  objectRevisionId : ObjectRevisionId
  entryGeneration : Nat
  kind : DirectoryEntryKind
  fileVersionId : Option FileVersionId
  logicalLength : Option Nat

structure NamespaceListPage where
  directory : ResolvedDirectory
  entries : List NamespaceListEntry
  nextCursor : Option DirectoryListCursor

variable (c : Connection) (directory : ResolvedDirectory)

def validateCursor :
    Option DirectoryListCursor → Except NamespaceQueryError Unit
  | none => .ok ()
  | some cursor =>
    if cursor.namespaceCommitId ≠ directory.commit ∨ cursor.directoryObjectId ≠ directory.object ∨
        cursor.directoryObjectRevisionId ≠ directory.revision ∨
        cursor.afterNameHash ≠ c.nameHash cursor.afterName.canonical then .error .staleCursor
    else .ok ()

def hashNibble (hash : NameHash) (depth : Nat) : Nat :=
  hash[depth]?.getD 0

def afterCursor (keyHash : NameHash) (entry : DirectoryEntry) (cursor : DirectoryListCursor) : Bool :=
  cursor.afterNameHash < keyHash ∨
    cursor.afterNameHash = keyHash ∧ cursor.afterName.canonical < entry.name.canonical

def collectEntries (maximum : Nat) : Nat → Option DirectoryListCursor → Digest →
    List DirectoryEntry → Except NamespaceQueryError (List DirectoryEntry)
  | levels, seek, selected, output =>
    if maximum ≤ output.length then .ok output
    else match c.node? selected, levels with
      | some (.internal depth children), below + 1 =>
        if depth ≠ 64 - (below + 1) then .error .corrupt
        else children.foldlM (fun output child =>
          if seek.any fun cursor => child.1 < hashNibble cursor.afterNameHash depth then .ok output
          else collectEntries maximum below
            (seek.filter fun cursor => child.1 = hashNibble cursor.afterNameHash depth)
            child.2 output) output
      | some (.leaf keyHash entries), 0 =>
        .ok (output ++ (entries.filter fun entry => seek.all (afterCursor keyHash entry)).take
          (maximum - output.length))
      | _, _ => .error .corrupt

def lookupAt (name : NamespaceComponent) : Nat → Digest → Except DirectoryTrieError (Option DirectoryEntry)
  | levels, selected => match c.node? selected, levels with
    | some (.internal depth children), below + 1 =>
      if depth ≠ 64 - (below + 1) then .error .corrupt
      else match get (·.1) (hashNibble (c.nameHash name.canonical) depth) children with
        | none => .ok none
        | some child => lookupAt name below child.2
    | some (.leaf keyHash entries), 0 =>
      if keyHash ≠ c.nameHash name.canonical then .error .corrupt
      else .ok (get (·.name.canonical) name.canonical entries)
    | _, _ => .error .corrupt

def loadRevision (id : ObjectRevisionId) : Except NamespaceQueryError ObjectRevision :=
  (c.ns.revision? id).elim (.error .sqlite) .ok

variable (volumeId : VolumeId)

def loadFileLength (objectId : ObjectId) (id : FileVersionId) : Except NamespaceQueryError Nat :=
  match c.ns.version? id, c.content? id with
  | some row, some content =>
    if row.volumeId ≠ volumeId ∨ row.objectId ≠ objectId ∨ row.logicalLength ≠ content.manifestLength ∨
        content.contentDigest ≠ content.manifestDigest then .error .corrupt
    else .ok row.logicalLength
  | _, _ => .error .sqlite

variable (entry : DirectoryEntry)

def listEntry : Except NamespaceQueryError NamespaceListEntry := do
  let revision ← loadRevision c entry.objectRevisionId
  let row := NamespaceListEntry.mk entry.name entry.objectId entry.objectRevisionId entry.generation
    entry.kind
  if revision.volumeId ≠ volumeId ∨ revision.objectId ≠ entry.objectId then .error .corrupt
  else match revision.content, entry.kind with
    | .directory _, .directory => .ok (row none none)
    | .file version, .file => do
      let logicalLength ← loadFileLength c volumeId entry.objectId version
      .ok (row (some version) (some logicalLength))
    | _, _ => .error .corrupt

def cursorAt (last : DirectoryEntry) : DirectoryListCursor :=
  ⟨directory.commit, directory.object, directory.revision, c.nameHash last.name.canonical, last.name⟩

def list (directory : ResolvedDirectory) (cursor : Option DirectoryListCursor)
    (maximumResults : Nat) : Except NamespaceQueryError NamespaceListPage :=
  if maximumResults = 0 ∨ 1024 < maximumResults then .error .invalidInput
  else do
    validateCursor c directory cursor
    let revision ← loadRevision c directory.revision
    let trie ← match revision.content with
      | .directory trie => .ok trie
      | .file _ => .error .corrupt
    let entries ← collectEntries c (maximumResults + 1) 64 cursor (c.directoryRoot trie) []
    let hasMore := maximumResults < entries.length
    let entries := if hasMore then entries.dropLast else entries
    let results ← entries.mapM (listEntry c volumeId)
    let nextCursor ← if hasMore then
      entries.getLast?.elim (.error .corrupt) fun last => .ok (some (cursorAt c directory last))
    else .ok none
    .ok ⟨directory, results, nextCursor⟩

/-- A client that follows `next_cursor` with these page limits, each page under the directory
its request resolves to: the rows it has read, and whether the last page named a cursor. -/
def walk (volumeId : VolumeId) : Option DirectoryListCursor → List (ResolvedDirectory × Nat) →
    Except NamespaceQueryError (List NamespaceListEntry × Bool)
  | cursor, [] => .ok ([], cursor.isSome)
  | cursor, (directory, limit) :: rest => do
    let page ← list c volumeId directory cursor limit
    match page.nextCursor with
    | none => .ok (page.entries, false)
    | some next => do
      let (rows, more) ← walk volumeId (some next) rest
      .ok (page.entries ++ rows, more)

/-! ## The entries of a trie -/

/-- A trie of the given height under a nibble path, as `validate_node` and `upsert` keep it. -/
def WellFormed : Nat → NameHash → Digest → Prop
  | 0, path, selected => ∃ entries, c.node? selected = some (.leaf path entries) ∧
      (∀ entry ∈ entries, c.nameHash entry.name.canonical = path) ∧
      entries.Pairwise fun first second => first.name.canonical < second.name.canonical
  | below + 1, path, selected => ∃ children,
      c.node? selected = some (.internal (64 - (below + 1)) children) ∧
      (∀ child ∈ children, WellFormed below (path ++ [child.1]) child.2) ∧
      children.Pairwise fun first second => first.1 < second.1

def entriesOf : Nat → Digest → List DirectoryEntry
  | 0, selected => match c.node? selected with
    | some (.leaf _ entries) => entries
    | _ => []
  | below + 1, selected => match c.node? selected with
    | some (.internal _ children) => children.flatMap (entriesOf below ·.2)
    | _ => []

/-- Listing order: name hash, then canonical name. -/
def key : NameHash ×ₗ String :=
  toLex (c.nameHash entry.name.canonical, entry.name.canonical)

def passes (seek : Option DirectoryListCursor) (entry : DirectoryEntry) : Bool :=
  seek.all (afterCursor (c.nameHash entry.name.canonical) entry)

variable {c} {levels : Nat} {path : NameHash} {selected : Digest}

theorem lt_of_slots {x y : NameHash} {a b : Nat} (under : path ++ [a] <+: x)
    (other : path ++ [b] <+: y) (less : a < b) : x < y := by
  obtain ⟨_, rfl⟩ := under
  obtain ⟨_, rfl⟩ := other
  simp only [append_assoc]
  exact append_left_lt (Lex.rel less)

theorem hashNibble_path {hash : NameHash} (pre : path <+: hash)
    (short : path.length < hash.length) : path ++ [hashNibble hash path.length] <+: hash := by
  obtain ⟨_ | ⟨nibble, tail⟩, rfl⟩ := pre
  · simp at short
  · exact ⟨tail, by simp [hashNibble]⟩

theorem path_nameHash (wf : WellFormed c levels path selected) :
    ∀ entry ∈ entriesOf c levels selected, path <+: c.nameHash entry.name.canonical := by
  induction levels generalizing path selected with
  | zero =>
    obtain ⟨entries, node, hashes, _⟩ := wf
    intro entry mem
    simp only [entriesOf, node] at mem
    exact hashes entry mem ▸ prefix_rfl
  | succ below ih =>
    obtain ⟨children, node, under, _⟩ := wf
    intro entry mem
    simp only [entriesOf, node, mem_flatMap] at mem
    obtain ⟨child, inside, mem⟩ := mem
    exact (prefix_append ..).trans (ih (under child inside) entry mem)

/-- A trie's entries stand in listing order, without repeats. -/
theorem entriesOf_sorted (wf : WellFormed c levels path selected) :
    (entriesOf c levels selected).Pairwise fun first second => key c first < key c second := by
  induction levels generalizing path selected with
  | zero =>
    obtain ⟨entries, node, hashes, sorted⟩ := wf
    simp only [entriesOf, node]
    refine sorted.imp_of_mem fun first second less => Prod.Lex.toLex_lt_toLex.mpr (.inr ⟨?_, less⟩)
    rw [hashes _ first, hashes _ second]
  | succ below ih =>
    obtain ⟨children, node, under, sorted⟩ := wf
    simp only [entriesOf, node, pairwise_flatMap]
    refine ⟨fun child mem => ih (under child mem), sorted.imp_of_mem ?_⟩
    intro a b first second less x xmem y ymem
    exact Prod.Lex.toLex_lt_toLex.mpr (.inl
      (lt_of_slots (path_nameHash (under a first) x xmem) (path_nameHash (under b second) y ymem) less))

/-- What a look-up finds is an entry of the trie. -/
theorem lookupAt_mem {name : NamespaceComponent} {entry : DirectoryEntry} (wf : WellFormed c levels path selected)
    (found : lookupAt c name levels selected = .ok (some entry)) : entry ∈ entriesOf c levels selected := by
  induction levels generalizing path selected with
  | zero =>
    obtain ⟨entries, node, _, _⟩ := wf
    unfold lookupAt at found
    simp only [entriesOf, node] at found ⊢
    split at found
    · cases found
    · exact (get_mem (Except.ok.inj found)).1
  | succ below ih =>
    obtain ⟨children, node, under, _⟩ := wf
    unfold lookupAt at found
    simp only [entriesOf, node, ne_eq, not_true, if_false] at found ⊢
    split at found
    · cases found
    · rename_i child isChild
      have inside := (get_mem isChild).1
      exact mem_flatMap.mpr ⟨child, inside, ih (under child inside) found⟩

/-- Every entry of a trie is found under its name. -/
theorem lookupAt_of_mem {entry : DirectoryEntry} (wf : WellFormed c levels path selected)
    (height : path.length + levels = 64) (mem : entry ∈ entriesOf c levels selected) :
    lookupAt c entry.name levels selected = .ok (some entry) := by
  induction levels generalizing path selected with
  | zero =>
    obtain ⟨entries, node, hashes, sorted⟩ := wf
    simp only [entriesOf, node] at mem
    have keyed : Keyed (fun entry : DirectoryEntry => entry.name.canonical) entries :=
      (pairwise_map.mpr sorted).imp ne_of_lt
    unfold lookupAt
    simp [node, hashes entry mem, get_of_mem keyed mem]
  | succ below ih =>
    obtain ⟨children, node, under, sorted⟩ := wf
    simp only [entriesOf, node, mem_flatMap] at mem
    obtain ⟨child, inside, mem⟩ := mem
    have keyed : Keyed Prod.fst children := (pairwise_map.mpr sorted).imp ne_of_lt
    have nibble : hashNibble (c.nameHash entry.name.canonical) (64 - (below + 1)) = child.1 := by
      obtain ⟨tail, hash⟩ := path_nameHash (under child inside) entry mem
      rw [← hash, show 64 - (below + 1) = path.length by omega]
      simp [hashNibble]
    unfold lookupAt
    simp only [node, ne_eq, not_true, if_false, nibble, get_of_mem keyed inside]
    exact ih (under child inside) (by simp; omega) mem

theorem afterCursor_iff {entry last : DirectoryEntry} {directory : ResolvedDirectory} :
    afterCursor (c.nameHash entry.name.canonical) entry (cursorAt c directory last) = true ↔
      key c last < key c entry := by
  simp [afterCursor, cursorAt, key, Prod.Lex.toLex_lt_toLex]

/-! ## The seek -/

/-- A bounded collection over children is a bounded collection over their concatenation. -/
theorem foldlM_take {α β ε : Type} {collect : List β → α → Except ε (List β)} {found : α → List β}
    {maximum : Nat} : ∀ {children : List α}, (∀ child ∈ children, ∀ output,
      collect output child = .ok (output ++ (found child).take (maximum - output.length))) →
    ∀ output, children.foldlM collect output =
      .ok (output ++ (children.flatMap found).take (maximum - output.length))
  | [], _, output => by simp [pure, Except.pure]
  | child :: rest, each, output => by
    rw [foldlM_cons, each child mem_cons_self]
    refine (foldlM_take (fun a mem => each a (mem_cons_of_mem _ mem)) _).trans ?_
    rw [flatMap_cons, take_append, append_assoc, length_append, length_take]
    congr 4
    omega

/-- The descent collects the entries after the cursor, in order, up to the bound. -/
theorem collectEntries_eq (maximum : Nat) (seek : Option DirectoryListCursor) (output : List DirectoryEntry)
    (wf : WellFormed c levels path selected) (height : path.length + levels = 64)
    (onPath : ∀ cursor ∈ seek, path <+: cursor.afterNameHash ∧ cursor.afterNameHash.length = 64) :
    collectEntries c maximum levels seek selected output =
      .ok (output ++ ((entriesOf c levels selected).filter (passes c seek)).take
        (maximum - output.length)) := by
  induction levels generalizing path seek selected output with
  | zero =>
    obtain ⟨entries, node, hashes, _⟩ := wf
    have same : entries.filter (fun entry => seek.all (afterCursor path entry)) =
        entries.filter (passes c seek) :=
      filter_congr fun entry mem => by rw [passes, hashes entry mem]
    unfold collectEntries
    simp only [entriesOf, node, same]
    split
    · simp [Nat.sub_eq_zero_of_le ‹_›]
    · rfl
  | succ below ih =>
    obtain ⟨children, node, under, _⟩ := wf
    have depth : 64 - (below + 1) = path.length := by omega
    unfold collectEntries
    simp only [entriesOf, node, ne_eq, not_true, if_false, filter_flatMap]
    split
    · simp [Nat.sub_eq_zero_of_le ‹_›]
    refine foldlM_take (fun child mem output => ?_) output
    have height : (path ++ [child.1]).length + below = 64 := by simp; omega
    have whole := ih none output (under child mem) height nofun
    cases seek with
    | none => exact whole
    | some cursor =>
      obtain ⟨pre, long⟩ := onPath cursor rfl
      have next := hashNibble_path pre (by omega)
      rw [depth]
      rcases lt_trichotomy child.1 (hashNibble cursor.afterNameHash path.length) with less | same | more
      -- below the cursor's slot every hash is smaller, above it every hash is larger
      · have none : (entriesOf c below child.2).filter (passes c (some cursor)) = [] :=
          filter_eq_nil_iff.mpr fun entry inside => by
            have lower := lt_of_slots (path_nameHash (under child mem) entry inside) next less
            simp [passes, afterCursor, lower.not_gt, lower.ne']
        simp [less, none]
      · simpa [Option.filter, same] using ih (some cursor) output (under child mem) height
          (by rintro _ ⟨⟩; exact ⟨same ▸ next, long⟩)
      · have all : (entriesOf c below child.2).filter (passes c (some cursor)) =
            (entriesOf c below child.2).filter (passes c none) :=
          filter_congr fun entry inside => by
            have upper := lt_of_slots next (path_nameHash (under child mem) entry inside) more
            simp [passes, afterCursor, upper]
        simpa [Option.filter, more.not_gt, more.ne', all] using whole

/-! ## Pages -/

def cursorAfter (c : Connection) (directory : ResolvedDirectory) (done : List DirectoryEntry) :
    Option DirectoryListCursor :=
  done.getLast?.map (cursorAt c directory)

def listing (c : Connection) (trie : DirectoryTrie) : List DirectoryEntry :=
  entriesOf c 64 (c.directoryRoot trie)

/-- A stored directory: its revision, and a well-formed trie in which a look-up finds what the
directory maps the name to. -/
structure Listed (c : Connection) (directory : ResolvedDirectory) (trie : DirectoryTrie) : Prop where
  revision : ∃ row, loadRevision c directory.revision = .ok row ∧ row.content = .directory trie
  wellFormed : WellFormed c 64 [] (c.directoryRoot trie)
  lookups : ∀ name, lookupAt c name 64 (c.directoryRoot trie) = .ok (trie.lookup name)
  distinct : Keyed (·.name.canonical) trie.entries

/-- The trie lists exactly the entries of the directory. -/
theorem Listed.entries {directory : ResolvedDirectory} {trie : DirectoryTrie} (listed : Listed c directory trie) :
    (listing c trie).Perm trie.entries := by
  have once : (listing c trie).Nodup :=
    (entriesOf_sorted listed.wellFormed).imp fun less same => less.ne (congrArg _ same)
  refine (perm_ext_iff_of_nodup once (.of_map _ listed.distinct)).mpr fun entry => ⟨fun mem => ?_, fun mem => ?_⟩
  · have found := lookupAt_of_mem listed.wellFormed rfl mem
    rw [listed.lookups] at found
    exact (get_mem (Except.ok.inj found)).1
  · refine lookupAt_mem listed.wellFormed ((listed.lookups entry.name).trans ?_)
    rw [DirectoryTrie.lookup, get_of_mem listed.distinct mem]

section Pages

variable {volumeId : VolumeId} {directory : ResolvedDirectory} {trie : DirectoryTrie}
  {done rest : List DirectoryEntry}

/-- The entries after the cursor are those not yet read. -/
theorem filter_passes_cursorAfter
    (sorted : (done ++ rest).Pairwise fun first second => key c first < key c second) :
    (done ++ rest).filter (passes c (cursorAfter c directory done)) = rest := by
  rcases eq_nil_or_concat' done with rfl | ⟨before, last, rfl⟩
  · exact filter_eq_self.mpr fun _ _ => rfl
  obtain ⟨upTo, _, later⟩ := pairwise_append.mp sorted
  have earlier := (pairwise_append.mp upTo).2.2
  have pass : ∀ entry, passes c (cursorAfter c directory (before ++ [last])) entry = true ↔
      key c last < key c entry := by simp [passes, cursorAfter, afterCursor_iff]
  rw [filter_append, filter_eq_nil_iff.mpr, filter_eq_self.mpr, nil_append]
  · exact fun entry mem => (pass entry).mpr (later last (by simp) entry mem)
  · intro entry mem
    rw [pass]
    rcases mem_append.mp mem with first | same
    · exact (earlier entry first last (by simp)).not_gt
    · exact mem_singleton.mp same ▸ lt_irrefl _

variable (listed : Listed c directory trie) (split : listing c trie = done ++ rest)
include listed split

/-- One page: the next entries, and a cursor exactly when one remains. -/
theorem list_eq {limit : Nat} (positive : 1 ≤ limit) (bounded : limit ≤ 1024) :
    list c volumeId directory (cursorAfter c directory done) limit =
      ((rest.take limit).mapM (listEntry c volumeId) >>= fun rows => .ok ⟨directory, rows,
        if limit < rest.length then cursorAfter c directory (done ++ rest.take limit) else none⟩) := by
  obtain ⟨row, loaded, selected⟩ := listed.revision
  have current : validateCursor c directory (cursorAfter c directory done) = .ok () := by
    cases last : done.getLast? <;> simp [cursorAfter, last, validateCursor, cursorAt]
  have collected := collectEntries_eq (limit + 1) (cursorAfter c directory done) []
    listed.wellFormed rfl (fun cursor mem => by
      obtain ⟨last, _, rfl⟩ := mem_map.mp mem
      exact ⟨ nil_prefix, c.nameHash_length _⟩)
  have sorted := entriesOf_sorted listed.wellFormed
  rw [← listing, split] at collected sorted
  rw [filter_passes_cursorAfter sorted] at collected
  rw [list, if_neg (by omega), current]
  simp only [bind, Except.bind, loaded, selected, Option.elim, collected, nil_append,
    length_nil, Nat.sub_zero, length_take]
  by_cases more : limit < rest.length
  · have page : (rest.take (limit + 1)).dropLast = rest.take limit := by
      rw [dropLast_eq_take, take_take, length_take]
      congr 1
      omega
    have some : rest.take limit ≠ [] := ne_nil_of_length_pos (by rw [length_take]; omega)
    simp only [show limit < min (limit + 1) rest.length by omega, more, if_true, page, cursorAfter,
      getLast?_append, getLast?_eq_some_getLast some, some_or, map_some]
  · simp only [show ¬limit < min (limit + 1) rest.length by omega, more, if_false,
      take_of_length_le (l := rest) (i := limit + 1) (by omega),
      take_of_length_le (not_lt.mp more)]

/-- Following the cursors from any point of the listing. -/
theorem walk_eq {limits : List Nat} (valid : ∀ limit ∈ limits, 1 ≤ limit ∧ limit ≤ 1024)
    (begun : limits = [] → done ≠ [] ∧ rest ≠ []) :
    walk c volumeId (cursorAfter c directory done) (limits.map (directory, ·)) =
      ((rest.take limits.sum).mapM (listEntry c volumeId) >>= fun rows =>
        .ok (rows, decide (limits.sum < rest.length))) := by
  induction limits generalizing done rest with
  | nil =>
    obtain ⟨read, left⟩ := begun rfl
    simp [walk, cursorAfter, getLast?_eq_some_getLast read, length_pos_iff.mpr left, bind,
      Except.bind, pure, Except.pure]
  | cons limit limits ih =>
    obtain ⟨⟨positive, bounded⟩, valid⟩ := forall_mem_cons.mp valid
    rw [map_cons, walk, list_eq listed split positive bounded, sum_cons]
    by_cases more : limit < rest.length
    · have read : done ++ rest.take limit ≠ [] :=
        ne_nil_of_length_pos (by rw [length_append, length_take]; omega)
      have step := ih (show _ = (done ++ rest.take limit) ++ rest.drop limit by
        rw [append_assoc, take_append_drop, split]) valid
        (fun _ => ⟨read, ne_nil_of_length_pos (by rw [length_drop]; omega)⟩)
      have remains : limit + limits.sum < rest.length ↔ limits.sum < (rest.drop limit).length := by
        rw [length_drop]
        omega
      rw [if_pos more, take_add, mapM_append]
      simp only [remains]
      rw [cursorAfter, getLast?_eq_some_getLast read] at step ⊢
      cases (rest.take limit).mapM (listEntry c volumeId) with
      | error => rfl
      | ok rows =>
        change (walk .. >>= _) = _
        rw [map_some] at step
        rw [step]
        cases ((rest.drop limit).take limits.sum).mapM (listEntry c volumeId) <;> rfl
    · rw [if_neg more, take_of_length_le (i := limit) (by omega),
        take_of_length_le (i := limit + _) (by omega)]
      simp only [show ¬limit + limits.sum < rest.length by omega]
      cases rest.mapM (listEntry c volumeId) <;> rfl

omit split in
/-- While the resolved view stays the same, pages partition the directory: any sequence of
limits reads the first entries in listing order, each once, and names a cursor exactly when an
entry remains, so as many pages as entries read all of it. -/
theorem pages_partition {limits : List Nat} (some : limits ≠ [])
    (valid : ∀ limit ∈ limits, 1 ≤ limit ∧ limit ≤ 1024) : (listing c trie).Perm trie.entries ∧
    (listing c trie).Pairwise (fun first second => key c first < key c second) ∧
    walk c volumeId none (limits.map (directory, ·)) =
      (((listing c trie).take limits.sum).mapM (listEntry c volumeId) >>= fun rows =>
        .ok (rows, decide (limits.sum < (listing c trie).length))) ∧
    ((listing c trie).length ≤ limits.length → walk c volumeId none (limits.map (directory, ·)) =
      ((listing c trie).mapM (listEntry c volumeId) >>= fun rows => .ok (rows, false))) := by
  have pages := @walk_eq c volumeId directory trie [] _ listed (nil_append _).symm _ valid
    (absurd · some)
  refine ⟨listed.entries, entriesOf_sorted listed.wellFormed, pages, fun enough => pages.trans ?_⟩
  have total := limits.length_le_sum_of_one_le fun limit mem => (valid limit mem).1
  rw [take_of_length_le (enough.trans total)]
  simp only [(enough.trans total).not_gt]
  rfl

end Pages

/-! ## Two names under one hash -/

namespace Collision

def child (name : String) (id : Nat) : DirectoryEntry :=
  ⟨⟨name, name⟩, id, id, .directory, 1, by decide⟩

def trie : DirectoryTrie := ⟨[child "a" 1, child "b" 2]⟩

def store : Connection where
  ns := { Namespace.empty with revisions :=
    [⟨9, 0, 9, none, .directory trie⟩, ⟨1, 0, 1, none, .directory .empty⟩, ⟨2, 0, 2, none, .directory .empty⟩] }
  content? _ := none
  nameHash _ := replicate 64 0
  nameHash_length _ := length_replicate
  node?
    | .raw depth => if depth < 64 then some (.internal depth [(0, .raw (depth + 1))])
      else some (.leaf (replicate 64 0) trie.entries)
    | _ => none
  directoryRoot _ := .raw 0

theorem node?_raw {below : Nat} (short : below + 1 ≤ 64) : store.node? (.raw (64 - (below + 1))) =
    some (.internal (64 - (below + 1)) [(0, .raw (64 - below))]) :=
  (if_pos (by omega)).trans (by rw [show 64 - (below + 1) + 1 = 64 - below by omega])

theorem wellFormed : ∀ levels ≤ 64,
    WellFormed store levels (replicate (64 - levels) 0) (.raw (64 - levels))
  | 0, _ => ⟨_, rfl, fun _ _ => rfl, by decide⟩
  | below + 1, short => by
    refine ⟨_, node?_raw short, ?_, pairwise_singleton ..⟩
    · intro node mem
      rw [mem_singleton.mp mem, ← replicate_succ',
        show 64 - (below + 1) + 1 = 64 - below by omega]
      exact wellFormed below (by omega)

theorem lookups (name : NamespaceComponent) : ∀ levels ≤ 64,
    lookupAt store name levels (.raw (64 - levels)) = .ok (trie.lookup name)
  | 0, _ => rfl
  | below + 1, short => by
    have nibble : hashNibble (store.nameHash name.canonical) (64 - (below + 1)) = 0 := by
      rw [hashNibble, store, getElem?_replicate, if_pos (by omega), Option.getD_some]
    unfold lookupAt
    simp only [node?_raw short, ne_eq, not_true, if_false, nibble]
    exact lookups name below (by omega)

theorem listed (commit : Nat) : Listed store ⟨commit, 9, 9⟩ trie :=
  ⟨⟨_, rfl, rfl⟩, wellFormed 64 le_rfl, fun name => lookups name 64 le_rfl, by decide⟩

def row (name : String) (id : Nat) : NamespaceListEntry :=
  ⟨⟨name, name⟩, id, id, 1, .directory, none, none⟩

set_option maxRecDepth 2000 in
theorem two_pages : walk store 0 none ([1, 1].map (⟨1, 9, 9⟩, ·)) = .ok ([row "a" 1, row "b" 2], false) :=
  (pages_partition (listed 1) (by decide) (by decide)).2.2.1.trans rfl

set_option maxRecDepth 2000 in
/-- A publication elsewhere in the volume moves the commit. The directory keeps its revision
and its trie, and the continuation of its listing is refused. -/
theorem commit_moved : Listed store ⟨1, 9, 9⟩ trie ∧ Listed store ⟨2, 9, 9⟩ trie ∧
    walk store 0 none [(⟨1, 9, 9⟩, 1)] = .ok ([row "a" 1], true) ∧
    walk store 0 none [(⟨1, 9, 9⟩, 1), (⟨2, 9, 9⟩, 1)] = .error .staleCursor :=
  ⟨listed 1, listed 2, rfl, rfl⟩

end Collision

end MeshSpan.Listing
