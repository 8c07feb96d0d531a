import MeshSpan.Primitives

/- Directory enumeration over SMB.

   A directory open keeps one optional cursor. A wildcard request lists the page after it,
   encodes the page for the client's buffer and stores the cursor of the next page. No cursor
   is the state before the first page and also the state after the last, so a request that
   goes on after the end is answered with the first page again.

   Correspondence (Rust ↔ Lean)
     query_directory.rs     DirectoryInformationClass, encode_entry, QueryDirectoryResponse::encode
     filesystem_adapter.rs  directory_page_bound, unix_micros_to_filetime, query_directory for
                            a wildcard pattern
   A packet is its output buffer. The 32-bit conversions of lengths are left out: they fail
   only where the output bound fails, with the same answer. -/

namespace MeshSpan.Enumeration

open List

inductive DirectoryInformationClass where
  | directory
  | full
  | both
  | names
  | idFull
  | idBoth
deriving DecidableEq, Repr

def DirectoryInformationClass.fixedEntryBytes : DirectoryInformationClass → Nat
  | .directory => 64
  | .full => 68
  | .both => 94
  | .names => 12
  | .idFull => 80
  | .idBoth => 104

inductive AdapterError where
  | noMoreFiles
  | invalidTime
  | invalidResponse
deriving DecidableEq, Repr

def utf8Bytes (name : List Char) : Nat := (name.map Char.utf8Size).sum

/-- Characters that no response name may hold: NUL and the two separators. -/
def separators : List Char := [Char.ofNat 0, Char.ofNat 92, '/']

/-- A listed entry, its name admitted by `NamespaceComponent::new` under the tree's limit. -/
structure DirectoryResponseEntry (limit : Nat) where
  name : List Char
  fileId : Nat
  isDirectory : Bool
  logicalLength : Nat
  nonempty : name ≠ []
  plain : ∀ c ∈ name, c ∉ separators
  short : utf8Bytes name ≤ limit

/-- `unix_micros_to_filetime`. -/
def filetime (now : Int) : Option Nat :=
  let ticks := (now + 11644473600000000) * 10
  if 0 ≤ ticks ∧ ticks ≤ u64Max then some ticks.toNat else none

/-- A wildcard request at a representable instant, with room for an entry of maximal length. -/
structure QueryDirectoryRequest (limit : Nat) where
  informationClass : DirectoryInformationClass
  (restartScan returnSingleEntry reopen : Bool)
  outputBufferLength : Nat
  now : Int
  room : informationClass.fixedEntryBytes + 2 * limit ≤ outputBufferLength
  clock : (filetime now).isSome

def littleEndian (width value : Nat) : List UInt8 := (range width).map fun i => UInt8.ofNat (value >>> (8 * i))

/-- The UTF-16 units of a character, as bytes. -/
def encodeUtf16 (c : Char) : List UInt8 :=
  if c.toNat < 0x10000 then littleEndian 2 c.toNat
  else littleEndian 2 (0xd800 + (c.toNat - 0x10000) / 0x400) ++ littleEndian 2 (0xdc00 + (c.toNat - 0x10000) % 0x400)

variable {limit : Nat} (cls : DirectoryInformationClass) (instant : Nat) (entry : DirectoryResponseEntry limit)

/-- The fixed part of an entry; `next` is its length when another follows. -/
def encodeFixed (next nameBytes : Nat) : List UInt8 :=
  let attributes := littleEndian 4 next ++ littleEndian 4 0 ++
    [instant, instant, instant, instant, entry.logicalLength, entry.logicalLength].flatMap (littleEndian 8) ++
    littleEndian 4 (if entry.isDirectory then 0x10 else 0x80) ++ littleEndian 4 nameBytes
  match cls with
  | .names => littleEndian 4 next ++ littleEndian 4 0 ++ littleEndian 4 nameBytes
  | .directory => attributes
  | .full => attributes ++ replicate 4 0
  | .both => attributes ++ replicate 30 0
  | .idFull => attributes ++ replicate 8 0 ++ littleEndian 8 entry.fileId
  | .idBoth => attributes ++ replicate 32 0 ++ littleEndian 8 entry.fileId

def encodeEntry (followed : Bool) : Option (List UInt8) :=
  let name := entry.name.flatMap encodeUtf16
  let raw := cls.fixedEntryBytes + name.length
  let encoded := if followed then (raw + 7) / 8 * 8 else raw
  if entry.name.isEmpty || entry.name.any (separators.contains ·) then none
  else some (encodeFixed cls instant entry (if followed then encoded else 0) name.length ++ name ++
    replicate (encoded - raw) 0)

def encodeEntries : List (DirectoryResponseEntry limit) → Option (List UInt8)
  | [] => some []
  | entry :: rest => do
    let first ← encodeEntry cls instant entry !rest.isEmpty
    let others ← encodeEntries rest
    pure (first ++ others)

variable (request : QueryDirectoryRequest limit)

/-- `QueryDirectoryResponse::encode`. -/
def encode (entries : List (DirectoryResponseEntry limit)) : Option (List UInt8) :=
  if entries.isEmpty then none
  else (encodeEntries request.informationClass instant entries).filter (·.length ≤ request.outputBufferLength)

def maximumEntryBytes (limit : Nat) : Nat := (104 + 2 * limit + 7) / 8 * 8

def directoryPageBound : Nat :=
  if request.returnSingleEntry then 1
  else max 1 (min (request.outputBufferLength / maximumEntryBytes limit) 1024)

/-- An unchanged directory and its listing: the pages partition the entries, and the next
cursor is absent exactly on the last page. -/
structure Listing (ε γ : Type) where
  entries : List ε
  list : Option γ → Nat → List ε × Option γ
  offset : γ → Nat
  page : ∀ cursor bound, (list cursor bound).1 = (entries.drop (cursor.elim 0 offset)).take bound
  next : ∀ cursor bound, (list cursor bound).2.map offset =
    if cursor.elim 0 offset + bound < entries.length then some (cursor.elim 0 offset + bound) else none

variable {γ : Type} (fs : Listing (DirectoryResponseEntry limit) γ)

def restarts : Bool := request.restartScan || request.reopen

/-- `query_directory`: the answer and the cursor it leaves. -/
def queryDirectory (cursor : Option γ) : Except AdapterError (List UInt8) × Option γ :=
  let (page, next) := fs.list (if restarts request then none else cursor) (directoryPageBound request)
  if page.isEmpty then (.error .noMoreFiles, cursor)
  else match filetime request.now with
    | none => (.error .invalidTime, cursor)
    | some instant => match encode instant request page with
      | none => (.error .invalidResponse, cursor)
      | some packet => (.ok packet, next)

/-! ## A complete enumeration -/

/-- The entries a request should be answered with after `sent` entries of the scan. -/
def due (sent : Nat) : List (DirectoryResponseEntry limit) :=
  (fs.entries.drop (if restarts request then 0 else sent)).take (directoryPageBound request)

/-- The entries of the scan that have been sent after that request. -/
def advance (sent : Nat) : Nat := (if restarts request then 0 else sent) + (due request fs sent).length

/-- The answer is the packet of the entries due, which fits the buffer, or that there are none. -/
def Answered (sent : Nat) (answer : Except AdapterError (List UInt8)) : Prop :=
  if due request fs sent = [] then answer = .error .noMoreFiles
  else ∃ instant packet, filetime request.now = some instant ∧ answer = .ok packet ∧
    encode instant request (due request fs sent) = some packet ∧ packet.length ≤ request.outputBufferLength

/-- Each request is answered with the entries that follow those sent since the last restart. -/
def Enumerates : Option γ → Nat → List (QueryDirectoryRequest limit) → Prop
  | _, _, [] => True
  | cursor, sent, request :: rest =>
    Answered request fs sent (queryDirectory request fs cursor).1 ∧
    Enumerates (queryDirectory request fs cursor).2 (advance request fs sent) rest

/-- No request goes on with a scan that has sent all of a directory with entries. -/
def StopsAtEnd : Nat → List (QueryDirectoryRequest limit) → Prop
  | _, [] => True
  | sent, request :: rest =>
    (restarts request = true ∨ fs.entries = [] ∨ sent < fs.entries.length) ∧ StopsAtEnd (advance request fs sent) rest

/-! ## Pages fit -/

theorem encodeUtf16_length (c : Char) : (encodeUtf16 c).length ≤ 2 * c.utf8Size := by
  have positive := c.utf8Size_pos
  unfold encodeUtf16
  split
  · simp only [littleEndian, length_map, length_range]
    omega
  · have long : c.utf8Size ≠ 1 := fun one => by
      have ascii := UInt32.le_iff_toNat_le.mp (Char.utf8Size_eq_one_iff.mp one)
      simp at ascii
      omega
    simp only [littleEndian, length_append, length_map, length_range]
    omega

theorem nameBytes_le (name : List Char) : (name.flatMap encodeUtf16).length ≤ 2 * utf8Bytes name := by
  induction name with
  | nil => simp
  | cons c rest ih =>
    have first := encodeUtf16_length c
    simp only [utf8Bytes, flatMap_cons, length_append, map_cons, sum_cons] at ih ⊢
    omega

theorem encodeFixed_length (next nameBytes : Nat) :
    (encodeFixed cls instant entry next nameBytes).length = cls.fixedEntryBytes := by
  cases cls <;> simp [encodeFixed, littleEndian, DirectoryInformationClass.fixedEntryBytes]

theorem encodeEntry_fits (followed : Bool) : ∃ bytes, encodeEntry cls instant entry followed = some bytes ∧
    bytes.length ≤ maximumEntryBytes limit ∧
    (followed = false → bytes.length ≤ cls.fixedEntryBytes + 2 * limit) := by
  have name := nameBytes_le entry.name
  have short := entry.short
  have fixed : cls.fixedEntryBytes ≤ 104 := by cases cls <;> decide
  have plain := entry.plain
  refine ⟨_, if_neg (by simpa [entry.nonempty] using plain), ?_⟩
  simp only [length_append, encodeFixed_length, length_replicate, maximumEntryBytes]
  cases followed with
  | false =>
    simp only [Bool.false_eq_true, ↓reduceIte]
    omega
  | true =>
    simp only [↓reduceIte]
    exact ⟨by omega, by simp⟩

theorem encodeEntries_fits (page : List (DirectoryResponseEntry limit)) :
    ∃ bytes, encodeEntries cls instant page = some bytes ∧
      bytes.length ≤ page.length * maximumEntryBytes limit ∧
      (page.length ≤ 1 → bytes.length ≤ cls.fixedEntryBytes + 2 * limit) := by
  induction page with
  | nil => exact ⟨[], rfl, by simp, by simp⟩
  | cons entry rest ih =>
    obtain ⟨first, isFirst, least, last⟩ := encodeEntry_fits cls instant entry !rest.isEmpty
    obtain ⟨others, isOthers, bound, -⟩ := ih
    refine ⟨first ++ others, by simp [encodeEntries, isFirst, isOthers], ?_, fun one => ?_⟩
    · rw [length_append, length_cons, Nat.succ_mul]
      omega
    · have nil : rest = [] := by simpa using one
      subst nil
      cases isOthers
      simpa using last rfl

/-! ## Reading a packet back

A client finds the names by the two lengths of each entry. -/

def DirectoryInformationClass.nameLengthOffset : DirectoryInformationClass → Nat
  | .names => 8
  | _ => 60

/-- The number that little-endian bytes stand for. -/
def word (bytes : List UInt8) : Nat := bytes.foldr (fun byte rest => byte.toNat + 256 * rest) 0

def decodeUtf16 : List UInt8 → List Char
  | low :: high :: rest =>
    let unit := word [low, high]
    if 0xd800 ≤ unit ∧ unit < 0xdc00 then
      match rest with
      | low' :: high' :: rest =>
        Char.ofNat (0x10000 + (unit - 0xd800) * 0x400 + (word [low', high'] - 0xdc00)) :: decodeUtf16 rest
      | _ => []
    else Char.ofNat unit :: decodeUtf16 rest
  | _ => []

/-- The name of the first entry. -/
def readName (packet : List UInt8) : List Char :=
  decodeUtf16 ((packet.drop cls.fixedEntryBytes).take (word ((packet.drop cls.nameLengthOffset).take 4)))

/-- The names of all entries, by the offset that each entry gives of the next. -/
def readNames (packet : List UInt8) : List (List Char) :=
  let next := word (packet.take 4)
  readName cls packet :: if 0 < next ∧ next < packet.length then readNames (packet.drop next) else []
termination_by packet.length
decreasing_by simp only [length_drop]; omega

theorem word_littleEndian (width value : Nat) (bound : value < 256 ^ width) :
    word (littleEndian width value) = value := by
  induction width generalizing value with
  | zero => simp_all [littleEndian, word]
  | succ width ih =>
    have tail : littleEndian (width + 1) value = UInt8.ofNat value :: littleEndian width (value / 256) := by
      simp only [littleEndian, range_succ_eq_map, map_cons, map_map, Nat.mul_zero, Nat.shiftRight_zero]
      refine congrArg _ (map_congr_left fun i _ => ?_)
      rw [Function.comp, Nat.mul_succ, Nat.add_comm, Nat.shiftRight_add, Nat.shiftRight_eq_div_pow value 8]
    rw [Nat.pow_succ] at bound
    have rest := ih (value / 256) (by omega)
    rw [word] at rest
    rw [tail, word, foldr_cons, rest, UInt8.toNat_ofNat']
    omega

theorem littleEndian_two (value : Nat) : littleEndian 2 value = [UInt8.ofNat value, UInt8.ofNat (value >>> 8)] := rfl

theorem decodeUtf16_encode (c : Char) (rest : List UInt8) :
    decodeUtf16 (encodeUtf16 c ++ rest) = c :: decodeUtf16 rest := by
  have valid : c.toNat < 0xd800 ∨ 0xdfff < c.toNat ∧ c.toNat < 0x110000 := c.valid
  unfold encodeUtf16
  split
  · rename_i basic
    have unit := word_littleEndian 2 c.toNat basic
    rw [littleEndian_two] at unit ⊢
    simp only [cons_append, nil_append]
    rw [decodeUtf16.eq_def]
    simp only [unit]
    rw [if_neg (by omega), Char.ofNat_toNat]
  · -- a surrogate pair
    have high := word_littleEndian 2 (0xd800 + (c.toNat - 0x10000) / 0x400) (by omega)
    have low := word_littleEndian 2 (0xdc00 + (c.toNat - 0x10000) % 0x400) (by omega)
    rw [littleEndian_two] at high low ⊢
    simp only [littleEndian_two, cons_append, nil_append]
    rw [decodeUtf16.eq_def]
    simp only [high, low]
    have whole : 0x10000 + (0xd800 + (c.toNat - 0x10000) / 0x400 - 0xd800) * 0x400 +
        (0xdc00 + (c.toNat - 0x10000) % 0x400 - 0xdc00) = c.toNat := by omega
    rw [if_pos (by omega), whole, Char.ofNat_toNat]

theorem decodeUtf16_name (name : List Char) : decodeUtf16 (name.flatMap encodeUtf16) = name := by
  induction name with
  | nil => rfl
  | cons c rest ih => rw [flatMap_cons, decodeUtf16_encode, ih]

theorem encodeFixed_next (next nameBytes : Nat) (rest : List UInt8) :
    (encodeFixed cls instant entry next nameBytes ++ rest).take 4 = littleEndian 4 next := by
  cases cls <;> rfl

theorem encodeFixed_nameLength (next nameBytes : Nat) (rest : List UInt8) :
    ((encodeFixed cls instant entry next nameBytes ++ rest).drop cls.nameLengthOffset).take 4 =
      littleEndian 4 nameBytes := by
  cases cls <;> rfl

/-- An entry that is encoded with others behind it gives its name and the place of the next. -/
theorem encodeEntry_reads {followed : Bool} {bytes : List UInt8} (h : encodeEntry cls instant entry followed = some bytes)
    (short : bytes.length < 2 ^ 32) (rest : List UInt8) :
    0 < bytes.length ∧ readName cls (bytes ++ rest) = entry.name ∧
      word ((bytes ++ rest).take 4) = if followed then bytes.length else 0 := by
  simp only [encodeEntry, Option.ite_none_left_eq_some, Option.some.injEq] at h
  obtain ⟨-, h⟩ := h
  generalize isName : entry.name.flatMap encodeUtf16 = name at h
  generalize isNext : (if followed then _ else 0) = next at h
  have size := encodeFixed_length cls instant entry next name.length
  have positive : 0 < cls.fixedEntryBytes := by cases cls <;> decide
  have whole : bytes.length = if followed then (cls.fixedEntryBytes + name.length + 7) / 8 * 8
      else cls.fixedEntryBytes + name.length := by
    rw [← h, length_append, length_append, size, length_replicate]
    split <;> omega
  have least : cls.fixedEntryBytes + name.length ≤ bytes.length := by
    rw [whole]
    split <;> omega
  have next_eq : next = if followed then bytes.length else 0 := by rw [← isNext, whole]
  refine ⟨by omega, ?_, ?_⟩
  · have stated : word (((bytes ++ rest).drop cls.nameLengthOffset).take 4) = name.length := by
      rw [← h, append_assoc, append_assoc, encodeFixed_nameLength]
      exact word_littleEndian 4 _ (by omega)
    rw [readName, stated, ← h, append_assoc, append_assoc, drop_left' size, take_left' rfl, ← isName,
      decodeUtf16_name]
  · rw [← next_eq, ← h, append_assoc, append_assoc, encodeFixed_next]
    refine word_littleEndian 4 next ?_
    rw [next_eq]
    split <;> omega

theorem encodeEntries_reads {page : List (DirectoryResponseEntry limit)} {packet : List UInt8} (some' : page ≠ [])
    (h : encodeEntries cls instant page = some packet) (short : packet.length < 2 ^ 32) :
    0 < packet.length ∧ readNames cls packet = page.map (·.name) := by
  induction page generalizing packet with
  | nil => exact absurd rfl some'
  | cons entry page ih =>
    simp only [encodeEntries, Option.bind_eq_bind, Option.bind_eq_some_iff, Option.pure_def, Option.some.injEq] at h
    obtain ⟨first, isFirst, others, isOthers, rfl⟩ := h
    rw [length_append] at short ⊢
    obtain ⟨positive, name, next⟩ := encodeEntry_reads cls instant entry isFirst (by omega) others
    refine ⟨by omega, ?_⟩
    rw [readNames, name, next, map_cons]
    cases page with
    | nil => simp
    | cons second page =>
      obtain ⟨more, names⟩ := ih (by simp) isOthers (by omega)
      simp [positive, more, names]

/-- The names that a client reads by a packet's own offsets are those of the page, in its order. -/
theorem readNames_encode {page : List (DirectoryResponseEntry limit)} {packet : List UInt8}
    (h : encode instant request page = some packet) (short : packet.length < 2 ^ 32) :
    readNames request.informationClass packet = page.map (·.name) := by
  simp only [encode, Option.ite_none_left_eq_some, Option.filter_eq_some_iff] at h
  exact (encodeEntries_reads _ instant (by simpa using h.1) h.2.1 short).2

variable {fs}

/-- A page within the bound of the request fits its buffer. -/
theorem encode_fits {page : List (DirectoryResponseEntry limit)} (some' : page ≠ [])
    (bound : page.length ≤ directoryPageBound request) :
    ∃ packet, encode instant request page = some packet ∧ packet.length ≤ request.outputBufferLength := by
  obtain ⟨bytes, isBytes, many, one⟩ := encodeEntries_fits request.informationClass instant page
  have fits : bytes.length ≤ request.outputBufferLength := by
    by_cases single : page.length ≤ 1
    · exact (one single).trans request.room
    · have quotient : page.length ≤ request.outputBufferLength / maximumEntryBytes limit := by
        unfold directoryPageBound at bound
        split at bound <;> omega
      exact many.trans ((Nat.mul_le_mul_right _ quotient).trans (Nat.div_mul_le_self ..))
  exact ⟨bytes, by simp [encode, some', isBytes, fits], fits⟩

/-! ## The scan -/

/-- The cursor is at the next entry to send, or at the first after the last. -/
def Tracks (fs : Listing (DirectoryResponseEntry limit) γ) (cursor : Option γ) (sent : Nat) : Prop :=
  sent ≤ fs.entries.length ∧ cursor.elim 0 fs.offset = if sent < fs.entries.length then sent else 0

theorem bound_pos : 0 < directoryPageBound request := by
  unfold directoryPageBound
  split <;> omega

variable {cursor : Option γ} {sent : Nat}

/-- The page that is listed from the cursor, and how it is answered. -/
theorem queryDirectory_eq (page : List (DirectoryResponseEntry limit)) {start : Option γ}
    (isStart : (if restarts request then none else cursor) = start)
    (isPage : (fs.entries.drop (start.elim 0 fs.offset)).take (directoryPageBound request) = page) :
    if page = [] then queryDirectory request fs cursor = (.error .noMoreFiles, cursor)
    else ∃ instant packet, filetime request.now = some instant ∧
      queryDirectory request fs cursor = (.ok packet, (fs.list start (directoryPageBound request)).2) ∧
      encode instant request page = some packet ∧ packet.length ≤ request.outputBufferLength := by
  have listed := (fs.page start (directoryPageBound request)).trans isPage
  unfold queryDirectory
  rw [isStart]
  split
  · rename_i nil
    simp [listed, nil]
  · rename_i some'
    obtain ⟨instant, isInstant⟩ := Option.isSome_iff_exists.mp request.clock
    obtain ⟨packet, isPacket, fits⟩ := encode_fits instant request some'
      (by rw [← isPage, length_take]; exact min_le_left ..)
    exact ⟨instant, packet, isInstant, by simp [listed, some', isInstant, isPacket], isPacket, fits⟩

variable {request}

/-- A request that goes on before the end, or restarts, is answered as it should be. -/
theorem Tracks.step (h : Tracks fs cursor sent)
    (within : restarts request = true ∨ fs.entries = [] ∨ sent < fs.entries.length) :
    Answered request fs sent (queryDirectory request fs cursor).1 ∧
      Tracks fs (queryDirectory request fs cursor).2 (advance request fs sent) := by
  obtain ⟨le, at'⟩ := h
  have positive := bound_pos request
  generalize isStart : (if restarts request then none else cursor) = start
  have position : start.elim 0 fs.offset = if restarts request then 0 else sent := by
    subst isStart
    split
    · rfl
    · rename_i goes
      rw [at']
      rcases within.resolve_left goes with nil | before
      · simp_all
      · exact if_pos before
  have answer := queryDirectory_eq request (due request fs sent) isStart (by rw [position]; rfl)
  split at answer
  · rename_i nothing
    rw [Answered, if_pos nothing, answer]
    have empty : fs.entries = [] := by
      by_contra some'
      have := length_pos_iff.mpr some'
      have short := (drop_eq_nil_iff.mp ((take_eq_nil_iff.mp nothing).resolve_left (by omega)))
      split at short
      · omega
      · rename_i goes
        exact absurd ((within.resolve_left goes).resolve_left some') (not_lt.mpr short)
    simp_all [Tracks, advance, due]
  · rename_i something
    obtain ⟨instant, packet, isInstant, eq, isPacket, fits⟩ := answer
    rw [Answered, if_neg something, eq]
    refine ⟨⟨instant, packet, isInstant, rfl, isPacket, fits⟩, ?_⟩
    have next := fs.next start (directoryPageBound request)
    have read : ∀ m : Option γ, m.elim 0 fs.offset = (m.map fs.offset).getD 0 := by rintro ⟨⟩ <;> rfl
    have size : (due request fs sent).length ≠ 0 := by simpa using something
    rw [Tracks, read, next, position, advance]
    simp only [due, length_take, length_drop] at size ⊢
    split_ifs <;> simp <;> omega

/-- A request that goes on after the end is not told that it is the end. -/
theorem Tracks.wraps (h : Tracks fs cursor sent)
    (past : ¬ (restarts request = true ∨ fs.entries = [] ∨ sent < fs.entries.length)) :
    due request fs sent = [] ∧ (queryDirectory request fs cursor).1 ≠ .error .noMoreFiles := by
  simp only [not_or, Bool.not_eq_true, not_lt] at past
  obtain ⟨goes, some', ended⟩ := past
  have positive := bound_pos request
  have first : cursor.elim 0 fs.offset = 0 := h.2.trans (if_neg (not_lt.mpr ended))
  have answer := queryDirectory_eq request _ (if_neg (by simp [goes])) (by rw [first])
  rw [if_neg (by simp [some']; omega)] at answer
  obtain ⟨instant, packet, -, eq, -⟩ := answer
  exact ⟨by simp [due, goes, ended], by simp [eq]⟩

theorem Tracks.enumerates_iff (h : Tracks fs cursor sent) (requests : List (QueryDirectoryRequest limit)) :
    Enumerates fs cursor sent requests ↔ StopsAtEnd fs sent requests := by
  induction requests generalizing cursor sent with
  | nil => exact Iff.rfl
  | cons request rest ih =>
    by_cases within : restarts request = true ∨ fs.entries = [] ∨ sent < fs.entries.length
    · obtain ⟨answered, tracks⟩ := h.step within
      exact (and_iff_right answered).trans ((ih tracks).trans (and_iff_right within).symm)
    · obtain ⟨nothing, wrong⟩ := h.wraps within
      refine iff_of_false (fun enumerates => wrong ?_) (within ·.1)
      simpa [Answered, nothing] using enumerates.1

/-- An enumeration is complete and ends exactly when no request goes on after the end of a
directory with entries. -/
theorem enumeration_complete_iff (fs : Listing (DirectoryResponseEntry limit) γ)
    (requests : List (QueryDirectoryRequest limit)) :
    Enumerates fs none 0 requests ↔ StopsAtEnd fs 0 requests :=
  Tracks.enumerates_iff ⟨Nat.zero_le _, by simp⟩ requests

namespace OneFile

/-- A listing whose cursors are positions. -/
def indexed {ε : Type} (entries : List ε) : Listing ε Nat where
  entries := entries
  list cursor bound := ((entries.drop (cursor.elim 0 id)).take bound,
    if cursor.elim 0 id + bound < entries.length then some (cursor.elim 0 id + bound) else none)
  offset := id
  page _ _ := rfl
  next _ _ := Option.map_id'

def oneFile : Listing (DirectoryResponseEntry 255) Nat :=
  indexed [⟨['a'], 1, false, 0, by decide, by simp [separators], by decide +kernel⟩]

def wildcard : QueryDirectoryRequest 255 := ⟨.names, false, false, false, 1024, 0, by decide, by decide +kernel⟩

/-- The request that follows the last page is answered with that page again. -/
theorem listed_again : (queryDirectory wildcard oneFile none).1.isOk = true ∧
    (queryDirectory wildcard oneFile (queryDirectory wildcard oneFile none).2).1 = (queryDirectory wildcard oneFile none).1 ∧
    ¬ Enumerates oneFile none 0 [wildcard, wildcard] := by
  refine ⟨by decide +kernel, by decide +kernel, fun h => ?_⟩
  have ended : due wildcard oneFile (advance wildcard oneFile 0) = [] := by decide +kernel
  have told := h.2.1
  rw [Answered, if_pos ended] at told
  exact absurd told (by decide +kernel)

end OneFile

end MeshSpan.Enumeration
