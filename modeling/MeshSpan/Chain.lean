import MeshSpan.Rows

/- Hash chains.

   A record carries a digest and the digest of a predecessor. `Linked` says that the records
   are a chain in the order they were written, `follow` walks back from a digest, and
   `Recorded` is a log that takes the record with the greatest key for the predecessor.
   `linked_iff` says when such a log is a chain. -/

namespace MeshSpan.Chain

open List Rows

variable {α δ κ : Type} [LinearOrder κ]
variable (digest : α → δ) (previous : α → Option δ) (key : α → κ)

/-- Every record names the digest of the one written before it, the first one `prior`. -/
def Linked : Option δ → List α → Prop
  | _, [] => True
  | prior, record :: rest => previous record = prior ∧ Linked (some (digest record)) rest

/-- The records on the way back from `link`, at most `fuel` of them. -/
def follow [DecidableEq δ] (rows : List α) : Nat → Option δ → List α
  | fuel + 1, some link =>
    match get digest link rows with
    | some record => record :: follow rows fuel (previous record)
    | none => []
  | _, _ => []

/-- The record with the greatest key. -/
def latest (rows : List α) : Option α := rows.argmax key

/-- A log whose records each name the record with the greatest key so far. -/
inductive Recorded : List α → Prop
  | nil : Recorded []
  | snoc {rows : List α} {record : α} (earlier : Recorded rows)
      (link : previous record = (latest key rows).map digest) : Recorded (rows ++ [record])

variable {digest previous key} {rows : List α} {record : α} {prior : Option δ}

theorem linked_snoc : Linked digest previous prior (rows ++ [record]) ↔
    Linked digest previous prior rows ∧ previous record = (rows.getLast?.map digest).or prior := by
  induction rows generalizing prior with
  | nil => simp [Linked]
  | cons first rest ih => cases rest <;> simp_all [Linked, and_assoc, getLast?_cons]

/-- The records after the first name a predecessor. -/
theorem Linked.isSome {link : δ} (h : Linked digest previous (some link) rows) :
    ∀ record ∈ rows, (previous record).isSome := by
  induction rows generalizing link with
  | nil => simp
  | cons first rest ih => exact forall_mem_cons.mpr ⟨by simp [h.1], ih h.2⟩

theorem Linked.one_root (h : Linked digest previous none rows) :
    rows.countP (fun record => (previous record).isNone) = min 1 rows.length := by
  cases rows with
  | nil => rfl
  | cons first rest =>
    have others : rest.countP (fun record => (previous record).isNone) = 0 :=
      countP_eq_zero.mpr fun record mem => by simpa using Option.isSome_iff_ne_none.mp (h.2.isSome record mem)
    simp [others, h.1]

theorem Linked.next (h : Linked digest previous prior rows) {i : Nat} (inside : i + 1 < rows.length) :
    previous rows[i + 1] = some (digest rows[i]) := by
  induction rows generalizing prior i with
  | nil => simp at inside
  | cons first rest ih =>
    cases i with
    | succ i => exact ih h.2 (by simpa using inside)
    | zero =>
      cases rest with
      | nil => simp at inside
      | cons second rest => exact h.2.1

theorem Linked.set (h : Linked digest previous prior rows) {i : Nat} (inside : i < rows.length)
    (same : digest record = digest rows[i]) (link : previous record = previous rows[i]) :
    Linked digest previous prior (rows.set i record) := by
  induction rows generalizing prior i with
  | nil => exact h
  | cons first rest ih =>
    cases i with
    | zero => exact ⟨link.trans h.1, same ▸ h.2⟩
    | succ i => exact ⟨h.1, ih h.2 (by simpa using inside) same link⟩

/-- A record cannot be taken out before the last one. -/
theorem Linked.not_eraseIdx (keyed : Keyed digest rows) (h : Linked digest previous none rows) {i : Nat}
    (inside : i + 1 < rows.length) : ¬ Linked digest previous none (rows.eraseIdx i) := by
  intro erased
  have after := h.next inside
  cases i with
  | zero =>
    obtain ⟨first, second, rest, rfl⟩ : ∃ first second rest, rows = first :: second :: rest := by
      match rows, inside with
      | first :: second :: rest, _ => exact ⟨first, second, rest, rfl⟩
    exact absurd (erased.1.symm.trans after) (by simp)
  | succ i =>
    -- The record after the gap names the one taken out; in the new list it follows another.
    have size : (rows.eraseIdx (i + 1)).length = rows.length - 1 := length_eraseIdx_of_lt (by omega)
    have joined := erased.next (i := i) (by omega)
    rw [getElem_eraseIdx_of_ge (by omega) (by omega), getElem_eraseIdx_of_lt (by omega) (by omega)] at joined
    have same := Option.some.inj (after.symm.trans joined)
    have := (nodup_map_iff_inj_on (keyed.of_map _)).mp keyed _ (getElem_mem _) _ (getElem_mem _) same
    exact absurd ((keyed.of_map _).getElem_inj_iff.mp this) (by omega)

/-- The walk from the last record meets every record, the latest first, and ends. -/
theorem follow_linked [DecidableEq δ] {part : List α} (keyed : Keyed digest rows) (h : Linked digest previous none part)
    (inside : part ⊆ rows) {fuel : Nat} (enough : part.length ≤ fuel) :
    follow digest previous rows fuel (part.getLast?.map digest) = part.reverse := by
  induction part using reverseRecOn generalizing fuel with
  | nil => cases fuel <;> rfl
  | append_singleton part record ih =>
    obtain ⟨fuel, rfl⟩ : ∃ n, fuel = n + 1 := ⟨fuel - 1, by simp at enough; omega⟩
    obtain ⟨linked, link⟩ := linked_snoc.mp h
    have found := get_of_mem keyed (inside (by simp : record ∈ part ++ [record]))
    have rest : follow digest previous rows fuel (part.getLast?.map digest) = part.reverse :=
      ih linked (fun r mem => inside (by simp [mem])) (by simpa using enough)
    simp_all [follow]

/-- The last record is the one with the greatest key when its key is above the others'. -/
theorem latest_iff (keyed : Keyed digest (rows ++ [record])) :
    (latest key (rows ++ [record])).map digest = some (digest record) ↔ ∀ old ∈ rows, key old < key record := by
  have fresh : ∀ old ∈ rows, digest old ≠ digest record := by simp_all [Keyed, nodup_append]
  rw [latest, argmax_concat]
  cases top : rows.argmax key with
  | none => simp [argmax_eq_none.mp top]
  | some old =>
    have mem := argmax_mem top
    by_cases below : key old < key record
    · simpa [below] using fun r hr => (le_of_mem_argmax hr top).trans_lt below
    · simpa [below, fresh old mem] using ⟨old, mem, not_lt.mp below⟩

/-- Such a log is a chain exactly when the keys grew up to its last record but one. -/
theorem linked_iff (h : Recorded digest previous key rows) (keyed : Keyed digest rows) :
    Linked digest previous none rows ↔ rows.dropLast.Pairwise (key · < key ·) := by
  induction h with
  | nil => simp [Linked]
  | @snoc rows record earlier link ih =>
    have before : Keyed digest rows := by simp_all [Keyed, nodup_append]
    rw [linked_snoc, ih before, dropLast_concat, link, Option.or_none]
    rcases eq_nil_or_concat' rows with rfl | ⟨init, last, rfl⟩
    · simp [latest]
    · rw [getLast?_concat, dropLast_concat, Option.map_some, latest_iff before]
      simp [pairwise_append]

end MeshSpan.Chain
