import Mathlib

/- Tables of rows, as a database statement sees them.

   A table is the list of its rows in insertion order. The statements that the
   transactions of a store are made of are

     SELECT … WHERE key = k        ↔  `get key k`
     UPDATE … SET f WHERE p        ↔  `amend p f`
     INSERT … VALUES (row)         ↔  `rows ++ [row]`
     SELECT EXISTS(… WHERE p)      ↔  `rows.any p`

   and the facts below say what each of them does to membership, to the keys and
   to a later `get`. Nothing here knows what a row holds. -/

namespace MeshSpan

open List

namespace Rows

variable {α κ : Type}

/-- Every row that satisfies `p` is replaced by its image. -/
def amend (p : α → Bool) (f : α → α) (rows : List α) : List α :=
  rows.map fun row => if p row then f row else row

/-- No two rows share a key. -/
def Keyed (key : α → κ) (rows : List α) : Prop := (rows.map key).Nodup

/-! ## Membership and keys -/

variable {f : α → α} {p : α → Bool} {row : α} {rows : List α} {key : α → κ} {next : α → α → Prop}
  {k : κ}

theorem mem_amend : row ∈ amend p f rows ↔ ∃ old ∈ rows, (if p old then f old else old) = row :=
  mem_map

theorem mem_amend_of_not (mem : row ∈ rows) (out : p row = false) : row ∈ amend p f rows :=
  mem_amend.mpr ⟨row, mem, by simp [out]⟩

theorem amend_none (f : α → α) (rows : List α) : amend (fun _ => false) f rows = rows := by
  simp [amend]

theorem forall_amend {P : α → Prop} (image : ∀ row ∈ rows, P (f row)) (kept : ∀ row ∈ rows, P row) :
    ∀ row ∈ amend p f rows, P row := by
  intro row mem
  obtain ⟨old, isOld, rfl⟩ := mem_amend.mp mem
  split
  · exact image old isOld
  · exact kept old isOld

theorem exists_amend {P : α → Prop} (keeps : ∀ row, P row → P (f row)) (h : ∃ row ∈ rows, P row) :
    ∃ row ∈ amend p f rows, P row := by
  obtain ⟨row, mem, holds⟩ := h
  refine ⟨_, mem_amend.mpr ⟨row, mem, rfl⟩, ?_⟩
  split
  · exact keeps row holds
  · exact holds

theorem keys_amend (keeps : ∀ row, key (f row) = key row) (rows : List α) :
    (amend p f rows).map key = rows.map key := by
  unfold amend
  rw [map_map]
  refine map_congr_left fun row _ => ?_
  show key (if p row then f row else row) = key row
  split
  · exact keeps row
  · rfl

theorem keyed_amend (keeps : ∀ row, key (f row) = key row) (keyed : Keyed key rows) :
    Keyed key (amend p f rows) := by
  unfold Keyed
  rw [keys_amend keeps]
  exact keyed

theorem length_amend (p : α → Bool) (f : α → α) (rows : List α) : (amend p f rows).length = rows.length :=
  length_map _

/-- A condition that an amendment does not touch selects the same rows before and after. -/
theorem filter_amend {q : α → Bool} (keeps : ∀ row, q (f row) = q row) (rows : List α) :
    (amend p f rows).filter q = amend p f (rows.filter q) := by
  unfold amend
  rw [filter_map]
  congr 1
  refine filter_congr fun row _ => ?_
  show q (if p row then f row else row) = q row
  split
  · exact keeps row
  · rfl

theorem keyed_append (keyed : Keyed key rows) (fresh : ∀ other ∈ rows, key other ≠ key row) :
    Keyed key (rows ++ [row]) := by
  unfold Keyed
  rw [map_append]
  refine nodup_append.mpr ⟨keyed, nodup_singleton _, ?_⟩
  intro a ha b hb same
  obtain ⟨other, inRows, rfl⟩ := mem_map.mp ha
  have onlyRow : b = key row := mem_singleton.mp hb
  exact fresh other inRows (same.trans onlyRow)

/-! ## Rows of a later table -/

/-- Every row of the first table has a successor in the second. -/
def Onward (next : α → α → Prop) (rows later : List α) : Prop :=
  ∀ row ∈ rows, ∃ row' ∈ later, next row row'

theorem Onward.refl (self : ∀ row, next row row) (rows : List α) : Onward next rows rows :=
  fun row mem => ⟨row, mem, self row⟩

theorem Onward.trans (chain : ∀ a b c, next a b → next b c → next a c) {mid later : List α}
    (first : Onward next rows mid) (second : Onward next mid later) : Onward next rows later := by
  intro row mem
  obtain ⟨row', inMid, step⟩ := first row mem
  obtain ⟨row'', inLater, step'⟩ := second row' inMid
  exact ⟨row'', inLater, chain row row' row'' step step'⟩

theorem onward_amend (self : ∀ row, next row row) (steps : ∀ row, p row = true → next row (f row))
    (rows : List α) : Onward next rows (amend p f rows) := by
  intro row mem
  refine ⟨_, mem_amend.mpr ⟨row, mem, rfl⟩, ?_⟩
  split
  · rename_i amended
    exact steps row amended
  · exact self row

theorem onward_append (self : ∀ row, next row row) (rows new : List α) :
    Onward next rows (rows ++ new) := fun row mem => ⟨row, mem_append_left _ mem, self row⟩

/-! ## Reading by key -/

variable [DecidableEq κ]

instance (key : α → κ) (rows : List α) : Decidable (Keyed key rows) :=
  inferInstanceAs (Decidable (rows.map key).Nodup)

/-- The first row with the given key. -/
def get (key : α → κ) (k : κ) (rows : List α) : Option α := rows.find? fun row => key row == k

theorem get_nil (key : α → κ) (k : κ) : get key k ([] : List α) = none := rfl

theorem get_cons (key : α → κ) (k : κ) (row : α) (rows : List α) :
    get key k (row :: rows) = if key row = k then some row else get key k rows := by
  unfold get
  by_cases h : key row = k
  · rw [find?_cons_of_pos (by simpa using h), if_pos h]
  · rw [find?_cons_of_neg (by simpa using h), if_neg h]

theorem get_mem (h : get key k rows = some row) : row ∈ rows ∧ key row = k :=
  ⟨mem_of_find?_eq_some h, by simpa using find?_some h⟩

theorem get_eq_none : get key k rows = none ↔ ∀ row ∈ rows, key row ≠ k := by
  unfold get
  rw [find?_eq_none]
  simp

theorem get_of_mem (keyed : Keyed key rows) (mem : row ∈ rows) : get key (key row) rows = some row := by
  induction rows with
  | nil => cases mem
  | cons first rest ih =>
    rw [get_cons]
    have apart : key first ∉ rest.map key ∧ Keyed key rest := nodup_cons.mp keyed
    rcases mem_cons.mp mem with rfl | inRest
    · rw [if_pos rfl]
    have differs : key first ≠ key row :=
      fun same => apart.1 (same ▸ mem_map_of_mem inRest)
    rw [if_neg differs]
    exact ih apart.2 inRest

theorem get_eq_some (keyed : Keyed key rows) :
    get key k rows = some row ↔ row ∈ rows ∧ key row = k := by
  constructor
  · exact get_mem
  · rintro ⟨mem, rfl⟩
    exact get_of_mem keyed mem

theorem Keyed.eq_of_key (keyed : Keyed key rows) {a b : α} (ha : a ∈ rows) (hb : b ∈ rows)
    (same : key a = key b) : a = b := by
  have left := get_of_mem keyed ha
  rw [same, get_of_mem keyed hb] at left
  exact (Option.some.inj left).symm

/-! ## Reading after a statement -/

theorem get_append (key : α → κ) (k : κ) (rows : List α) (row : α) : get key k (rows ++ [row]) =
      match get key k rows with
      | some found => some found
      | none => if key row = k then some row else none := by
  induction rows with
  | nil => rw [nil_append, get_cons, get_nil]
  | cons first rest ih =>
    rw [cons_append, get_cons, get_cons, ih]
    by_cases h : key first = k
    · simp only [if_pos h]
    · simp only [if_neg h]

theorem get_of_grown {later : List α} {found : α} (grown : rows <+: later)
    (h : get key k rows = some found) : get key k later = some found := by
  obtain ⟨new, rfl⟩ := grown
  unfold get at h ⊢
  rw [find?_append, h]
  rfl

theorem get_amend (keeps : ∀ row, key (f row) = key row) (k : κ) (rows : List α) :
    get key k (amend p f rows) = (get key k rows).map fun row => if p row then f row else row := by
  induction rows with
  | nil => rfl
  | cons first rest ih =>
    have same : key (if p first then f first else first) = key first := by
      split
      · exact keeps first
      · rfl
    show get key k ((if p first then f first else first) :: amend p f rest) = _
    rw [get_cons, get_cons, same, ih]
    by_cases h : key first = k
    · simp only [if_pos h, Option.map_some]
    · simp only [if_neg h]

end Rows

end MeshSpan
