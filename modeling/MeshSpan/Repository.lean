import MeshSpan.Rows
import MeshSpan.Primitives

/- The metadata repository: errors and the statements every command is made of.

   A command of the repository is a sequence of checks and statements in one
   transaction; the first that fails ends it. `require` is a check, `insertUnique` an
   `INSERT` into a table with unique indexes, `checkedI64` a value bound to a signed
   column. The lemmas turn an accepted sequence into the facts it has checked. -/

namespace MeshSpan

abbrev TargetId := Nat
abbrev ContentManifestId := Nat

namespace Repository

open Rows

inductive RepositoryError where
  | invalidCommand
  | staleRevision
  | staleRetentionPolicy
  | operationConflict
  | corruptState
  | capacityExceeded
  | invalidLogPosition
  | sqlite
deriving DecidableEq, Repr

/-- `INSERT`: refused when a row is in conflict with a unique index. -/
def insertUnique {α : Type} (conflicts : α → α → Bool) (rows : List α) (row : α) :
    Except RepositoryError (List α) :=
  if rows.any (conflicts row) then .error .sqlite else .ok (rows ++ [row])

/-- A value that a signed column can hold. -/
def checkedI64 (value : Nat) : Except RepositoryError Unit :=
  if i64Max < value then .error .capacityExceeded else .ok ()

/-- `require`: go on or fail. -/
def require (condition : Bool) (err : RepositoryError) : Except RepositoryError Unit :=
  if condition then .ok () else .error err

/-! ## What an accepted statement has checked -/

@[simp] theorem require_ok {condition : Bool} {err : RepositoryError} {u : Unit} :
    require condition err = .ok u ↔ condition = true := by
  unfold require
  split <;> simp_all

variable {α : Type}

theorem insertUnique_ok {conflicts : α → α → Bool} {rows later : List α} {row : α}
    (h : insertUnique conflicts rows row = .ok later) :
    later = rows ++ [row] ∧ ∀ old ∈ rows, conflicts row old = false := by
  obtain ⟨free, h⟩ := guard_ok.mp h
  cases h
  refine ⟨rfl, fun old mem => ?_⟩
  cases taken : conflicts row old with
  | false => rfl
  | true => exact absurd (List.any_eq_true.mpr ⟨old, mem, taken⟩) free

theorem forM_ok {check : α → Except RepositoryError Unit} {l : List α} {u : Unit}
    (h : l.forM check = .ok u) : ∀ a ∈ l, check a = .ok () := by
  induction l with
  | nil => exact nofun
  | cons first rest ih =>
    obtain ⟨u', head, tail⟩ := bind_eq_ok.mp h
    exact List.forall_mem_cons.mpr ⟨head, ih tail⟩

theorem mapM_check {check : α → Except RepositoryError α} (same : ∀ a b, check a = .ok b → b = a)
    {l r : List α} (h : l.mapM check = .ok r) : r = l := by
  have paired := forall₂_of_mapM h
  clear h
  induction paired with
  | nil => rfl
  | cons hd _ ih => rw [same _ _ hd, ih]

end Repository

end MeshSpan
