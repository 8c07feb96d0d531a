import Mathlib

/- Identifiers, bounded arithmetic and digests shared by every crate model.

   Correspondence (Rust ↔ Lean)
     NodeId, OperationId, …  16 bytes  ↔  `Nat`, the big-endian value (0 is the nil identifier)
     u64::checked_add                  ↔  `checkedAdd`
     u64::saturating_add               ↔  `saturatingAdd`
     SQLite integer columns (i64 ≥ 0)  ↔  `SqlInt`, a natural number that carries its bound
     [u8; 32] digests                  ↔  `Digest`

   ASSUMED. SHA-256 and BLAKE3 are collision free. A digest is a term of the free algebra
   over the preimages the code hashes: the code frames every preimage (domain
   string, fixed-width integers, length-prefixed parts), so a preimage is its
   list of parts, and equal digests come from equal parts. A 32-byte value that
   no modelled hash produced is `Digest.raw`; the all-zero sentinel is `raw 0`. -/

namespace MeshSpan

abbrev NodeId := Nat

abbrev OperationId := Nat

abbrev Revision := Nat

def u64Max : Nat := 18446744073709551615

def u32Max : Nat := 4294967295

def checkedAdd (a b : Nat) : Option Nat := if a + b ≤ u64Max then some (a + b) else none

def saturatingAdd (a b : Nat) : Nat := min (a + b) u64Max

theorem checkedAdd_some {a b c : Nat} (h : checkedAdd a b = some c) : c = a + b ∧ a + b ≤ u64Max := by
  unfold checkedAdd at h
  split at h
  · rename_i hb
    exact ⟨(Option.some.inj h).symm, hb⟩
  · cases h

def i64Max : Nat := 2 ^ 63 - 1

theorem one_le_i64Max : 1 ≤ i64Max := by decide

/-- A non-negative SQLite integer. -/
def SqlInt : Type := { n : Nat // n ≤ i64Max }
deriving DecidableEq

namespace SqlInt

def val (v : SqlInt) : Nat := v.1

theorem le (v : SqlInt) : v.val ≤ i64Max := v.2

theorem val_mk {n : Nat} (h : n ≤ i64Max) : SqlInt.val ⟨n, h⟩ = n := rfl

def zero : SqlInt := ⟨0, Nat.zero_le _⟩

end SqlInt

variable {α β γ δ ζ ε : Type} {m : Except ε α} {value : β} {err : ε}

theorem mem_snoc {γ : Type*} {l : List γ} {x y : γ} : x ∈ l ++ [y] ↔ x ∈ l ∨ x = y := by simp

variable {k : α → Except ε β} {f : α → Except ε γ} {g : α → γ → Except ε δ}

/-- A sequenced computation succeeds exactly when both of its parts do. -/
theorem bind_eq_ok : (m >>= k) = .ok value ↔ ∃ x, m = .ok x ∧ k x = .ok value := by
  cases m with
  | error err => simp [bind, Except.bind]
  | ok x => simp [bind, Except.bind]

theorem bind₂_eq_ok {k : α → γ → Except ε β} :
    (m >>= fun x => f x >>= k x) = .ok value ↔ ∃ x, m = .ok x ∧ ∃ y, f x = .ok y ∧ k x y = .ok value := by
  simp only [bind_eq_ok]

theorem bind₃_eq_ok {k : α → γ → δ → Except ε β} :
    (m >>= fun x => f x >>= fun y => g x y >>= k x y) = .ok value ↔
      ∃ x, m = .ok x ∧ ∃ y, f x = .ok y ∧ ∃ z, g x y = .ok z ∧ k x y z = .ok value := by
  simp only [bind_eq_ok]

theorem bind₄_eq_ok {h : α → γ → δ → Except ε ζ} {k : α → γ → δ → ζ → Except ε β} :
    (m >>= fun x => f x >>= fun y => g x y >>= fun z => h x y z >>= k x y z) = .ok value ↔
      ∃ x, m = .ok x ∧ ∃ y, f x = .ok y ∧ ∃ z, g x y = .ok z ∧ ∃ w, h x y z = .ok w ∧
        k x y z w = .ok value := by
  simp only [bind_eq_ok]

/-- A check that has passed leaves what follows it. -/
theorem passed {check : Except ε Unit} {rest : Unit → Except ε β} (h : (check >>= rest) = .ok value) :
    rest () = .ok value := by
  obtain ⟨_, _, h⟩ := bind_eq_ok.mp h
  exact h

theorem bind_eq_error :
    (m >>= k) = .error err ↔ m = .error err ∨ ∃ x, m = .ok x ∧ k x = .error err := by
  cases m with
  | error err => simp [bind, Except.bind]
  | ok x => simp [bind, Except.bind]

variable {c : Prop} {f : α → Except ε β} {l : List α}

/-- A computation behind a guard that refuses succeeds exactly when the guard does not fire. -/
theorem guard_ok [Decidable c] {value : α} :
    (if c then .error err else m) = .ok value ↔ ¬ c ∧ m = .ok value := by
  by_cases h : c <;> simp [h]

/-- A computation behind a guard that admits succeeds exactly when the guard holds. -/
theorem admit_ok [Decidable c] {value : α} :
    (if c then m else .error err) = .ok value ↔ c ∧ m = .ok value := by
  by_cases h : c <;> simp [h]

theorem map_eq_ok {f : α → β} : (f <$> m) = .ok value ↔ ∃ x, m = .ok x ∧ f x = value := by
  cases m with
  | error err => simp [Functor.map, Except.map]
  | ok x => simp [Functor.map, Except.map]

theorem forall₂_of_mapM :
    ∀ {r : List β}, l.mapM f = .ok r → List.Forall₂ (fun a b => f a = .ok b) l r := by
  induction l with
  | nil =>
    intro r h
    cases h
    exact List.Forall₂.nil
  | cons a l ih =>
    intro r h
    rw [List.mapM_cons] at h
    obtain ⟨b, hb, h⟩ := bind_eq_ok.mp h
    obtain ⟨r', hr', h⟩ := bind_eq_ok.mp h
    cases h
    exact List.Forall₂.cons hb (ih hr')

theorem mapM_total (total : ∀ a ∈ l, ∃ b, f a = .ok b) : ∃ r, l.mapM f = .ok r := by
  induction l with
  | nil => exact ⟨[], rfl⟩
  | cons a l ih =>
    obtain ⟨b, hb⟩ := total a (by simp)
    obtain ⟨r, hr⟩ := ih fun x member => total x (List.mem_cons_of_mem _ member)
    exact ⟨b :: r, by rw [List.mapM_cons, hb, hr]; rfl⟩

inductive ContractError where
  | invalidInput
  | unauthorized
  | stale
  | conflict
  | unsupportedVersion
  | notFound
  | resourceExhausted
  | corrupt
  | deadlineExceeded
  | unavailable
  | internalContract
deriving DecidableEq

/-- The low `n` bytes of a number, most significant first (`to_be_bytes`). -/
def beBytes : Nat → Nat → List Nat
  | 0, _ => []
  | n + 1, value => value / 256 ^ n % 256 :: beBytes n value

/-- The number a big-endian byte string denotes (`from_be_bytes`). -/
def fromBeBytes (bytes : List Nat) : Nat := bytes.foldl (fun acc b => acc * 256 + b) 0

/-- Lexicographic order of byte strings. -/
def bytesLe : List Nat → List Nat → Bool
  | [], _ => true
  | _ :: _, [] => false
  | a :: as, b :: bs => if a < b then true else if b < a then false else bytesLe as bs

/-- One 32-byte digest, by the preimage it binds. -/
inductive Digest where
  /-- Bytes that no modelled hash produced. -/
  | raw (value : Nat)
  /-- `meshspan.consensus.command.v1`: version, length and bytes. -/
  | command (version : Nat) (bytes : List Nat)
  /-- `meshspan.consensus.log-entry.v1`. -/
  | logEntry (term index operation version : Nat) (command : Digest)
  /-- `meshspan.consensus.quorum-plan.v1`: header, members, predicates and the three families,
  each as its minimal quorums and minimal cut sets. -/
  | quorumPlan (planId formatVersion epoch : Nat) (voters learners eligible : List Nat)
      (predicates : List (List Nat)) (families : List (List Nat × List Nat))
  /-- `meshspan.consensus.joint-transition.v1`. -/
  | jointTransition (old new : Digest) (oldEpoch newEpoch : Nat)
  /-- `meshspan.consensus.active-joint-plan.v1`. -/
  | activeJoint (old new proof : Digest)
  /-- The hash of plain content bytes. -/
  | content (bytes : List UInt8)
  /-- A domain string with fixed-width fields. -/
  | framed (domain : String) (fields : List Int)
  /-- A domain string with another digest and fixed-width fields. -/
  | over (domain : String) (inner : Digest) (fields : List Int)
  /-- Two framed parts hashed one after the other. -/
  | join (first second : Digest)
deriving DecidableEq

/-- The all-zero digest that stands for no entry. -/
def zeroDigest : Digest := .raw 0

end MeshSpan
