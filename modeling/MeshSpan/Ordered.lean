import Mathlib

/- Ordered sets and maps with one canonical representation.

   A set is its strictly increasing list of elements and a map its list of
   entries with strictly increasing keys, so that iteration order is key order,
   the first entry is the smallest one and equality is extensional. The
   operations are single structural passes: they evaluate inside the kernel. -/

namespace Ordered

open List

variable {κ : Type} [LinearOrder κ] {α β : Type}

/-! ## Sets -/

/-- Sorted insertion, keeping an element that is already present. -/
def insertKey (k : κ) : List κ → List κ
  | [] => [k]
  | x :: xs => if k < x then k :: x :: xs else if x < k then x :: insertKey k xs else x :: xs

variable {k y : κ}

theorem mem_insertKey : ∀ {l : List κ}, y ∈ insertKey k l ↔ y = k ∨ y ∈ l
  | [] => by simp [insertKey]
  | x :: xs => by
    unfold insertKey
    split
    · simp
    split
    · simp only [mem_cons, mem_insertKey]
      tauto
    · have hx : x = k := le_antisymm (not_lt.mp ‹_›) (not_lt.mp ‹_›)
      simp [hx]

theorem sorted_insertKey : ∀ {l : List κ}, l.Pairwise (· < ·) → (insertKey k l).Pairwise (· < ·)
  | [], _ => by simp [insertKey]
  | x :: xs, h => by
    have hx := pairwise_cons.mp h
    unfold insertKey
    split
    · rename_i hk
      refine pairwise_cons.mpr ⟨fun y hy => ?_, h⟩
      rcases mem_cons.mp hy with rfl | hy
      · exact hk
      · exact hk.trans (hx.1 y hy)
    · split
      · rename_i hk
        refine pairwise_cons.mpr ⟨fun y hy => ?_, sorted_insertKey hx.2⟩
        rcases mem_insertKey.mp hy with rfl | hy
        · exact hk
        · exact hx.1 y hy
      · exact h

/-- A finite set kept as its strictly increasing list of elements. -/
structure OrdSet (κ : Type) [LinearOrder κ] where
  elems : List κ
  sorted : elems.Pairwise (· < ·)
deriving DecidableEq

namespace OrdSet

instance : Membership κ (OrdSet κ) := ⟨fun s k => k ∈ s.elems⟩

instance (s : OrdSet κ) (k : κ) : Decidable (k ∈ s) :=
  decidable_of_iff (s.elems.contains k) contains_iff_mem

variable {s t : OrdSet κ} {v : α}

theorem mem_elems : k ∈ s.elems ↔ k ∈ s := Iff.rfl

def empty : OrdSet κ := ⟨[], List.Pairwise.nil⟩

instance : EmptyCollection (OrdSet κ) := ⟨empty⟩

instance : Inhabited (OrdSet κ) := ⟨empty⟩

def insert (s : OrdSet κ) (k : κ) : OrdSet κ := ⟨insertKey k s.elems, sorted_insertKey s.sorted⟩

def singleton (k : κ) : OrdSet κ := ⟨[k], pairwise_singleton _ _⟩

/-- The set of the elements of a list, in any order and with repetitions. -/
def ofList (l : List κ) : OrdSet κ := l.foldl insert empty

def filter (s : OrdSet κ) (p : κ → Bool) : OrdSet κ := ⟨s.elems.filter p, s.sorted.filter p⟩

def union (s t : OrdSet κ) : OrdSet κ := t.elems.foldl insert s

def inter (s t : OrdSet κ) : OrdSet κ := s.filter fun k => decide (k ∈ t)

def erase (s : OrdSet κ) (k : κ) : OrdSet κ := s.filter fun x => decide (x ≠ k)

def isEmpty (s : OrdSet κ) : Bool := s.elems.isEmpty

def card (s : OrdSet κ) : Nat := s.elems.length

def isSubset (s t : OrdSet κ) : Bool := s.elems.all fun k => decide (k ∈ t)

def isDisjoint (s t : OrdSet κ) : Bool := s.elems.all fun k => decide (k ∉ t)

/-- The least element and the set without it. -/
def popFirst? (s : OrdSet κ) : Option (κ × OrdSet κ) :=
  match s with
  | ⟨[], _⟩ => none
  | ⟨k :: rest, sorted⟩ => some (k, ⟨rest, (pairwise_cons.mp sorted).2⟩)

@[simp] theorem not_mem_empty : ¬ k ∈ (empty : OrdSet κ) := not_mem_nil

theorem popFirst?_some {rest : OrdSet κ} (h : s.popFirst? = some (k, rest)) :
    k ∈ s ∧ (∀ y, y ∈ rest ↔ y ∈ s ∧ y ≠ k) ∧ ∀ y, y ∈ s → k ≤ y := by
  obtain ⟨elems, sorted⟩ := s
  cases elems with
  | nil => cases h
  | cons first others =>
    cases h
    have least := (pairwise_cons.mp sorted).1
    refine ⟨mem_cons_self, fun y => ⟨fun hy => ?_, fun hy => ?_⟩, fun y hy => ?_⟩
    · exact ⟨mem_cons_of_mem _ hy, (least y hy).ne'⟩
    · exact (mem_cons.mp hy.1).resolve_left hy.2
    · rcases mem_cons.mp hy with same | later
      · exact same.ge
      · exact (least y later).le

@[simp] theorem mem_insert : y ∈ s.insert k ↔ y = k ∨ y ∈ s :=
  mem_insertKey

@[simp] theorem mem_singleton : y ∈ singleton k ↔ y = k := List.mem_singleton

@[simp] theorem mem_filter {p : κ → Bool} : k ∈ s.filter p ↔ k ∈ s ∧ p k = true := List.mem_filter

theorem mem_foldl_insert : ∀ (l : List κ) (s : OrdSet κ), y ∈ l.foldl insert s ↔ y ∈ s ∨ y ∈ l
  | [], s => by simp
  | x :: xs, s => by
    rw [foldl_cons, mem_foldl_insert xs, mem_insert, mem_cons]
    tauto

@[simp] theorem mem_ofList {l : List κ} : k ∈ ofList l ↔ k ∈ l := by
  simp [ofList, mem_foldl_insert]

@[simp] theorem mem_union : k ∈ s.union t ↔ k ∈ s ∨ k ∈ t :=
  mem_foldl_insert t.elems s

@[simp] theorem mem_inter : k ∈ s.inter t ↔ k ∈ s ∧ k ∈ t := by
  simp [inter]

theorem isSubset_iff : s.isSubset t = true ↔ ∀ k ∈ s, k ∈ t := by
  simp [isSubset, mem_elems]

theorem isDisjoint_eq_false : s.isDisjoint t = false ↔ ∃ k, k ∈ s ∧ k ∈ t := by
  simp [isDisjoint, mem_elems]

theorem card_lt_of_isSubset (sub : s.isSubset t) (ne : s ≠ t) : s.card < t.card := by
  have le : List.Subperm s.elems t.elems :=
    subperm_of_subset (s.sorted.imp (ne_of_lt ·)) (isSubset_iff.mp sub ·)
  refine lt_of_le_of_ne le.length_le fun same => ne ?_
  have perm := le.perm_of_length_le same.ge
  cases s
  cases t
  simp only [mk.injEq]
  exact perm.eq_of_pairwise (fun a b _ _ h h' => absurd h' (lt_asymm h)) ‹_› ‹_›

end OrdSet

/-! ## Minimal members -/

/-- The members of a list with no other member below them. -/
def minimalMembers [DecidableEq α] (below : α → α → Bool) (l : List α) : List α :=
  l.filter fun c => !l.any (fun o => decide (o ≠ c) && below o c)

/-- Below a bound there is a minimal member as soon as there is a member. -/
theorem exists_minimalMembers_iff [DecidableEq α] (below : α → α → Bool) (size : α → Nat)
    {l : List α} {x : α} (trans : ∀ {a b c : α}, below a b = true → below b c = true → below a c = true)
    (shrinks : ∀ {a b : α}, below a b = true → a ≠ b → size a < size b) :
    (∃ m ∈ minimalMembers below l, below m x = true) ↔ ∃ m ∈ l, below m x = true := by
  constructor
  · rintro ⟨m, mem, bounded⟩
    exact ⟨m, mem_of_mem_filter mem, bounded⟩
  · rintro ⟨m, mem, bounded⟩
    -- by induction on the size: a member that is not minimal has a smaller one below it
    induction hn : size m using Nat.strong_induction_on generalizing m with
    | _ n ih =>
      by_cases minimal : m ∈ minimalMembers below l
      · exact ⟨m, minimal, bounded⟩
      · obtain ⟨o, inList, ne, lower⟩ : ∃ o ∈ l, o ≠ m ∧ below o m = true := by
          simpa [minimalMembers, mem] using minimal
        exact ih (size o) (hn ▸ shrinks lower ne) o inList (trans lower bounded) rfl

/-! ## Maps -/

/-- Sorted insertion into an entry list, replacing the value of a key that is present. -/
def insertEntry (k : κ) (v : α) : List (κ × α) → List (κ × α)
  | [] => [(k, v)]
  | e :: es =>
    if k < e.1 then (k, v) :: e :: es else if e.1 < k then e :: insertEntry k v es else (k, v) :: es

def lookup (k : κ) : List (κ × α) → Option α
  | [] => none
  | e :: es => if e.1 = k then some e.2 else lookup k es

theorem keys_insertEntry : ∀ {l : List (κ × α)},
    y ∈ (insertEntry k v l).map Prod.fst ↔ y = k ∨ y ∈ l.map Prod.fst
  | [] => by simp [insertEntry]
  | e :: es => by
    unfold insertEntry
    split
    · simp
    split
    · simp only [map_cons, mem_cons, keys_insertEntry]
      tauto
    · have hx : e.1 = k := le_antisymm (not_lt.mp ‹_›) (not_lt.mp ‹_›)
      simp [hx]

theorem sorted_insertEntry : ∀ {l : List (κ × α)},
    (l.map Prod.fst).Pairwise (· < ·) → ((insertEntry k v l).map Prod.fst).Pairwise (· < ·)
  | [], _ => by simp [insertEntry]
  | e :: es, h => by
    have hx := pairwise_cons.mp h
    unfold insertEntry
    split
    · rename_i hk
      refine pairwise_cons.mpr ⟨fun y hy => ?_, h⟩
      rcases mem_cons.mp hy with rfl | hy
      · exact hk
      · exact hk.trans (hx.1 y hy)
    · split
      · rename_i hk
        refine pairwise_cons.mpr ⟨fun y hy => ?_, sorted_insertEntry hx.2⟩
        rcases keys_insertEntry.mp hy with rfl | hy
        · exact hk
        · exact hx.1 y hy
      · have hk : e.1 = k := le_antisymm (not_lt.mp ‹_›) (not_lt.mp ‹_›)
        simpa [hk] using h

theorem lookup_insertEntry_self : ∀ {l : List (κ × α)}, lookup k (insertEntry k v l) = some v
  | [] => by simp [insertEntry, lookup]
  | e :: es => by
    unfold insertEntry
    split
    · simp [lookup]
    split
    · rename_i hk
      simp [lookup, hk.ne, lookup_insertEntry_self]
    · simp [lookup]

theorem lookup_insertEntry_ne (h : y ≠ k) : ∀ {l : List (κ × α)},
    lookup y (insertEntry k v l) = lookup y l
  | [] => by simp [insertEntry, lookup, h.symm]
  | e :: es => by
    unfold insertEntry
    split
    · simp [lookup, h.symm]
    split
    · simp only [lookup, lookup_insertEntry_ne h]
    · have hk : e.1 = k := le_antisymm (not_lt.mp ‹_›) (not_lt.mp ‹_›)
      simp [lookup, hk, h.symm]

theorem lookup_eq_some_of_mem : ∀ {l : List (κ × α)},
    (l.map Prod.fst).Pairwise (· < ·) → (k, v) ∈ l → lookup k l = some v
  | [], _, h => absurd h not_mem_nil
  | e :: es, hs, h => by
    have hx := pairwise_cons.mp hs
    rcases mem_cons.mp h with rfl | h
    · simp [lookup]
    · have hlt : e.1 < k := hx.1 k (mem_map.mpr ⟨(k, v), h, rfl⟩)
      rw [lookup, if_neg hlt.ne]
      exact lookup_eq_some_of_mem hx.2 h

theorem mem_of_lookup : ∀ {l : List (κ × α)}, lookup k l = some v → (k, v) ∈ l
  | [], h => by simp [lookup] at h
  | e :: es, h => by
    rw [lookup] at h
    split at h
    · rename_i hk
      cases h
      exact mem_cons.mpr (.inl (by rw [← hk]))
    · exact mem_cons_of_mem _ (mem_of_lookup h)

theorem lookup_map (f : κ → α → β) (k : κ) : ∀ l : List (κ × α),
    lookup k (l.map fun e => (e.1, f e.1 e.2)) = (lookup k l).map (f k)
  | [] => rfl
  | e :: es => by
    by_cases h : e.1 = k
    · simp [lookup, h]
    · simp [lookup, h, lookup_map f k es]

/-- A finite map kept as its entries in strictly increasing key order. -/
structure OrdMap (κ : Type) [LinearOrder κ] (α : Type) where
  entries : List (κ × α)
  sorted : (entries.map Prod.fst).Pairwise (· < ·)
deriving DecidableEq

namespace OrdMap

def empty : OrdMap κ α := ⟨[], List.Pairwise.nil⟩

instance : EmptyCollection (OrdMap κ α) := ⟨empty⟩

instance : Inhabited (OrdMap κ α) := ⟨empty⟩

variable (m : OrdMap κ α)

def get? (k : κ) : Option α := lookup k m.entries

def contains (k : κ) : Bool := (m.get? k).isSome

def insert (k : κ) (v : α) : OrdMap κ α :=
  ⟨insertEntry k v m.entries, sorted_insertEntry m.sorted⟩

/-- Keeps the entries whose key and value satisfy the test. -/
def retain (p : κ → α → Bool) : OrdMap κ α :=
  ⟨m.entries.filter fun e => p e.1 e.2,
    m.sorted.sublist (filter_sublist.map Prod.fst)⟩

def erase (k : κ) : OrdMap κ α := m.retain fun x _ => decide (x ≠ k)

def keys : OrdSet κ := ⟨m.entries.map Prod.fst, m.sorted⟩

def values : List α := m.entries.map Prod.snd

def size : Nat := m.entries.length

def mapValues (f : κ → α → β) : OrdMap κ β :=
  ⟨m.entries.map fun e => (e.1, f e.1 e.2), by simpa [Function.comp_def] using m.sorted⟩

/-- Keeps the present value of a key, or installs the given one. -/
def orInsert (k : κ) (v : α) : OrdMap κ α :=
  match m.get? k with
  | some _ => m
  | none => m.insert k v

def popFirst : OrdMap κ α :=
  ⟨m.entries.tail, m.sorted.sublist ((tail_sublist _).map Prod.fst)⟩

@[simp] theorem get?_empty (k : κ) : (empty : OrdMap κ α).get? k = none := rfl

@[simp] theorem get?_insert_self (k : κ) (v : α) :
    (m.insert k v).get? k = some v := lookup_insertEntry_self

theorem get?_insert_ne (v : α) (h : y ≠ k) : (m.insert k v).get? y = m.get? y :=
  lookup_insertEntry_ne h

theorem get?_insert (k y : κ) (v : α) : (m.insert k v).get? y = if y = k then some v else m.get? y := by
  split
  · rename_i h
    rw [h, get?_insert_self]
  · rename_i h
    exact get?_insert_ne m v h

variable {m : OrdMap κ α}

theorem get?_eq_some_iff : m.get? k = some v ↔ (k, v) ∈ m.entries :=
  ⟨mem_of_lookup, lookup_eq_some_of_mem m.sorted⟩

theorem get?_retain_some {p : κ → α → Bool} :
    (m.retain p).get? k = some v ↔ m.get? k = some v ∧ p k v = true := by
  rw [get?_eq_some_iff, get?_eq_some_iff]
  simp [retain]

theorem get?_erase_some : (m.erase k).get? y = some v ↔ m.get? y = some v ∧ y ≠ k := by
  rw [erase, get?_retain_some]
  simp

@[simp] theorem get?_erase_self (m : OrdMap κ α) (k : κ) : (m.erase k).get? k = none := by
  cases h : (m.erase k).get? k with
  | none => rfl
  | some v => exact absurd rfl (get?_erase_some.mp h).2

theorem get?_mapValues (m : OrdMap κ α) (f : κ → α → β) (k : κ) :
    (m.mapValues f).get? k = (m.get? k).map (f k) := lookup_map f k m.entries

theorem get?_orInsert (m : OrdMap κ α) (k y : κ) (v : α) :
    (m.orInsert k v).get? y = if y = k then some ((m.get? k).getD v) else m.get? y := by
  unfold orInsert
  split
  · rename_i w hw
    split
    · rename_i hy
      simp [hy, hw]
    · rfl
  · rename_i hw
    rw [get?_insert]
    simp [hw]

theorem get?_foldl_orInsert (f : κ → α) : ∀ (l : List κ) (m : OrdMap κ α),
    (l.foldl (fun m x => m.orInsert x (f x)) m).get? k = some v → m.get? k = some v ∨ v = f k
  | [], _, h => .inl h
  | x :: xs, m, h => by
    rcases get?_foldl_orInsert f xs (m.orInsert x (f x)) h with old | new
    · rw [get?_orInsert] at old
      split at old
      · rename_i same
        cases had : m.get? k with
        | none =>
          rw [← same, had] at old
          exact .inr (Option.some.inj old).symm
        | some w =>
          rw [← same, had] at old
          exact .inl old
      · exact .inl old
    · exact .inr new

theorem get?_foldl_insert (f : κ → α) (k : κ) : ∀ (l : List κ) (m : OrdMap κ α),
    (l.foldl (fun m x => m.insert x (f x)) m).get? k = if k ∈ l then some (f k) else m.get? k
  | [], m => by simp
  | x :: rest, m => by
    rw [foldl_cons, get?_foldl_insert f k rest, get?_insert]
    by_cases later : k ∈ rest
    · rw [if_pos later, if_pos (mem_cons_of_mem _ later)]
    by_cases same : k = x
    · subst same
      rw [if_neg later, if_pos rfl, if_pos mem_cons_self]
    · rw [if_neg later, if_neg same, if_neg (by simp [same, later])]

theorem mem_keys : k ∈ m.keys ↔ ∃ v, m.get? k = some v := by
  rw [← OrdSet.mem_elems]
  simp only [keys, mem_map, Prod.exists, exists_and_right, exists_eq_right, get?_eq_some_iff]

end OrdMap

end Ordered
