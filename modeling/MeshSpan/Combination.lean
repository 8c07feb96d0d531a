import MeshSpan.Primitives

/- Ordered enumeration of fixed-size selections, and searches with early return.

   1. `combos k l` lists the `k`-element selections of `l` in the order in which a
      nested loop over rising indices meets them; `mem_combos` and
      `combos_nodup` say that it lists each selection once, `combos_lex` that the
      order is lexicographic, and `combos_loop` that it is the order of the loop.
   2. `firstSome` is a loop that can fail at any round and returns at the first
      round that finds something; nested loops are one loop over the
      concatenated rounds (`firstSome_flatMap`). -/

namespace MeshSpan

open List

namespace Combination

variable {α β ε ι : Type}

/-! ## Selections -/

/-- The `k`-element selections of a list, earlier elements first. -/
def combos : Nat → List α → List (List α)
  | 0, _ => [[]]
  | _ + 1, [] => []
  | k + 1, a :: l => (combos k l).map (a :: ·) ++ combos (k + 1) l

theorem combos_zero (l : List α) : combos 0 l = [[]] := by cases l <;> rfl

theorem mem_combos {s : List α} : ∀ {k : Nat} {l : List α}, s ∈ combos k l ↔ s.Sublist l ∧ s.length = k := by
  intro k l
  induction l generalizing k s with
  | nil =>
    cases k with
    | zero => simp [combos]
    | succ k =>
      simp only [combos, not_mem_nil, sublist_nil, false_iff, not_and]
      rintro rfl
      simp
  | cons a l ih =>
    cases k with
    | zero =>
      simp only [combos, mem_singleton, length_eq_zero_iff]
      constructor
      · rintro rfl
        simp
      · exact (·.2)
    | succ k =>
      simp only [combos, mem_append, mem_map, ih]
      constructor
      · rintro (⟨t, ⟨sub, len⟩, rfl⟩ | ⟨sub, len⟩)
        · exact ⟨sub.cons_cons a, by simp [len]⟩
        · exact ⟨sub.cons a, len⟩
      · rintro ⟨sub, len⟩
        cases sub with
        | cons _ sub => exact .inr ⟨sub, len⟩
        | cons_cons _ sub => exact .inl ⟨_, ⟨sub, by simpa using len⟩, rfl⟩

variable {k : Nat} {l : List α} {f : ι → Except ε (Option β)} {i : ι} {rest : List ι}

theorem combos_eq_nil (short : l.length < k) : combos k l = [] := by
  rw [eq_nil_iff_forall_not_mem]
  intro s hs
  obtain ⟨sub, len⟩ := mem_combos.mp hs
  have := sub.length_le
  omega

theorem combos_ne_nil (long : k ≤ l.length) : combos k l ≠ [] := by
  have taken : l.take k ∈ combos k l :=
    mem_combos.mpr ⟨take_sublist k l, length_take_of_le long⟩
  exact ne_nil_of_mem taken

/-- Selections come in lexicographic order of the positions they take. -/
theorem combos_lex {r : α → α → Prop} : ∀ {k : Nat} {l : List α}, l.Pairwise r →
    (combos k l).Pairwise (List.Lex r) := by
  intro k l sorted
  induction l generalizing k with
  | nil => cases k <;> simp [combos]
  | cons a l ih =>
    cases k with
    | zero => simp [combos]
    | succ k =>
      obtain ⟨first, rest⟩ := pairwise_cons.mp sorted
      simp only [combos]
      rw [pairwise_append]
      refine ⟨?_, ih rest, ?_⟩
      · rw [pairwise_map]
        exact (ih rest).imp (Lex.cons ·)
      · -- a selection with `a` comes before every selection without it
        intro s hs t ht
        obtain ⟨s', -, rfl⟩ := mem_map.mp hs
        obtain ⟨sub, len⟩ := mem_combos.mp ht
        cases t with
        | nil => simp at len
        | cons b t => exact Lex.rel (first b (sub.subset (mem_cons_self ..)))

theorem combos_nodup (nodup : l.Nodup) : (combos k l).Nodup := by
  have lex := combos_lex (k := k) (show l.Pairwise (· ≠ ·) from nodup)
  exact lex.imp Lex.to_ne

/-- The rounds `start..=last` of a loop over the positions of a list. -/
def rounds (l : List α) (start last : Nat) : List (α × Nat) := (l.zipIdx.take (last + 1)).drop start

theorem drop_zipIdx : ∀ (l : List α) (k n : Nat), (l.zipIdx n).drop k = (l.drop k).zipIdx (n + k)
  | [], k, n => by simp
  | a :: l, 0, n => by simp
  | a :: l, k + 1, n => by
    rw [zipIdx_cons, drop_succ_cons, drop_succ_cons, drop_zipIdx l k (n + 1),
      add_right_comm, add_assoc]

theorem rounds_eq (l : List α) (start last : Nat) :
    rounds l start last = ((l.drop start).zipIdx start).take (last + 1 - start) := by
  rw [rounds, drop_take, drop_zipIdx, zero_add]

/-- Choosing `k + 1` elements from position `start` on is a loop over the position of the first one. -/
theorem combos_loop : ∀ {rest : List α} {start : Nat}, l.drop start = rest →
    combos (k + 1) rest = (rounds l start (l.length - (k + 1))).flatMap
      (fun round => (combos k (l.drop (round.2 + 1))).map (round.1 :: ·)) := by
  intro rest
  induction rest with
  | nil =>
    intro start dropped
    simp [rounds_eq, dropped, combos]
  | cons a rest ih =>
    intro start dropped
    have next : l.drop (start + 1) = rest := by
      rw [← drop_drop, dropped, drop_one, tail_cons]
    have size : l.length = start + (rest.length + 1) := by
      have := congrArg length dropped
      simp only [length_drop, length_cons] at this
      omega
    by_cases room : k ≤ rest.length
    · rw [rounds_eq, dropped, zipIdx_cons,
        show l.length - (k + 1) + 1 - start = (l.length - (k + 1) + 1 - (start + 1)) + 1 by omega,
        take_succ_cons, flatMap_cons, combos, next, ih next, rounds_eq, next]
    · -- too few elements are left: neither side has a selection
      rw [combos_eq_nil (by simp only [length_cons]; omega)]
      symm
      rw [flatMap_eq_nil_iff]
      intro round member
      have : round.2 ≥ start := by
        rw [rounds_eq] at member
        exact le_snd_of_mem_zipIdx (mem_of_mem_take member)
      rw [combos_eq_nil (by simp only [length_drop]; omega), map_nil]

/-! ## Searches with early return -/

/-- Runs the rounds in order, stops at the first failure and returns at the first finding. -/
def firstSome (f : ι → Except ε (Option β)) : List ι → Except ε (Option β)
  | [] => .ok none
  | i :: rest => do
    match ← f i with
    | some b => .ok (some b)
    | none => firstSome f rest

theorem firstSome_cons_none (h : f i = .ok none) : firstSome f (i :: rest) = firstSome f rest := by
  simp [firstSome, h, bind, Except.bind]

theorem firstSome_cons_some {b : β} (h : f i = .ok (some b)) : firstSome f (i :: rest) = .ok (some b) := by
  simp [firstSome, h, bind, Except.bind]

theorem firstSome_cons_error {err : ε} (h : f i = .error err) : firstSome f (i :: rest) = .error err := by
  simp [firstSome, h, bind, Except.bind]

theorem firstSome_singleton (f : ι → Except ε (Option β)) (i : ι) : firstSome f [i] = f i := by
  cases h : f i with
  | error err => rw [firstSome_cons_error h]
  | ok found =>
    cases found with
    | none => rw [firstSome_cons_none h, firstSome]
    | some b => rw [firstSome_cons_some h]

theorem firstSome_congr {g : ι → Except ε (Option β)} : ∀ {l : List ι}, (∀ i ∈ l, f i = g i) →
    firstSome f l = firstSome g l := by
  intro l agree
  induction l with
  | nil => rfl
  | cons i l ih =>
    have rest := ih fun j hj => agree j (mem_cons_of_mem _ hj)
    simp only [firstSome, agree i (mem_cons_self ..), rest]

theorem firstSome_append (f : ι → Except ε (Option β)) (l m : List ι) :
    firstSome f (l ++ m) = firstSome (firstSome f ·) [l, m] := by
  induction l with
  | nil =>
    rw [nil_append, firstSome_cons_none (show firstSome f [] = .ok none from rfl),
      firstSome_singleton]
  | cons i l ih =>
    rw [cons_append]
    cases h : f i with
    | error err =>
      rw [firstSome_cons_error h, firstSome_cons_error (firstSome_cons_error h)]
    | ok found =>
      cases found with
      | none =>
        rw [firstSome_cons_none h, ih]
        simp only [firstSome, h, bind, Except.bind]
      | some b => rw [firstSome_cons_some h, firstSome_cons_some (firstSome_cons_some h)]

theorem firstSome_flatMap {κ : Type} (f : ι → Except ε (Option β)) (inner : κ → List ι) :
    ∀ l : List κ, firstSome f (l.flatMap inner) = firstSome (fun k => firstSome f (inner k)) l := by
  intro l
  induction l with
  | nil => rfl
  | cons k l ih =>
    rw [flatMap_cons, firstSome_append]
    simp only [firstSome, ih]
    cases firstSome f (inner k) with
    | error err => rfl
    | ok found =>
      cases found with
      | some b => rfl
      | none =>
        cases h : firstSome (fun k => firstSome f (inner k)) l with
        | error err => simp [bind, Except.bind]
        | ok found => cases found <;> simp [bind, Except.bind]

theorem firstSome_map {κ : Type} (f : ι → Except ε (Option β)) (g : κ → ι) :
    ∀ l : List κ, firstSome f (l.map g) = firstSome (fun k => f (g k)) l := by
  intro l
  induction l with
  | nil => rfl
  | cons k l ih => simp only [map_cons, firstSome, ih]

theorem firstSome_eq_none : ∀ {l : List ι}, firstSome f l = .ok none ↔ ∀ i ∈ l, f i = .ok none := by
  intro l
  induction l with
  | nil => simp [firstSome]
  | cons i l ih =>
    cases h : f i with
    | error err => simp [firstSome_cons_error h, h]
    | ok found =>
      cases found with
      | none => simp [firstSome_cons_none h, h, ih]
      | some b => simp [firstSome_cons_some h, h]

theorem firstSome_total : ∀ {l : List ι}, (∀ i ∈ l, ∃ answer, f i = .ok answer) →
    ∃ answer, firstSome f l = .ok answer
  | [], _ => ⟨none, rfl⟩
  | i :: l, total => by
    obtain ⟨answer, first⟩ := total i (by simp)
    cases answer with
    | none =>
      rw [firstSome_cons_none first]
      exact firstSome_total fun j member => total j (mem_cons_of_mem _ member)
    | some b => exact ⟨some b, firstSome_cons_some first⟩

theorem firstSome_cons_map {m : Except ε β} (h : f i = some <$> m) :
    firstSome f (i :: rest) = some <$> m := by
  cases m with
  | error err => exact firstSome_cons_error h
  | ok b => exact firstSome_cons_some h

theorem firstSome_skip {before : List ι} (empty : ∀ i ∈ before, f i = .ok none) :
    firstSome f (before ++ rest) = firstSome f rest := by
  rw [firstSome_append, firstSome_cons_none (firstSome_eq_none.mpr empty), firstSome_singleton]

/-- The loop finds what the first round with a finding finds, the earlier rounds having run empty. -/
theorem firstSome_eq_some {b : β} : ∀ {l : List ι}, firstSome f l = .ok (some b) ↔
      ∃ before i after, l = before ++ i :: after ∧ (∀ j ∈ before, f j = .ok none) ∧ f i = .ok (some b) := by
  intro l
  constructor
  · induction l with
    | nil => simp [firstSome]
    | cons i l ih =>
      intro found
      cases h : f i with
      | error err => rw [firstSome_cons_error h] at found; cases found
      | ok r =>
        cases r with
        | none =>
          rw [firstSome_cons_none h] at found
          obtain ⟨before, j, after, rfl, empty, hit⟩ := ih found
          refine ⟨i :: before, j, after, rfl, ?_, hit⟩
          intro k hk
          rcases mem_cons.mp hk with rfl | hk
          exacts [h, empty k hk]
        | some c =>
          rw [firstSome_cons_some h] at found
          cases found
          exact ⟨[], i, l, rfl, by simp, h⟩
  · rintro ⟨before, i, after, rfl, empty, hit⟩
    rw [firstSome_skip empty, firstSome_cons_some hit]

theorem exists_first_of_pairwise {r : α → α → Prop} {p : α → Prop} (sorted : l.Pairwise r)
    (some : ∃ x ∈ l, p x) : ∃ x ∈ l, p x ∧ ∀ y ∈ l, p y → y = x ∨ r x y := by
  induction l with
  | nil => simp at some
  | cons a l ih =>
    obtain ⟨first, rest⟩ := pairwise_cons.mp sorted
    by_cases here : p a
    · refine ⟨a, by simp, here, fun y member _ => ?_⟩
      exact (mem_cons.mp member).imp_right (first y)
    · obtain ⟨x, member, holds⟩ := some
      have later : x ∈ l := by
        rcases mem_cons.mp member with rfl | later
        exacts [absurd holds here, later]
      obtain ⟨x, member, holds, least⟩ := ih rest ⟨x, later, holds⟩
      refine ⟨x, mem_cons_of_mem _ member, holds, fun y hy py => ?_⟩
      rcases mem_cons.mp hy with rfl | hy
      exacts [absurd py here, least y hy py]

end Combination

end MeshSpan
