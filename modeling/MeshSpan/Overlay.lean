import Mathlib

/- Sequential files and the layered content that represents them.

   A file is a list of values; positions past its end hold `fill` once the file
   grows over them. A layered content is a base list with patches applied on
   top, later patches over earlier ones, read position by position
   (`content`). `window g offset n` is the stretch of such a reading that a
   reader sees, and the lemmas below say what copying a slice, resizing and
   writing at an offset do to a window. -/

namespace MeshSpan

open List

namespace Overlay

variable {α : Type}

/-! ## Windows -/

variable (g : Nat → α)

/-- The values of `g` at the `n` positions from `offset` on. -/
def window (offset n : Nat) : List α := (range n).map fun k => g (offset + k)

@[simp] theorem length_window (offset n : Nat) : (window g offset n).length = n := by
  simp [window]

theorem getElem?_window (offset n i : Nat) :
    (window g offset n)[i]? = if i < n then some (g (offset + i)) else none := by
  by_cases h : i < n
  · simp [window, h]
  · simp [window, h]

variable {g : Nat → α} {n offset : Nat}

theorem window_congr {h : Nat → α} (same : ∀ i, offset ≤ i → i < offset + n → g i = h i) :
    window g offset n = window h offset n := by
  apply map_congr_left
  intro k hk
  have bound := mem_range.mp hk
  exact same _ (Nat.le_add_right _ _) (by omega)

theorem slice_window (g : Nat → α) (n start length : Nat) :
    ((window g 0 n).drop start).take length = window g start (min length (n - start)) := by
  apply ext_getElem?
  intro i
  rw [getElem?_take, getElem?_drop, getElem?_window, getElem?_window]
  by_cases h : i < length
  · by_cases h' : start + i < n
    · rw [if_pos h, if_pos h', if_pos (by omega), zero_add]
    · rw [if_pos h, if_neg h', if_neg (by omega)]
  · rw [if_neg h, if_neg (by omega)]

theorem window_getD (fill : α) (l : List α) : window (l.getD · fill) 0 l.length = l := by
  apply ext_getElem?
  intro i
  rw [getElem?_window]
  by_cases h : i < l.length
  · rw [if_pos h, zero_add, getD_eq_getElem _ _ h, getElem?_eq_getElem h]
  · rw [if_neg h, getElem?_eq_none (by omega)]

/-! ## Copying a slice -/

/-- `bytes` copied over `target` from `start` on. -/
def put (start : Nat) (bytes target : List α) : List α :=
  target.take start ++ bytes ++ target.drop (start + bytes.length)

theorem getElem?_put {start : Nat} {bytes target : List α} (fits : start ≤ target.length) (i : Nat) :
    (put start bytes target)[i]? =
      if i < start then target[i]? else if i < start + bytes.length then bytes[i - start]? else target[i]? := by
  have short : (target.take start).length = start := by simp [fits]
  unfold put
  by_cases before : i < start
  · rw [if_pos before, append_assoc, getElem?_append_left (by omega),
      getElem?_take_of_lt before]
  · rw [if_neg before, append_assoc, getElem?_append_right (by omega), short]
    by_cases inside : i < start + bytes.length
    · rw [if_pos inside, getElem?_append_left (by omega)]
    · rw [if_neg inside, getElem?_append_right (by omega), getElem?_drop]
      congr 1
      omega

/-! ## Patches -/

structure Patch (α : Type) where
  offset : Nat
  bytes : List α

def Patch.Covers (p : Patch α) (i : Nat) : Prop := p.offset ≤ i ∧ i < p.offset + p.bytes.length

instance (p : Patch α) (i : Nat) : Decidable (p.Covers i) := by
  unfold Patch.Covers
  infer_instance

/-- A reading with one patch laid over it. -/
def patched (fill : α) (g : Nat → α) (p : Patch α) (i : Nat) : α :=
  if p.offset ≤ i ∧ i < p.offset + p.bytes.length then p.bytes.getD (i - p.offset) fill else g i

variable {fill : α} {i : Nat}

theorem patched_inside {p : Patch α} (lower : p.offset ≤ i) (upper : i < p.offset + p.bytes.length) :
    patched fill g p i = p.bytes.getD (i - p.offset) fill :=
  if_pos ⟨lower, upper⟩

theorem patched_outside {p : Patch α} (outside : i < p.offset ∨ p.offset + p.bytes.length ≤ i) :
    patched fill g p i = g i := by
  apply if_neg
  omega

/-- The reading of a base list under a sequence of patches, the last one on top. -/
def content (fill : α) (base : List α) (patches : List (Patch α)) : Nat → α :=
  patches.foldl (patched fill) (base.getD · fill)

theorem content_snoc (fill : α) (base : List α) (patches : List (Patch α)) (p : Patch α) :
    content fill base (patches ++ [p]) = patched fill (content fill base patches) p := by
  simp [content]

/-- Nothing retained lies at position `i`. -/
def Bare (base : List α) (patches : List (Patch α)) (i : Nat) : Prop :=
  base.length ≤ i ∧ ∀ p ∈ patches, ¬ p.Covers i

instance (base : List α) (patches : List (Patch α)) (i : Nat) : Decidable (Bare base patches i) := by
  unfold Bare
  infer_instance

theorem content_of_bare {base : List α} {patches : List (Patch α)} (bare : Bare base patches i) :
    content fill base patches i = fill := by
  obtain ⟨past, uncovered⟩ := bare
  induction patches using reverseRecOn with
  | nil => simp [content, past]
  | append_singleton earlier p ih =>
    have missed : ¬ p.Covers i := uncovered p (by simp)
    unfold Patch.Covers at missed
    rw [content_snoc, patched_outside (by omega)]
    exact ih fun q hq => uncovered q (by simp [hq])

theorem patched_append (fill : α) (g : Nat → α) (offset : Nat) (front back : List α) :
    patched fill (patched fill g ⟨offset, front⟩) ⟨offset + front.length, back⟩ =
      patched fill g ⟨offset, front ++ back⟩ := by
  funext i
  simp only [patched, length_append]
  by_cases before : i < offset
  · rw [if_neg (by omega), if_neg (by omega), if_neg (by omega)]
  by_cases first : i < offset + front.length
  · rw [if_neg (by omega), if_pos (by omega), if_pos (by omega),
      getD_append front back fill _ (by omega)]
  · by_cases second : i < offset + front.length + back.length
    · rw [if_pos (by omega), if_pos (by omega), getD_append_right front back fill _ (by omega)]
      congr 1
      omega
    · rw [if_neg (by omega), if_neg (by omega), if_neg (by omega)]

theorem put_window (fill : α) (g : Nat → α) {start : Nat} {bytes : List α}
    (fits : start + bytes.length ≤ n) :
    put start bytes (window g offset n) = window (patched fill g ⟨offset + start, bytes⟩) offset n := by
  apply ext_getElem?
  intro i
  rw [getElem?_put (by rw [length_window]; omega), getElem?_window, getElem?_window]
  by_cases before : i < start
  · rw [if_pos before, if_pos (by omega), if_pos (by omega),
      patched_outside (.inl (show offset + i < offset + start by omega))]
  · rw [if_neg before]
    by_cases inside : i < start + bytes.length
    · have position : offset + i - (offset + start) = i - start := by omega
      rw [if_pos inside, if_pos (by omega),
        patched_inside (show offset + start ≤ offset + i by omega)
          (show offset + i < offset + start + bytes.length by omega), position,
        getElem?_eq_getElem (by omega), getD_eq_getElem bytes _ (by omega)]
    · rw [if_neg inside]
      by_cases within : i < n
      · rw [if_pos within, if_pos within,
          patched_outside (.inr (show offset + start + bytes.length ≤ offset + i by omega))]
      · rw [if_neg within, if_neg within]

/-- Patching a window with the part of a patch that overlaps it is patching it with the whole. -/
theorem put_overlap (fill : α) (g : Nat → α) (p : Patch α) {first last : Nat}
    (hfirst : first = max offset p.offset) (hlast : last = min (offset + n) (p.offset + p.bytes.length))
    (overlap : first < last) :
    put (first - offset) ((p.bytes.drop (first - p.offset)).take (last - first)) (window g offset n) =
      window (patched fill g p) offset n := by
  have width : ((p.bytes.drop (first - p.offset)).take (last - first)).length = last - first := by
    rw [length_take, length_drop]
    omega
  have start : offset + (first - offset) = first := by omega
  rw [put_window fill g (by omega), start]
  apply window_congr
  intro i lower upper
  by_cases inside : p.offset ≤ i ∧ i < p.offset + p.bytes.length
  · have clipped : first ≤ i ∧ i < first + (last - first) := by omega
    rw [patched_inside inside.1 inside.2, patched_inside clipped.1 (by rw [width]; exact clipped.2),
      getD_eq_getElem?_getD, getElem?_take, if_pos (show i - first < last - first by omega),
      getElem?_drop, getD_eq_getElem?_getD]
    congr 2
    show first - p.offset + (i - first) = i - p.offset
    omega
  · have unclipped : i < first ∨ first + (last - first) ≤ i := by omega
    rw [patched_outside (p := p) (by omega), patched_outside (by rw [width]; exact unclipped)]

theorem window_patched_outside (fill : α) (g : Nat → α) (p : Patch α)
    (apart : min (offset + n) (p.offset + p.bytes.length) ≤ max offset p.offset) :
    window (patched fill g p) offset n = window g offset n := by
  apply window_congr
  intro i lower upper
  exact patched_outside (by omega)

/-! ## Sequential files -/

/-- The file cut or extended to `n` values; an extension holds `fill`. -/
def resize (fill : α) (n : Nat) (file : List α) : List α :=
  file.take n ++ replicate (n - file.length) fill

/-- The file with its range from `offset` on overwritten, grown first where it is too short. -/
def writeAt (fill : α) (offset : Nat) (bytes file : List α) : List α :=
  put offset bytes (resize fill (max file.length (offset + bytes.length)) file)

/-- The reading of a file that ends at `n`: `fill` past the end. -/
def cut (fill : α) (g : Nat → α) (n i : Nat) : α := if i < n then g i else fill

theorem resize_window (fill : α) (g : Nat → α) (size n : Nat) :
    resize fill n (window g 0 size) = window (cut fill g size) 0 n := by
  apply ext_getElem?
  intro i
  unfold resize
  rw [getElem?_window, length_window]
  have taken : ((window g 0 size).take n).length = min n size := by simp
  by_cases kept : i < min n size
  · rw [getElem?_append_left (by omega), getElem?_take_of_lt (by omega), getElem?_window,
      if_pos (by omega), if_pos (by omega), zero_add, cut, if_pos (by omega)]
  · rw [getElem?_append_right (by omega), getElem?_replicate, taken, zero_add]
    by_cases grown : i < n
    · rw [if_pos (by omega), if_pos grown, cut, if_neg (by omega)]
    · rw [if_neg (by omega), if_neg grown]

theorem writeAt_window (fill : α) (g : Nat → α) (size offset : Nat) (bytes : List α) :
    writeAt fill offset bytes (window g 0 size) =
      window (patched fill (cut fill g size) ⟨offset, bytes⟩) 0 (max size (offset + bytes.length)) := by
  have written : put offset bytes (window (cut fill g size) 0 (max size (offset + bytes.length))) =
      window (patched fill (cut fill g size) ⟨0 + offset, bytes⟩) 0 (max size (offset + bytes.length)) :=
    put_window fill _ (by omega)
  unfold writeAt
  rw [length_window, resize_window, written, zero_add]

end Overlay

end MeshSpan
