import MeshSpan.Stage.Store

/- What the store retains for a stage, and what its readers return.

   A stage retains the base content it was opened on and the parts of its
   journal. `retained` is that layered content read position by position. A read
   returns a window of it (`readRangeWithBase_eq`), and a completion streams it up
   to the final length (`streamCompleteInner_eq`): the overlay of one range, the
   buffered copy loop of one part and the final copy all compute the same
   reading. -/

namespace MeshSpan

open Ordered Overlay List

namespace StageStore

variable {store : StageStore} {stageId : StageId}

/-! ## The retained content of a stage -/

def patchOf (store : StageStore) (w : StoredWrite) : Patch UInt8 :=
  { offset := w.offset.val, bytes := (store.parts w.stageId w.operationId).getD [] }

def patches (store : StageStore) (stageId : StageId) : List (Patch UInt8) :=
  (store.loadStageWrites stageId).map store.patchOf

/-- What the base and the parts of a stage hold at each position. -/
def retained (store : StageStore) (stageId : StageId) (base : List UInt8) : Nat → UInt8 :=
  content 0 base (store.patches stageId)

/-- The part of the row is in place with the row's length and digest. -/
def PartInPlace (store : StageStore) (w : StoredWrite) : Prop :=
  ∃ bytes, store.parts w.stageId w.operationId = some bytes ∧ bytes.length = w.length.val ∧
    Digest.content bytes = w.digest

/-- Rows of one stage carry rising sequence numbers. -/
def Journalled (store : StageStore) : Prop :=
  store.writes.Pairwise fun a b => a.stageId = b.stageId → a.sequence.val < b.sequence.val

theorem loadStageWrites_eq (h : store.Journalled) (stageId : StageId) :
    store.loadStageWrites stageId = store.writes.filter fun w => decide (w.stageId = stageId) := by
  apply Pairwise.insertionSort_eq
  rw [pairwise_filter]
  refine h.imp ?_
  intro a b rising ha hb
  have ha' : a.stageId = stageId := of_decide_eq_true ha
  have hb' : b.stageId = stageId := of_decide_eq_true hb
  exact .inl (rising (ha'.trans hb'.symm))

variable {w : StoredWrite}

theorem mem_loadStageWrites :
    w ∈ store.loadStageWrites stageId ↔ w ∈ store.writes ∧ w.stageId = stageId := by
  simp [loadStageWrites]

theorem patches_congr {store' : StageStore} (hwrites : store'.writes = store.writes)
    (hparts : ∀ w ∈ store.writes, store'.parts w.stageId w.operationId = store.parts w.stageId w.operationId)
    (stageId : StageId) : store'.patches stageId = store.patches stageId := by
  unfold patches loadStageWrites
  rw [hwrites]
  apply map_congr_left
  intro w hw
  have mem : w ∈ store.writes := (mem_loadStageWrites.mp hw).1
  simp only [patchOf, hparts w mem]

theorem PartInPlace.patch_length (h : store.PartInPlace w) :
    (store.patchOf w).bytes.length = w.length.val := by
  obtain ⟨bytes, part, width, _⟩ := h
  simp only [patchOf, part, Option.getD_some, width]

theorem PartInPlace.partBytes_eq (h : store.PartInPlace w) :
    store.partBytes w = .ok (store.patchOf w).bytes := by
  obtain ⟨bytes, part, width, digest⟩ := h
  simp only [partBytes, patchOf, part, Option.getD_some]
  rw [if_neg]
  rintro (wrong | wrong)
  · exact wrong width
  · exact wrong digest

theorem StoredWrite.endOffset_eq (w : StoredWrite) : w.endOffset = .ok (w.offset.val + w.length.val) := by
  have fits : w.offset.val + w.length.val ≤ u64Max := by
    have h₁ := w.offset.le
    have h₂ := w.length.le
    unfold i64Max at h₁ h₂
    unfold u64Max
    omega
  simp only [StoredWrite.endOffset, checkedAdd, if_pos fits]

/-! ## Reads -/

variable {offset : Nat}

/-- Overlaying one part on a window of a reading is reading through its patch. -/
theorem applyPartToRange_window (inPlace : store.PartInPlace w) (g : Nat → UInt8)
    {n : Nat} (bounded : offset + n ≤ u64Max) : store.applyPartToRange offset (window g offset n) w =
      .ok (window (patched 0 g (store.patchOf w)) offset n) := by
  have range : checkedAdd offset n = some (offset + n) := if_pos bounded
  have width := inPlace.patch_length
  simp only [applyPartToRange, inPlace.partBytes_eq, length_window, range, StoredWrite.endOffset_eq, bind,
    Except.bind]
  split
  · rename_i apart
    rw [window_patched_outside]
    rw [width]
    exact apart
  · rename_i overlap
    congr 1
    exact put_overlap 0 g (store.patchOf w) rfl (by rw [width]; rfl) (by
      show max offset w.offset.val < min (offset + n) (w.offset.val + w.length.val)
      omega)

theorem foldlM_applyPartToRange {n : Nat} (bounded : offset + n ≤ u64Max) :
    ∀ (writes : List StoredWrite) (g : Nat → UInt8), (∀ w ∈ writes, store.PartInPlace w) →
      writes.foldlM (store.applyPartToRange offset) (window g offset n) =
        .ok (window ((writes.map store.patchOf).foldl (patched 0) g) offset n)
  | [], _, _ => rfl
  | w :: rest, g, inPlace => by
    have tail := foldlM_applyPartToRange bounded rest (patched 0 g (store.patchOf w))
      (fun v hv => inPlace v (by simp [hv]))
    simp only [foldlM_cons, applyPartToRange_window (inPlace w (by simp)) g bounded, bind, Except.bind,
      map_cons, foldl_cons]
    exact tail

theorem put_base_window (base : List UInt8) (offset n : Nat) :
    put 0 ((base.drop offset).take (min n (base.length - offset))) (replicate n 0) =
      window (base.getD · 0) offset n := by
  have width : ((base.drop offset).take (min n (base.length - offset))).length =
      min n (base.length - offset) := by
    rw [length_take, length_drop]
    omega
  apply ext_getElem?
  intro i
  rw [getElem?_put (Nat.zero_le _), if_neg (Nat.not_lt_zero i), Nat.zero_add, width, getElem?_window,
    getElem?_replicate, Nat.sub_zero, getElem?_take, getElem?_drop]
  by_cases inside : i < min n (base.length - offset)
  · rw [if_pos inside, if_pos inside, if_pos (by omega), getD_eq_getElem?_getD,
      getElem?_eq_getElem (by omega), Option.getD_some]
  · rw [if_neg inside]
    by_cases within : i < n
    · rw [if_pos within, if_pos within, getD_eq_default _ _ (by omega)]
    · rw [if_neg within, if_neg within]

/-- The conditions of `read_range_with_base` on the row of the stage. -/
structure AdmitsRead (store : StageStore) (r : StageRangeReadRequest) (stage : StoredStage) : Prop where
  bounds : r.stageFence ≠ 0 ∧ r.length ≤ maximumStageReadBytes ∧ r.offset + r.length ≤ u64Max
  row : store.stages.get? r.stageId = some stage
  current : stage.state = .live ∧ stage.fence.val = r.stageFence ∧ stage.sequence.val = r.expectedSequence ∧
    r.observedAt < stage.expiresAt

variable {base : List UInt8} {r : StageRangeReadRequest} {finalLength : Nat}
  {loadBase : Option (List UInt8)}

theorem admitsRead_of_ok {bytes : List UInt8} (h : store.readRangeWithBase r base = .ok bytes) :
    ∃ stage, store.AdmitsRead r stage := by
  obtain ⟨_, checked, stage, loaded, h⟩ := bind₂_eq_ok.mp h
  unfold loadStage at loaded
  obtain ⟨bounds, checked⟩ := guard_ok.mp checked
  simp only [checkedAdd, ite_eq_right_iff, reduceCtorEq, imp_false] at bounds
  split at loaded
  · cases loaded
  rename_i row present
  cases loaded
  obtain ⟨current, h⟩ := guard_ok.mp h
  refine ⟨stage, ⟨⟨?_, ?_, ?_⟩, present, ⟨?_, ?_, ?_, ?_⟩⟩⟩ <;>
    first | omega | tauto

variable {stage : StoredStage}

/-- An admitted read returns the window of the retained content up to the logical length. -/
theorem readRangeWithBase_eq (inPlace : ∀ w ∈ store.writes, store.PartInPlace w)
    (admitted : store.AdmitsRead r stage) : store.readRangeWithBase r base =
      .ok (window (store.retained r.stageId base) r.offset
        (min r.length (stage.logicalLength base.length - r.offset))) := by
  obtain ⟨⟨fence, size, noOverflow⟩, row, live, sameFence, sameSequence, unexpired⟩ := admitted
  have checked : validateRangeRead r = .ok () := by
    unfold validateRangeRead
    rw [if_neg]
    simp only [checkedAdd, if_pos noOverflow]
    rintro (h | h | h)
    · exact fence h
    · omega
    · cases h
  have loaded : store.loadStage r.stageId = .ok stage := by simp only [loadStage, row]
  have within : r.offset + min r.length (stage.logicalLength base.length - r.offset) ≤ u64Max := by omega
  have overlaid := foldlM_applyPartToRange within (store.loadStageWrites r.stageId)
    (base.getD · 0) fun w hw => inPlace w (mem_loadStageWrites.mp hw).1
  simp only [readRangeWithBase, checked, loaded, bind, Except.bind]
  rw [if_neg (by rw [live, sameFence, sameSequence]; simp; omega), put_base_window, overlaid]
  simp only [length_window]
  rw [if_neg (by omega)]
  rfl

/-! ## Completion -/

/-- One buffer written at its own offset, clipped at the final length. -/
theorem writeAll_window {image : Image} {g : Nat → UInt8} (chunk : List UInt8)
    (shown : image.bytes = window g 0 finalLength) (sought : image.position = min offset finalLength)
    (room : offset < finalLength) (present : 0 < chunk.length) :
    image.writeAll (chunk.take (min (finalLength - offset) chunk.length)) =
      ⟨window (patched 0 g ⟨offset, chunk⟩) 0 finalLength, min (offset + chunk.length) finalLength⟩ := by
  have source : chunk.take (min (finalLength - offset) chunk.length) =
      (chunk.drop (offset - offset)).take (min finalLength (offset + chunk.length) - offset) := by
    rw [Nat.sub_self, drop_zero]
    congr 1
    omega
  have laid : put (offset - 0) ((chunk.drop (offset - offset)).take
      (min finalLength (offset + chunk.length) - offset)) (window g 0 finalLength) =
      window (patched 0 g ⟨offset, chunk⟩) 0 finalLength :=
    put_overlap 0 g ⟨offset, chunk⟩ (zero_max offset).symm (by rw [zero_add]) (by omega)
  have start : image.position = offset := by omega
  have width : (chunk.take (min (finalLength - offset) chunk.length)).length =
      min (finalLength - offset) chunk.length := by
    rw [length_take]
    omega
  unfold Image.writeAll
  rw [start, width, source, shown, ← laid, Nat.sub_zero]
  congr 1
  omega

/-- The copy loop lays the rest of the part over the image, clipped at the final length. -/
theorem copyChunks_window : ∀ (fuel : Nat) (image : Image) (total : Nat)
    (rest : List UInt8) (g : Nat → UInt8), rest.length ≤ fuel → offset + total + rest.length ≤ u64Max →
    image.bytes = window g 0 finalLength → image.position = min (offset + total) finalLength →
    ∃ position, copyChunks offset finalLength fuel image total rest =
      .ok (⟨window (patched 0 g ⟨offset + total, rest⟩) 0 finalLength, position⟩, total + rest.length) := by
  intro fuel
  induction fuel with
  | zero =>
    intro image total rest g enough _ shown _
    have done : rest = [] := length_eq_zero_iff.mp (Nat.le_zero.mp enough)
    subst done
    refine ⟨image.position, ?_⟩
    rw [window_patched_outside 0 g ⟨offset + total, []⟩ (by simp), ← shown]
    rfl
  | succ fuel ih =>
    intro image total rest g enough bounded shown sought
    by_cases done : rest = []
    · subst done
      refine ⟨image.position, ?_⟩
      rw [window_patched_outside 0 g ⟨offset + total, []⟩ (by simp), ← shown]
      rfl
    · have positive : 0 < rest.length := length_pos_iff.mpr done
      have buffer : 0 < copyBufferBytes := by decide
      -- one buffer: `front` is copied now, `back` is left for the next rounds
      obtain ⟨front, hfront⟩ : ∃ front, front = rest.take copyBufferBytes := ⟨_, rfl⟩
      obtain ⟨back, hback⟩ : ∃ back, back = rest.drop copyBufferBytes := ⟨_, rfl⟩
      have split : rest = front ++ back := by rw [hfront, hback, take_append_drop]
      have present : 0 < front.length := by
        rw [hfront, length_take]
        omega
      have lengths : rest.length = front.length + back.length := by rw [split, length_append]
      have start : checkedAdd offset total = some (offset + total) := if_pos (by omega)
      have next : checkedAdd total front.length = some (total + front.length) := if_pos (by omega)
      obtain ⟨written, hwritten⟩ : ∃ written, written =
          (if offset + total < finalLength then
            image.writeAll (front.take (min (finalLength - (offset + total)) front.length)) else image) :=
        ⟨_, rfl⟩
      have copied : written.bytes = window (patched 0 g ⟨offset + total, front⟩) 0 finalLength ∧
          written.position = min (offset + (total + front.length)) finalLength := by
        by_cases room : offset + total < finalLength
        · rw [hwritten, if_pos room, writeAll_window front shown sought room present, add_assoc]
          exact ⟨rfl, rfl⟩
        · rw [hwritten, if_neg room]
          refine ⟨?_, by omega⟩
          rw [shown, window_patched_outside]
          dsimp only
          omega
      obtain ⟨position, tail⟩ := ih written (total + front.length) back (patched 0 g ⟨offset + total, front⟩)
        (by omega) (by omega) copied.1 copied.2
      refine ⟨position, ?_⟩
      unfold copyChunks
      rw [← hfront, ← hback, if_neg (ne_nil_of_length_pos present), start, next]
      dsimp only
      rw [← hwritten, tail, split, ← patched_append, length_append, add_assoc, add_assoc]

theorem applyPartToImage_window (inPlace : store.PartInPlace w) (g : Nat → UInt8) (finalLength : Nat) :
    store.applyPartToImage finalLength (window g 0 finalLength) w =
      .ok (window (patched 0 g (store.patchOf w)) 0 finalLength) := by
  have width := inPlace.patch_length
  obtain ⟨bytes, part, length, digest⟩ := inPlace
  have patch : store.patchOf w = ⟨w.offset.val, bytes⟩ := by simp only [patchOf, part, Option.getD_some]
  have fits : w.offset.val + 0 + bytes.length ≤ u64Max := by
    have h₁ := w.offset.le
    have h₂ := w.length.le
    unfold i64Max at h₁ h₂
    unfold u64Max
    omega
  obtain ⟨position, copied⟩ := copyChunks_window bytes.length
    ⟨window g 0 finalLength, min w.offset.val finalLength⟩ 0 bytes g (le_refl _) fits rfl rfl
  simp only [applyPartToImage, part, copied, bind, Except.bind, zero_add, add_zero, patch]
  rw [if_pos ⟨length, digest⟩]

theorem foldlM_applyPartToImage (finalLength : Nat) : ∀ (writes : List StoredWrite) (g : Nat → UInt8),
    (∀ w ∈ writes, store.PartInPlace w) →
      writes.foldlM (store.applyPartToImage finalLength) (window g 0 finalLength) =
        .ok (window ((writes.map store.patchOf).foldl (patched 0) g) 0 finalLength)
  | [], _, _ => rfl
  | w :: rest, g, inPlace => by
    have tail := foldlM_applyPartToImage finalLength rest (patched 0 g (store.patchOf w))
      (fun v hv => inPlace v (by simp [hv]))
    simp only [foldlM_cons, applyPartToImage_window (inPlace w (by simp)) g finalLength, bind,
      Except.bind, map_cons, foldl_cons]
    exact tail

theorem copyCompleteImage_eq : ∀ (fuel remaining : Nat) (unread destination : List UInt8),
    remaining ≤ fuel → remaining ≤ unread.length →
      copyCompleteImage fuel remaining unread destination = .ok (destination ++ unread.take remaining)
  | 0, remaining, unread, destination, enough, _ => by
    have done : remaining = 0 := by omega
    simp [copyCompleteImage, done]
  | fuel + 1, remaining, unread, destination, enough, present => by
    by_cases done : remaining = 0
    · simp [copyCompleteImage, done]
    have buffer : 0 < copyBufferBytes := by decide
    have width : (unread.take (min remaining copyBufferBytes)).length = min remaining copyBufferBytes := by
      rw [length_take]
      omega
    have tail := copyCompleteImage_eq fuel (remaining - min remaining copyBufferBytes)
      (unread.drop (min remaining copyBufferBytes))
      (destination ++ unread.take (min remaining copyBufferBytes)) (by omega)
      (by rw [length_drop]; omega)
    simp only [copyCompleteImage]
    rw [if_neg done, if_neg (ne_nil_of_length_pos (by omega)), width, tail, append_assoc]
    congr 2
    conv_rhs => rw [← take_append_drop (min remaining copyBufferBytes) (unread.take remaining)]
    rw [take_take, drop_take, min_eq_left (min_le_left _ _)]

theorem writeRanges_ok (writes : List StoredWrite) : ∃ ranges, writeRanges writes = .ok ranges := by
  have general : ∀ (writes : List StoredWrite) (ranges : List (Nat × Nat)), ∃ merged,
      writes.foldlM (fun ranges w => do
        let last ← w.endOffset
        return insertRange ranges (w.offset.val, last)) ranges = (.ok merged : Except StageStoreError _) := by
    intro writes
    induction writes with
    | nil => exact fun ranges => ⟨ranges, rfl⟩
    | cons w rest ih =>
      intro ranges
      obtain ⟨merged, tail⟩ := ih (insertRange ranges (w.offset.val, w.offset.val + w.length.val))
      refine ⟨merged, ?_⟩
      rw [foldlM_cons, StoredWrite.endOffset_eq w]
      exact tail
  exact general writes []

/-- The conditions of a completion over a base of `baseLength` bytes on the row of the stage. -/
structure AdmitsCompletion (store : StageStore) (r : StageCompletionRequest) (stage : StoredStage)
    (baseLength : Nat) : Prop where
  row : store.stages.get? r.stageId = some stage
  fits : r.finalLength ≤ stage.maximumBytes.val
  declared : ∀ length, stage.declaredLogicalLength = some length → length.val = r.finalLength
  current : stage.state = .live ∧ stage.fence.val = r.stageFence ∧ stage.sequence.val = r.expectedSequence ∧
    r.observedAt < stage.expiresAt
  covered : r.sparse = true ∨ ∀ written, writeRanges (store.loadStageWrites r.stageId) = .ok written →
    covers (if min baseLength r.finalLength ≠ 0 then insertRange written (0, min baseLength r.finalLength)
      else written) r.finalLength = true

variable {r : StageCompletionRequest}

theorem admitsCompletion_of_ok {baseLength : Nat} {done : CompletedStage}
    (h : store.streamCompleteInner r baseLength loadBase = .ok done) :
    ∃ stage, store.AdmitsCompletion r stage baseLength := by
  obtain ⟨stage, loaded, _, checked, written, ranges, h⟩ := bind₃_eq_ok.mp h
  have present : store.stages.get? r.stageId = some stage := by
    unfold loadStage at loaded
    split at loaded
    · cases loaded
    · cases loaded
      assumption
  obtain ⟨lengths, checked⟩ := guard_ok.mp checked
  obtain ⟨current, checked⟩ := guard_ok.mp checked
  simp only [not_or, not_lt, Bool.not_eq_true] at lengths
  simp only [not_or, not_not, not_le, ne_eq] at current
  refine ⟨stage, present, lengths.1, ?_, current, ?_⟩
  · intro length declared
    have same := lengths.2
    rw [declared] at same
    simpa using same
  · by_cases sparse : r.sparse = true
    · exact .inl sparse
    right
    intro written' ranges'
    rw [ranges] at ranges'
    cases ranges'
    by_contra uncovered
    rw [if_pos ⟨by simpa using sparse, by simpa using uncovered⟩] at h
    cases h

section

variable (inPlace : ∀ w ∈ store.writes, store.PartInPlace w)

include inPlace

/-- An admitted completion streams the retained content up to the final length. -/
theorem streamCompleteInner_eq (source : loadBase = some base ∨ (loadBase = none ∧ base = []))
    (admitted : store.AdmitsCompletion r stage base.length) :
    store.streamCompleteInner r base.length loadBase =
      .ok { bytes := window (store.retained r.stageId base) 0 r.finalLength, logicalLength := r.finalLength,
            contentDigest := .content (window (store.retained r.stageId base) 0 r.finalLength) } := by
  obtain ⟨row, fits, declared, ⟨live, sameFence, sameSequence, unexpired⟩, covered⟩ := admitted
  have loaded : store.loadStage r.stageId = .ok stage := by simp only [loadStage, row]
  have checked : validateCompletion stage r = .ok () := by
    unfold validateCompletion
    rw [if_neg, if_neg]
    · simp [live, sameFence, sameSequence, unexpired]
    · rintro (large | differs)
      · omega
      · cases length : stage.declaredLogicalLength with
        | none => simp [length] at differs
        | some d => simp [length, declared d length] at differs
  obtain ⟨written, ranges⟩ := writeRanges_ok (store.loadStageWrites r.stageId)
  have complete : ¬ (r.sparse = false ∧ covers (if min base.length r.finalLength ≠ 0 then
      insertRange written (0, min base.length r.finalLength) else written) r.finalLength = false) := by
    rintro ⟨dense, uncovered⟩
    rcases covered with sparse | covered
    · rw [dense] at sparse
      cases sparse
    · rw [covered written ranges] at uncovered
      cases uncovered
  have overlaid : (store.loadStageWrites r.stageId).foldlM (store.applyPartToImage r.finalLength)
      (window (base.getD · 0) 0 r.finalLength) =
      .ok (window (store.retained r.stageId base) 0 r.finalLength) :=
    foldlM_applyPartToImage r.finalLength (store.loadStageWrites r.stageId)
      (base.getD · 0) fun w hw => inPlace w (mem_loadStageWrites.mp hw).1
  have streamed := copyCompleteImage_eq r.finalLength r.finalLength
    (window (store.retained r.stageId base) 0 r.finalLength) [] (le_refl _) (by simp)
  rw [take_of_length_le (by simp), nil_append] at streamed
  have based : put 0 (base.take (min base.length r.finalLength)) (replicate r.finalLength 0) =
      window (base.getD · 0) 0 r.finalLength := by
    have general := put_base_window base 0 r.finalLength
    rwa [Nat.sub_zero, drop_zero, Nat.min_comm] at general
  simp only [streamCompleteInner, loaded, checked, ranges, bind, Except.bind]
  rw [if_neg complete]
  rcases source with given | ⟨absent, empty⟩
  · subst given
    have width : (base.take (min base.length r.finalLength)).length = min base.length r.finalLength := by
      rw [length_take]
      omega
    dsimp only
    rw [if_neg (not_not.mpr width), based, overlaid]
    dsimp only
    rw [streamed]
    rfl
  · subst absent empty
    have blank : replicate r.finalLength (0 : UInt8) =
        window (([] : List UInt8).getD · 0) 0 r.finalLength := by
      rw [← based]
      simp [put]
    rw [if_neg (by simp), blank, overlaid]
    dsimp only
    rw [streamed]
    rfl

theorem streamComplete_eq (admitted : store.AdmitsCompletion r stage 0) : store.streamComplete r =
      .ok { bytes := window (store.retained r.stageId []) 0 r.finalLength, logicalLength := r.finalLength,
            contentDigest := .content (window (store.retained r.stageId []) 0 r.finalLength) } := by
  have source : (none : Option (List UInt8)) = some [] ∨
      ((none : Option (List UInt8)) = none ∧ ([] : List UInt8) = []) := .inr ⟨rfl, rfl⟩
  have streamed := streamCompleteInner_eq inPlace source admitted
  rwa [length_nil] at streamed

theorem streamCompleteWithBase_eq (admitted : store.AdmitsCompletion r stage base.length) :
    store.streamCompleteWithBase r base =
      .ok { bytes := window (store.retained r.stageId base) 0 r.finalLength, logicalLength := r.finalLength,
            contentDigest := .content (window (store.retained r.stageId base) 0 r.finalLength) } :=
  streamCompleteInner_eq inPlace (.inl rfl) admitted

end

end StageStore

end MeshSpan
