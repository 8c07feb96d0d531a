import MeshSpan.Stage.Content

/- A private write stage as a sequential file.

   The sequential file of a stage starts as the base content; every mutation the
   store reports as applied changes it the way a file changes (`StageSession.step`):
   a write overwrites its range and grows the file with zeros, a length change cuts
   it or grows it with zeros, an initial truncation empties it. The store itself
   never discards a byte: it keeps the base and every part and moves only the
   recorded length. What it shows is therefore the sequential file as long as no
   step lengthens the file over positions where a byte is still retained
   (`StageSession.Grows`), and a file cut and lengthened again shows its old bytes
   (`regrown_file_shows_old_bytes`). -/

namespace MeshSpan

open Ordered Overlay StageStore List Option

namespace StageStore

variable {store : StageStore} {stageId : StageId}

/-! ## What each mutation changes -/

variable {stage : StoredStage} {observedAt : Int}

theorem loadStage_ok (h : store.loadStage stageId = .ok stage) :
    store.stages.get? stageId = some stage := by
  unfold loadStage at h
  split at h
  · cases h
  · cases h
    assumption

theorem stageInt_ok {n : Nat} {v : SqlInt} (h : stageInt n = .ok v) : v.val = n := by
  unfold stageInt at h
  split at h
  · cases h
    rfl
  · cases h

variable {store' : StageStore}

theorem register_ok {r : StageRegistration} (h : store.register r = .ok store') :
    store' = store ∨ (store.stages.get? r.stageId = none ∧ ∃ row : StoredStage,
      row.declaredLogicalLength = none ∧ row.logicalExtent = .zero ∧
        store' = { store with stages := store.stages.insert r.stageId row }) := by
  obtain ⟨-, -, fence, _, maximum, _, h⟩ := bind₃_eq_ok.mp h
  split at h
  · obtain ⟨-, h⟩ := admit_ok.mp h
    exact .inl (Except.ok.inj h).symm
  · rename_i absent
    exact .inr ⟨absent, _, rfl, rfl, (Except.ok.inj h).symm⟩

variable {operationId : OperationId} {stageFence : Nat} {receipt : StageLengthReceipt}
  {r : StageLengthRequest} {w : StageWrite}

theorem initialiseTruncation_ok {outcome : StageWriteOutcome}
    (h : store.initialiseTruncation stageId operationId stageFence observedAt = .ok (store', outcome)) :
    (outcome = .replayed ∧ store' = store) ∨ (outcome = .applied ∧ ∃ row one truncations,
      store.stages.get? stageId = some row ∧ row.sequence.val = 0 ∧ store' = { store with
        stages := store.stages.insert stageId
          { row with sequence := one, logicalExtent := .zero, declaredLogicalLength := some .zero }
        truncations }) := by
  obtain ⟨-, h⟩ := guard_ok.mp h
  split at h
  · obtain ⟨stored, replay, h⟩ := bind_eq_ok.mp h
    have outcome_eq : stored = .replayed := by
      unfold truncationReplay at replay
      dsimp only at replay
      split at replay <;> cases replay
      rfl
    cases h
    exact .inl ⟨outcome_eq, rfl⟩
  · obtain ⟨-, -, fence, _, h⟩ := bind₂_eq_ok.mp h
    split at h
    · cases h
    rename_i row present
    obtain ⟨conditions, h⟩ := admit_ok.mp h
    cases h
    exact .inr ⟨rfl, row, _, _, present, conditions.2.2.1, rfl⟩

theorem loadLengthReceipt_replayed (h : store.loadLengthReceipt operationId = .ok (some receipt)) :
    receipt.outcome = .replayed := by
  unfold loadLengthReceipt at h
  split at h
  · cases h
  · obtain ⟨-, h⟩ := guard_ok.mp h
    cases h
    rfl

theorem setLogicalLength_ok (h : store.setLogicalLength r = .ok (store', receipt)) :
    (receipt.outcome = .replayed ∧ store' = store) ∨ (receipt.outcome = .applied ∧
      ∃ stage sequence logicalLength lengths, store.stages.get? r.stageId = some stage ∧
        sequence.val = stage.sequence.val + 1 ∧ logicalLength.val = r.logicalLength ∧
        store' = { store with
          stages := store.stages.insert r.stageId
            { stage with sequence, declaredLogicalLength := some logicalLength }
          lengths }) := by
  obtain ⟨-, -, stored, loaded, h⟩ := bind₂_eq_ok.mp h
  split at h
  · obtain ⟨-, h⟩ := admit_ok.mp h
    cases h
    exact .inl ⟨loadLengthReceipt_replayed loaded, rfl⟩
  · obtain ⟨-, -, stage, present, -, -, h⟩ := bind₃_eq_ok.mp h
    split at h
    · cases h
    rename_i next advanced
    obtain ⟨sequence, hsequence, logicalLength, hlength, fence, _, h⟩ := bind₃_eq_ok.mp h
    cases h
    have step := (checkedAdd_some advanced).1
    exact .inr ⟨rfl, stage, sequence, logicalLength, _, loadStage_ok present,
      (stageInt_ok hsequence).trans step, stageInt_ok hlength, rfl⟩

theorem renewLease_ok {r : StageLeaseRequest} {receipt : StageLeaseReceipt}
    (h : store.renewLease r = .ok (store', receipt)) :
    store' = store ∨ ∃ stage fence leases, store.stages.get? r.stageId = some stage ∧ store' = { store with
      stages := store.stages.insert r.stageId { stage with fence, expiresAt := r.leaseExpiresAt }
      leases } := by
  obtain ⟨-, -, stored, loaded, h⟩ := bind₂_eq_ok.mp h
  split at h
  · obtain ⟨-, h⟩ := admit_ok.mp h
    cases h
    exact .inl rfl
  · obtain ⟨-, -, stage, present, resulting, _, h⟩ := bind₃_eq_ok.mp h
    obtain ⟨-, h⟩ := guard_ok.mp h
    obtain ⟨fence, _, expected, _, h⟩ := bind₂_eq_ok.mp h
    cases h
    exact .inr ⟨stage, fence, _, loadStage_ok present, rfl⟩

theorem abort_ok {r : StageAbortRequest} {receipt : StageAbortReceipt}
    (h : store.abort r = .ok (store', receipt)) :
    store' = store ∨ ∃ stage aborts, store.stages.get? r.stageId = some stage ∧ store' = { store with
      stages := store.stages.insert r.stageId { stage with state := .aborted }
      aborts } := by
  obtain ⟨-, h⟩ := guard_ok.mp h
  obtain ⟨stored, loaded, h⟩ := bind_eq_ok.mp h
  split at h
  · obtain ⟨-, h⟩ := admit_ok.mp h
    cases h
    exact .inl rfl
  · obtain ⟨-, -, stage, present, h⟩ := bind₂_eq_ok.mp h
    obtain ⟨-, h⟩ := guard_ok.mp h
    obtain ⟨fence, _, h⟩ := bind_eq_ok.mp h
    cases h
    exact .inr ⟨stage, _, loadStage_ok present, rfl⟩

theorem loadWrite_none (h : store.loadWrite operationId = none)
    {w : StoredWrite} (mem : w ∈ store.writes) : w.operationId ≠ operationId := by
  have := find?_eq_none.mp h w mem
  simpa using this

/-- What `install_part` leaves: the part of the write in place, every other part as it was. -/
theorem installPart_ok (h : store.installPart stageId w = .ok store') :
    ∃ parts, store' = { store with parts } ∧ parts stageId w.operationId = some w.bytes ∧
      ∀ s o, o ≠ w.operationId → parts s o = store.parts s o := by
  unfold installPart at h
  split at h
  · rename_i bytes present
    obtain ⟨_, verified, h⟩ := bind_eq_ok.mp h
    cases h
    refine ⟨store.parts, rfl, ?_, fun _ _ _ => rfl⟩
    simp only [verifyPart, present] at verified
    obtain ⟨same, verified⟩ := guard_ok.mp verified
    simp only [not_or, not_not] at same
    rw [present, same.1]
  · cases h
    refine ⟨_, rfl, by simp, ?_⟩
    intro s o other
    simp [other]

/-- A write row appended to the journal of stage `stageId`, with its part in place. -/
structure Records (store : StageStore) (stageId : StageId) (w : StageWrite) (store' : StageStore) where
  stage : StoredStage
  row : StoredWrite
  last : SqlInt
  present : store.stages.get? stageId = some stage
  rowStage : row.stageId = stageId
  rowOperation : row.operationId = w.operationId
  rowSequence : row.sequence.val = stage.sequence.val + 1
  rowOffset : row.offset.val = w.offset
  rowLength : row.length.val = w.bytes.length
  rowDigest : Digest.content w.bytes = row.digest
  lastOffset : last.val = w.offset + w.bytes.length
  stages : store'.stages = store.stages.insert stageId (extended stage row.sequence last)
  writes : store'.writes = store.writes ++ [row]
  part : store'.parts stageId w.operationId = some w.bytes
  others : ∀ v ∈ store.writes, store'.parts v.stageId v.operationId = store.parts v.stageId v.operationId

theorem recordWrite_ok {installed recorded : StageStore}
    {parts : StageId → OperationId → Option (List UInt8)}
    (hinstalled : installed = { store with parts }) (part : parts stageId w.operationId = some w.bytes)
    (others : ∀ v ∈ store.writes, parts v.stageId v.operationId = store.parts v.stageId v.operationId)
    (present : store.stages.get? stageId = some stage) (digest : Digest.content w.bytes = w.digest)
    (h : installed.recordWrite stageId stage w observedAt = .ok recorded) :
    Nonempty (store.Records stageId w recorded) := by
  subst hinstalled
  unfold recordWrite at h
  dsimp only at h
  split at h
  · rename_i last next hlast hnext
    obtain ⟨sequence, hsequence, fence, hfence, offset, hoffset, h⟩ := bind₃_eq_ok.mp h
    obtain ⟨length, hlength, lastInt, hlastInt, h⟩ := bind₂_eq_ok.mp h
    rw [present] at h
    obtain ⟨-, h⟩ := admit_ok.mp h
    cases h
    exact ⟨{ stage, row := _, last := lastInt, present, rowStage := rfl, rowOperation := rfl
             rowSequence := (stageInt_ok hsequence).trans (checkedAdd_some hnext).1
             rowOffset := stageInt_ok hoffset
             rowLength := stageInt_ok hlength
             rowDigest := digest
             lastOffset := (stageInt_ok hlastInt).trans (checkedAdd_some hlast).1
             stages := rfl, writes := rfl, part, others }⟩
  · cases h

/-- A write that is not applied leaves the rows and the parts they name alone. -/
structure Unrecorded (store store' : StageStore) : Prop where
  stages : store'.stages = store.stages
  writes : store'.writes = store.writes
  parts : ∀ v ∈ store.writes, store'.parts v.stageId v.operationId = store.parts v.stageId v.operationId

theorem Unrecorded.refl (store : StageStore) : Unrecorded store store := ⟨rfl, rfl, fun _ _ => rfl⟩

theorem write_cases (store : StageStore) (stageId : StageId) (w : StageWrite) (observedAt : Int) :
    ((store.write stageId w observedAt).2 = .ok .applied ∧
      Nonempty (store.Records stageId w (store.write stageId w observedAt).1)) ∨
    ((store.write stageId w observedAt).2 ≠ .ok .applied ∧
      Unrecorded store (store.write stageId w observedAt).1) := by
  unfold write
  split
  · exact .inr ⟨nofun, .refl store⟩
  rename_i stage loaded
  split
  · exact .inr ⟨nofun, .refl store⟩
  rename_i checked
  split
  · split
    · exact .inr ⟨nofun, .refl store⟩
    · split
      · exact .inr ⟨nofun, .refl store⟩
      · exact .inr ⟨nofun, .refl store⟩
  · rename_i fresh
    split
    · exact .inr ⟨nofun, .refl store⟩
    rename_i installed hinstalled
    obtain ⟨parts, shape, part, others⟩ := installPart_ok hinstalled
    have kept : ∀ v ∈ store.writes, parts v.stageId v.operationId =
        store.parts v.stageId v.operationId :=
      fun v hv => others _ _ (loadWrite_none fresh hv)
    have digest : Digest.content w.bytes = w.digest := by
      obtain ⟨-, checked⟩ := guard_ok.mp checked
      obtain ⟨conditions, checked⟩ := guard_ok.mp checked
      simp only [not_or, not_not, ne_eq] at conditions
      exact conditions.2
    split
    · refine .inr ⟨nofun, ?_⟩
      rw [shape]
      exact ⟨rfl, rfl, kept⟩
    · rename_i recorded hrecorded
      exact .inl ⟨rfl, recordWrite_ok shape part kept (loadStage_ok loaded) digest hrecorded⟩

end StageStore

/-! ## Sessions -/

inductive StageAction where
  | register (r : StageRegistration)
  | initialiseTruncation (stageId : StageId) (operationId : OperationId) (stageFence : Nat) (observedAt : Int)
  | write (stageId : StageId) (w : StageWrite) (observedAt : Int)
  | setLogicalLength (r : StageLengthRequest)
  | renewLease (r : StageLeaseRequest)
  | abort (r : StageAbortRequest)

/-- The store together with the sequential file of every stage. -/
structure StageSession where
  store : StageStore
  files : StageId → List UInt8

namespace StageSession

variable (base : StageId → List UInt8)

/-- No stage yet; the file of a stage starts as its base. -/
def start : StageSession := { store := .empty, files := base }

/-- The call on the store, and on the file what an applied mutation does to a file. -/
def step (σ : StageSession) : StageAction → StageSession
  | .register r =>
    match σ.store.register r with
    | .ok store => { σ with store }
    | .error _ => σ
  | .initialiseTruncation stageId operationId stageFence observedAt =>
    match σ.store.initialiseTruncation stageId operationId stageFence observedAt with
    | .ok (store, .applied) => { store, files := Function.update σ.files stageId [] }
    | .ok (store, .replayed) => { σ with store }
    | .error _ => σ
  | .write stageId w observedAt =>
    let result := σ.store.write stageId w observedAt
    match result.2 with
    | .ok .applied =>
      { store := result.1
        files := Function.update σ.files stageId (writeAt 0 w.offset w.bytes (σ.files stageId)) }
    | _ => { σ with store := result.1 }
  | .setLogicalLength r =>
    match σ.store.setLogicalLength r with
    | .ok (store, receipt) =>
      match receipt.outcome with
      | .applied =>
        { store, files := Function.update σ.files r.stageId (resize 0 r.logicalLength (σ.files r.stageId)) }
      | .replayed => { σ with store }
    | .error _ => σ
  | .renewLease r =>
    match σ.store.renewLease r with
    | .ok (store, _) => { σ with store }
    | .error _ => σ
  | .abort r =>
    match σ.store.abort r with
    | .ok (store, _) => { σ with store }
    | .error _ => σ

def run (σ : StageSession) (actions : List StageAction) : StageSession := actions.foldl step σ

/-- Below `last` and past the current end of the stage's file nothing is retained. -/
def BareBelow (store : StageStore) (stageId : StageId) (last : Nat) : Prop :=
  match store.stages.get? stageId with
  | none => True
  | some stage =>
    ∀ i < last, stage.logicalLength (base stageId).length ≤ i → Bare (base stageId) (store.patches stageId) i

instance (base : StageId → List UInt8) (store : StageStore) (stageId : StageId) (last : Nat) :
    Decidable (BareBelow base store stageId last) := by
  unfold BareBelow
  split <;> infer_instance

/-- The step lengthens a file only over positions at which nothing is retained: a new length up to
itself, a write up to its first byte. -/
def Grows (store : StageStore) : StageAction → Prop
  | .write stageId w _ => BareBelow base store stageId w.offset
  | .setLogicalLength r => BareBelow base store r.stageId r.logicalLength
  | _ => True

instance (base : StageId → List UInt8) (store : StageStore) (a : StageAction) :
    Decidable (Grows base store a) := by
  unfold Grows
  split <;> infer_instance

/-- Every step of the run grows its file over bare positions. -/
def GrowsAll (base : StageId → List UInt8) : StageSession → List StageAction → Prop
  | _, [] => True
  | σ, a :: rest => Grows base σ.store a ∧ GrowsAll base (σ.step a) rest

instance instDecidableGrowsAll (base : StageId → List UInt8) : ∀ (σ : StageSession) (actions : List StageAction),
    Decidable (GrowsAll base σ actions)
  | _, [] => inferInstanceAs (Decidable True)
  | σ, a :: rest =>
    have := instDecidableGrowsAll base (σ.step a) rest
    inferInstanceAs (Decidable (Grows base σ.store a ∧ GrowsAll base (σ.step a) rest))

/-! ## The invariant -/

/-- The journal is in order with its parts in place, and every stage shows its file. -/
structure Shows (base : StageId → List UInt8) (σ : StageSession) : Prop where
  inPlace : ∀ w ∈ σ.store.writes, σ.store.PartInPlace w
  journalled : σ.store.Journalled
  counted : ∀ w ∈ σ.store.writes, ∃ stage, σ.store.stages.get? w.stageId = some stage ∧
    0 < w.sequence.val ∧ w.sequence.val ≤ stage.sequence.val ∧
      (stage.declaredLogicalLength = none → w.offset.val + w.length.val ≤ stage.logicalExtent.val)
  shown : ∀ s stage, σ.store.stages.get? s = some stage →
    σ.files s = window (σ.store.retained s (base s)) 0 (stage.logicalLength (base s).length)
  unregistered : ∀ s, σ.store.stages.get? s = none → σ.files s = base s

variable {base : StageId → List UInt8} {σ : StageSession}

theorem shows_start (base : StageId → List UInt8) : Shows base (start base) where
  inPlace := nofun
  journalled := Pairwise.nil
  counted := nofun
  shown := nofun
  unregistered := fun _ _ => rfl

variable {store : StageStore} {s : StageId}

theorem Shows.restage (h : Shows base σ) {files : StageId → List UInt8}
    {row : StoredStage} (stages : store.stages = σ.store.stages.insert s row)
    (writes : store.writes = σ.store.writes) (parts : store.parts = σ.store.parts)
    (advances : ∀ stage, σ.store.stages.get? s = some stage → stage.sequence.val ≤ row.sequence.val ∧
      (row.declaredLogicalLength = none → stage.declaredLogicalLength = none ∧
        stage.logicalExtent.val ≤ row.logicalExtent.val))
    (others : ∀ x, x ≠ s → files x = σ.files x)
    (shown : files s = window (σ.store.retained s (base s)) 0 (row.logicalLength (base s).length)) :
    Shows base { store, files } := by
  have retained : ∀ x b, store.retained x b = σ.store.retained x b := fun x b => by
    unfold retained
    rw [patches_congr writes (fun w _ => by rw [parts])]
  refine ⟨?_, ?_, ?_, ?_, ?_⟩
  · intro w hw
    unfold PartInPlace
    rw [parts]
    exact h.inPlace w (writes ▸ hw)
  · unfold Journalled
    rw [writes]
    exact h.journalled
  · intro w hw
    obtain ⟨stage, present, positive, bounded, extent⟩ := h.counted w (writes ▸ hw)
    rw [stages, OrdMap.get?_insert]
    by_cases same : w.stageId = s
    · rw [if_pos same]
      obtain ⟨sequence, lengths⟩ := advances stage (same ▸ present)
      refine ⟨row, rfl, positive, bounded.trans sequence, fun undeclared => ?_⟩
      obtain ⟨before, grown⟩ := lengths undeclared
      exact (extent before).trans grown
    · rw [if_neg same]
      exact ⟨stage, present, positive, bounded, extent⟩
  · intro x stage present
    dsimp only at present ⊢
    rw [stages, OrdMap.get?_insert] at present
    rw [retained]
    by_cases same : x = s
    · rw [if_pos same] at present
      cases present
      subst same
      exact shown
    · rw [if_neg same] at present
      rw [others x same]
      exact h.shown x stage present
  · intro x absent
    dsimp only at absent ⊢
    rw [stages, OrdMap.get?_insert] at absent
    by_cases same : x = s
    · rw [if_pos same] at absent
      cases absent
    · rw [if_neg same] at absent
      rw [others x same]
      exact h.unregistered x absent

theorem Shows.unrecorded (h : Shows base σ)
    (same : Unrecorded σ.store store) : Shows base { σ with store } := by
  have retained : ∀ x b, store.retained x b = σ.store.retained x b := fun x b => by
    unfold retained
    rw [patches_congr same.writes same.parts]
  refine ⟨?_, ?_, ?_, ?_, ?_⟩
  · intro w hw
    have mem : w ∈ σ.store.writes := same.writes ▸ hw
    unfold PartInPlace
    rw [same.parts w mem]
    exact h.inPlace w mem
  · unfold Journalled
    rw [same.writes]
    exact h.journalled
  · intro w hw
    rw [same.stages]
    exact h.counted w (same.writes ▸ hw)
  · intro x stage present
    rw [same.stages] at present
    rw [retained]
    exact h.shown x stage present
  · intro x absent
    rw [same.stages] at absent
    exact h.unregistered x absent

variable {w : StageWrite}

section

variable (h : Shows base σ) (rec : σ.store.Records s w store)

include h rec

theorem journalled_records : store.Journalled := by
  unfold Journalled
  rw [rec.writes, pairwise_append]
  refine ⟨h.journalled, pairwise_singleton _ _, ?_⟩
  intro a ha c hc same
  cases mem_singleton.mp hc
  obtain ⟨stage, present, _, bounded, _⟩ := h.counted a ha
  rw [same, rec.rowStage, rec.present] at present
  cases present
  have := rec.rowSequence
  omega

theorem retained_records (x : StageId) (b : List UInt8) : store.retained x b =
      if x = s then patched 0 (σ.store.retained s b) ⟨w.offset, w.bytes⟩ else σ.store.retained x b := by
  have patch : store.patchOf rec.row = ⟨w.offset, w.bytes⟩ := by
    simp only [patchOf, rec.rowStage, rec.rowOperation, rec.part, rec.rowOffset, getD_some]
  have earlier : ∀ v ∈ σ.store.writes, store.patchOf v = σ.store.patchOf v := fun v hv => by
    simp only [patchOf, rec.others v hv]
  have kept : (σ.store.writes.filter fun v => decide (v.stageId = x)).map store.patchOf =
      σ.store.patches x := by
    unfold patches
    rw [loadStageWrites_eq h.journalled]
    exact map_congr_left fun v hv => earlier v (mem_of_mem_filter hv)
  unfold retained
  have patches : store.patches x = if x = s then σ.store.patches x ++ [⟨w.offset, w.bytes⟩]
      else σ.store.patches x := by
    conv_lhs => unfold patches
    rw [loadStageWrites_eq (journalled_records h rec), rec.writes, filter_append, map_append, kept]
    by_cases same : x = s
    · rw [if_pos same, filter_cons_of_pos (by simp [rec.rowStage, same]), filter_nil, map_cons,
        patch, map_nil]
    · rw [if_neg same, filter_cons_of_neg (by simp [rec.rowStage]; exact (same ·.symm)),
        filter_nil, map_nil, append_nil]
  rw [patches]
  by_cases same : x = s
  · rw [if_pos same, if_pos same, same, content_snoc]
  · rw [if_neg same, if_neg same]

omit h rec in
theorem logicalLength_extended (stage : StoredStage) (sequence last : SqlInt) (baseLength : Nat) :
    (extended stage sequence last).logicalLength baseLength =
      max (stage.logicalLength baseLength) last.val := by
  unfold StoredStage.logicalLength extended
  cases stage.declaredLogicalLength with
  | none =>
    simp only [map_none]
    split <;> omega
  | some declared =>
    simp only [map_some]
    split <;> omega

/-- A write that grows its file over bare positions shows the file written at its offset. -/
theorem Shows.records_shown (bare : BareBelow base σ.store s w.offset) :
    writeAt 0 w.offset w.bytes (σ.files s) =
      window (store.retained s (base s)) 0
        ((extended rec.stage rec.row.sequence rec.last).logicalLength (base s).length) := by
  rw [h.shown s rec.stage rec.present, writeAt_window, logicalLength_extended, rec.lastOffset,
    retained_records h rec, if_pos rfl]
  apply window_congr
  intro i _ upper
  by_cases written : w.offset ≤ i ∧ i < w.offset + w.bytes.length
  · rw [patched_inside written.1 written.2, patched_inside written.1 written.2]
  rw [patched_outside (by dsimp only; omega), patched_outside (by dsimp only; omega), cut]
  split
  · rfl
  · -- between the old end and the first written byte
    simp only [BareBelow, rec.present] at bare
    exact (content_of_bare (bare i (by omega) (by omega))).symm

theorem Shows.records (bare : BareBelow base σ.store s w.offset) :
    Shows base { store, files := Function.update σ.files s (writeAt 0 w.offset w.bytes (σ.files s)) } := by
  refine ⟨?_, journalled_records h rec, ?_, ?_, ?_⟩
  · intro v hv
    dsimp only at hv
    rw [rec.writes] at hv
    unfold PartInPlace
    rcases mem_snoc.mp hv with old | rfl
    · rw [rec.others v old]
      exact h.inPlace v old
    · rw [rec.rowStage, rec.rowOperation]
      exact ⟨w.bytes, rec.part, rec.rowLength.symm, rec.rowDigest⟩
  · intro v hv
    rw [rec.writes] at hv
    rw [rec.stages, OrdMap.get?_insert]
    have sequence := rec.rowSequence
    have last := rec.lastOffset
    rcases mem_snoc.mp hv with old | rfl
    · obtain ⟨stage, present, positive, bounded, extent⟩ := h.counted v old
      by_cases same : v.stageId = s
      · rw [same, rec.present] at present
        cases present
        refine ⟨_, if_pos same, positive, ?_, ?_⟩
        · dsimp only [extended]
          omega
        · intro undeclared
          have before := extent (by simpa [extended] using undeclared)
          dsimp only [extended]
          split <;> omega
      · exact ⟨stage, by rw [if_neg same]; exact present, positive, bounded, extent⟩
    · refine ⟨_, if_pos rec.rowStage, by omega, le_refl _, fun _ => ?_⟩
      have offset := rec.rowOffset
      have length := rec.rowLength
      dsimp only [extended]
      split <;> omega
  · intro x stage present
    dsimp only at present ⊢
    rw [rec.stages, OrdMap.get?_insert] at present
    by_cases same : x = s
    · rw [if_pos same] at present
      cases present
      subst same
      rw [Function.update_self]
      exact h.records_shown rec bare
    · rw [if_neg same] at present
      rw [Function.update_of_ne same, retained_records h rec, if_neg same]
      exact h.shown x stage present
  · intro x absent
    dsimp only at absent ⊢
    rw [rec.stages, OrdMap.get?_insert] at absent
    by_cases same : x = s
    · rw [if_pos same] at absent
      cases absent
    · rw [if_neg same] at absent
      rw [Function.update_of_ne same]
      exact h.unregistered x absent

end

theorem Shows.patches_nil (h : Shows base σ) (absent : σ.store.stages.get? s = none) :
    σ.store.patches s = [] := by
  unfold patches
  rw [map_eq_nil_iff, eq_nil_iff_forall_not_mem]
  intro w hw
  obtain ⟨mem, same⟩ := mem_loadStageWrites.mp hw
  obtain ⟨stage, present, _⟩ := h.counted w mem
  rw [same, absent] at present
  cases present

/-- A new length that grows the file over bare positions shows the file at that length. -/
theorem Shows.resized (h : Shows base σ) (present : σ.store.stages.get? s = some stage) {length : Nat}
    (bare : BareBelow base σ.store s length) :
    resize 0 length (σ.files s) = window (σ.store.retained s (base s)) 0 length := by
  rw [h.shown s stage present, resize_window]
  apply window_congr
  intro i _ upper
  rw [cut]
  split
  · rfl
  · simp only [BareBelow, present] at bare
    exact (content_of_bare (bare i (by omega) (by omega))).symm

/-- What one call preserves. -/
theorem Shows.step (h : Shows base σ) (a : StageAction) (grows : Grows base σ.store a) :
    Shows base (σ.step a) := by
  cases a with
  | register r =>
    simp only [StageSession.step]
    split
    · rename_i store called
      rcases register_ok called with same | ⟨absent, row, undeclared, extent, shape⟩
      · rw [same]
        exact h
      · rw [shape]
        refine h.restage rfl rfl rfl (fun stage present => ?_) (fun _ _ => rfl) ?_
        · rw [absent] at present
          cases present
        · have length : row.logicalLength (base r.stageId).length = (base r.stageId).length := by
            simp only [StoredStage.logicalLength, undeclared, extent]
            exact Nat.max_eq_left (Nat.zero_le _)
          rw [h.unregistered _ absent, length, retained, h.patches_nil absent]
          exact (window_getD 0 _).symm
    · exact h
  | initialiseTruncation stageId operationId stageFence observedAt =>
    simp only [StageSession.step]
    split
    · rename_i store called
      rcases initialiseTruncation_ok called with ⟨other, _⟩ | ⟨_, row, one, _, present, zero, shape⟩
      · cases other
      rw [shape]
      refine h.restage rfl rfl rfl (fun stage old => ?_) (fun x hx => Function.update_of_ne hx _ _) ?_
      · rw [present] at old
        cases old
        exact ⟨by rw [zero]; exact Nat.zero_le _, nofun⟩
      · rw [Function.update_self]
        rfl
    · rename_i store called
      rcases initialiseTruncation_ok called with ⟨_, same⟩ | ⟨other, _⟩
      · rw [same]
        exact h
      · cases other
    · exact h
  | write stageId w observedAt =>
    simp only [StageSession.step]
    rcases write_cases σ.store stageId w observedAt with ⟨applied, ⟨rec⟩⟩ | ⟨other, same⟩
    · rw [applied]
      exact h.records rec grows
    · split
      · rename_i applied
        exact absurd applied other
      · exact h.unrecorded same
  | setLogicalLength r =>
    simp only [StageSession.step]
    split
    · rename_i store receipt called
      rcases setLogicalLength_ok called with
        ⟨replay, same⟩ | ⟨fresh, stage, sequence, length, _, present, next, requested, shape⟩
      · rw [replay, same]
        exact h
      · rw [fresh, shape]
        refine h.restage rfl rfl rfl (fun old hold => ?_) (fun x hx => Function.update_of_ne hx _ _) ?_
        · rw [present] at hold
          cases hold
          exact ⟨by dsimp only; omega, nofun⟩
        · rw [Function.update_self, h.resized present grows]
          simp only [StoredStage.logicalLength, requested]
    · exact h
  | renewLease r =>
    simp only [StageSession.step]
    split
    · rename_i store receipt called
      rcases renewLease_ok called with same | ⟨stage, fence, _, present, shape⟩
      · rw [same]
        exact h
      · rw [shape]
        refine h.restage rfl rfl rfl (fun old hold => ?_) (fun _ _ => rfl) (h.shown _ stage present)
        rw [present] at hold
        cases hold
        exact ⟨le_refl _, fun undeclared => ⟨undeclared, le_refl _⟩⟩
    · exact h
  | abort r =>
    simp only [StageSession.step]
    split
    · rename_i store receipt called
      rcases abort_ok called with same | ⟨stage, _, present, shape⟩
      · rw [same]
        exact h
      · rw [shape]
        refine h.restage rfl rfl rfl (fun old hold => ?_) (fun _ _ => rfl) (h.shown _ stage present)
        rw [present] at hold
        cases hold
        exact ⟨le_refl _, fun undeclared => ⟨undeclared, le_refl _⟩⟩
    · exact h

/-- What a whole run preserves. -/
theorem Shows.run (actions : List StageAction) : ∀ {σ : StageSession}, Shows base σ →
    GrowsAll base σ actions → Shows base (σ.run actions) := by
  induction actions with
  | nil => exact fun h _ => h
  | cons a rest ih => exact fun h grows => ih (h.step a grows.1) grows.2

/-! ## Retries -/

theorem step_write_retry (known : (σ.store.loadWrite w.operationId).isSome) :
    σ.step (.write s w observedAt) = σ := by
  obtain ⟨existing, found⟩ := isSome_iff_exists.mp known
  have unchanged : (σ.store.write s w observedAt).1 = σ.store ∧
      (σ.store.write s w observedAt).2 ≠ .ok .applied := by
    unfold write
    simp only [found]
    split
    · exact ⟨rfl, nofun⟩
    split
    · exact ⟨rfl, nofun⟩
    · split
      · exact ⟨rfl, nofun⟩
      · split <;> exact ⟨rfl, nofun⟩
  simp only [StageSession.step]
  split
  · rename_i applied
    exact absurd applied unchanged.2
  · rw [unchanged.1]

theorem step_length_retry (known : (σ.store.lengths.get? r.operationId).isSome) :
    σ.step (.setLogicalLength r) = σ := by
  obtain ⟨row, found⟩ := isSome_iff_exists.mp known
  simp only [StageSession.step]
  split
  · rename_i store receipt called
    have replay : store = σ.store ∧ receipt.outcome = .replayed := by
      obtain ⟨-, -, stored, loaded, called⟩ := bind₂_eq_ok.mp called
      split at called
      · obtain ⟨-, called⟩ := admit_ok.mp called
        cases called
        exact ⟨rfl, loadLengthReceipt_replayed loaded⟩
      · simp only [loadLengthReceipt, found] at loaded
        split at loaded <;> cases loaded
    rw [replay.2, replay.1]
  · rfl

theorem step_truncation_retry {operationId : OperationId}
    (known : (σ.store.truncations.get? operationId).isSome) :
    σ.step (.initialiseTruncation s operationId stageFence observedAt) = σ := by
  obtain ⟨row, found⟩ := isSome_iff_exists.mp known
  have replay : ∀ store outcome,
      σ.store.initialiseTruncation s operationId stageFence observedAt = .ok (store, outcome) →
        store = σ.store ∧ outcome = .replayed := by
    intro store outcome called
    rcases initialiseTruncation_ok called with ⟨outcome_eq, same⟩ | ⟨fresh, _⟩
    · exact ⟨same, outcome_eq⟩
    unfold initialiseTruncation at called
    rw [found] at called
    obtain ⟨-, called⟩ := guard_ok.mp called
    obtain ⟨stored, replayed, called⟩ := bind_eq_ok.mp called
    unfold truncationReplay at replayed
    dsimp only at replayed
    split at replayed <;> cases replayed
    cases called
    cases fresh
  simp only [StageSession.step]
  split
  · rename_i store called
    cases (replay _ _ called).2
  · rename_i store called
    rw [(replay _ _ called).1]
  · rfl

/-! ## The stage is a file -/

/-- Along every run whose steps lengthen a file only over bare positions, reads and completions
return the bytes of the sequential file, and retries change nothing. -/
theorem stage_is_sequential_file (base : StageId → List UInt8) (actions : List StageAction)
    (grows : GrowsAll base (start base) actions) : let σ := (start base).run actions
    (∀ s stage, σ.store.stages.get? s = some stage →
      stage.logicalLength (base s).length = (σ.files s).length) ∧
    (∀ r stage, σ.store.AdmitsRead r stage → ∃ bytes, σ.store.readRangeWithBase r (base r.stageId) = .ok bytes) ∧
    (∀ r bytes, σ.store.readRangeWithBase r (base r.stageId) = .ok bytes →
      bytes = ((σ.files r.stageId).drop r.offset).take r.length) ∧
    (∀ r stage, σ.store.AdmitsCompletion r stage (base r.stageId).length →
      ∃ done, σ.store.streamCompleteWithBase r (base r.stageId) = .ok done) ∧
    (∀ r done, σ.store.streamCompleteWithBase r (base r.stageId) = .ok done →
      r.finalLength = (σ.files r.stageId).length → done.bytes = σ.files r.stageId) ∧
    (∀ r stage, base r.stageId = [] → σ.store.AdmitsCompletion r stage 0 →
      ∃ done, σ.store.streamComplete r = .ok done) ∧
    (∀ r done, base r.stageId = [] → σ.store.streamComplete r = .ok done →
      r.finalLength = (σ.files r.stageId).length → done.bytes = σ.files r.stageId) ∧
    (∀ s w observedAt, (σ.store.loadWrite w.operationId).isSome → σ.step (.write s w observedAt) = σ) ∧
    (∀ r : StageLengthRequest, (σ.store.lengths.get? r.operationId).isSome →
      σ.step (.setLogicalLength r) = σ) ∧
    ∀ s o fence observedAt, (σ.store.truncations.get? o).isSome →
      σ.step (.initialiseTruncation s o fence observedAt) = σ := by
  intro σ
  have h : Shows base σ := Shows.run actions (shows_start base) grows
  have length : ∀ s stage, σ.store.stages.get? s = some stage →
      stage.logicalLength (base s).length = (σ.files s).length := fun s stage present => by
    rw [h.shown s stage present, length_window]
  have image : ∀ s stage, σ.store.stages.get? s = some stage →
      window (σ.store.retained s (base s)) 0 (σ.files s).length = σ.files s := fun s stage present => by
    rw [← length s stage present]
    exact (h.shown s stage present).symm
  refine ⟨length, ?_, ?_, ?_, ?_, ?_, ?_, ?_, ?_, ?_⟩
  · intro r stage admitted
    exact ⟨_, readRangeWithBase_eq h.inPlace admitted⟩
  · intro r bytes read
    obtain ⟨stage, admitted⟩ := admitsRead_of_ok read
    rw [readRangeWithBase_eq h.inPlace admitted] at read
    cases read
    rw [h.shown r.stageId stage admitted.row, slice_window]
  · intro r stage admitted
    exact ⟨_, streamCompleteWithBase_eq h.inPlace admitted⟩
  · intro r done completed final
    obtain ⟨stage, admitted⟩ := admitsCompletion_of_ok completed
    rw [streamCompleteWithBase_eq h.inPlace admitted] at completed
    cases completed
    rw [final]
    exact image r.stageId stage admitted.row
  · intro r stage unbased admitted
    exact ⟨_, streamComplete_eq h.inPlace admitted⟩
  · intro r done unbased completed final
    obtain ⟨stage, admitted⟩ := admitsCompletion_of_ok completed
    rw [streamComplete_eq h.inPlace admitted] at completed
    cases completed
    have shown := image r.stageId stage admitted.row
    rwa [unbased, ← final] at shown
  · exact fun s w observedAt known => step_write_retry known
  · exact fun r known => step_length_retry known
  · exact fun s o fence observedAt known => step_truncation_retry known

namespace Regrowth

def registration : StageRegistration :=
  { stageId := 1, stageFence := 1, maximumBytes := 16, createdAt := 0, expiresAt := 100 }

def lengthRequest (operationId : OperationId) (logicalLength : Nat) : StageLengthRequest :=
  { operationId, stageId := 1, stageFence := 1, logicalLength, observedAt := 5 }

def part (operationId : OperationId) (offset : Nat) (bytes : List UInt8) : StageAction :=
  .write 1 { operationId, stageFence := 1, offset, bytes, digest := .content bytes } 5

def readAll (expectedSequence : Nat) : StageRangeReadRequest :=
  { stageId := 1, stageFence := 1, expectedSequence, offset := 0, length := 16, observedAt := 5 }

/-- Three bytes of base, cut to one and lengthened to three again. -/
def cutAndRegrown : List StageAction :=
  [.register registration, .setLogicalLength (lengthRequest 10 1), .setLogicalLength (lengthRequest 11 3)]

/-- The file holds zeros behind its first byte; the store reads the cut bytes of the base back. -/
theorem regrown_file_shows_old_bytes : let base := fun _ => [1, 2, 3]
    let σ := (start base).run cutAndRegrown
    σ.files 1 = [1, 0, 0] ∧ σ.store.readRangeWithBase (readAll 2) (base 1) = .ok [1, 2, 3] := by
  decide +kernel

/-- A write, a cut, a write past the end and a retry, each over bare positions. -/
def bareRun : List StageAction :=
  [.register registration, part 20 0 [7, 8], .setLogicalLength (lengthRequest 21 2), part 22 4 [9],
    part 20 0 [7, 8]]

theorem bareRun_reads_file : GrowsAll (fun _ => [5]) (start fun _ => [5]) bareRun ∧
      ((start fun _ => [5]).run bareRun).store.readRangeWithBase (readAll 3) [5] = .ok [7, 8, 0, 0, 9] := by
  have grows : GrowsAll (fun _ => [5]) (start fun _ => [5]) bareRun := by decide +kernel
  have sequential := stage_is_sequential_file (fun _ => [5]) bareRun grows
  have readable :
      (((start fun _ => [5]).run bareRun).store.readRangeWithBase (readAll 3) [5]).toOption.isSome := by
    decide +kernel
  refine ⟨grows, ?_⟩
  cases read : ((start fun _ => [5]).run bareRun).store.readRangeWithBase (readAll 3) [5] with
  | error err =>
    rw [read] at readable
    cases readable
  | ok bytes =>
    rw [sequential.2.2.1 (readAll 3) bytes read]
    decide +kernel

end Regrowth

end StageSession

end MeshSpan
