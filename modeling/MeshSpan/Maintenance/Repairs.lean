import MeshSpan.Maintenance.Progress

/- A repair onto any target that may receive the shard.

   A job whose source generation is out of date, or whose plan names a target that is
   draining by now, cannot commit any more. The shard can be repaired all the same: the
   deduplication key of a job is not derived from its subject, so another job for the
   shard as it is now can be queued, claimed by the node of the target and committed. -/

namespace MeshSpan.Maintenance

open Rows Repository List

/-! ## The shard as it is now -/

section

variable (s : Store) (manifest : ContentManifestId) (stripeIndex shardIndex : Nat)

def volumeOf (volume : VolumeId) : VolumeId :=
  match stripe? s manifest stripeIndex with
  | some stripe => stripe.volumeId
  | none => volume

def layoutOf : Nat :=
  match stripe? s manifest stripeIndex with
  | some stripe => stripe.currentLayoutGeneration
  | none => 1

/-- The subject of a repair of the shard, for the stripe's present volume and generation. -/
def repairSubject (volume : VolumeId) : WorkSubject :=
  .repair (volumeOf s manifest stripeIndex volume) manifest stripeIndex shardIndex
    (layoutOf s manifest stripeIndex)

def manifestDigestOf : Digest :=
  match stripe? s manifest stripeIndex with
  | some stripe => stripe.manifestDigest
  | none => .raw 1

/-- The receipt of the shard where it is now: by its route, or else at the target it was placed on. -/
def sourceReceiptOf (target : TargetId) (generation : Nat) : ShardReceipt :=
  match route? s manifest stripeIndex shardIndex with
  | some route => ⟨route.providerOperationId,
      ⟨manifestDigestOf s manifest stripeIndex, stripeIndex, shardIndex, route.shardGeneration⟩,
      route.expectedLength, route.expectedDigest, route.targetId, route.targetGeneration⟩
  | none => ⟨0, ⟨manifestDigestOf s manifest stripeIndex, stripeIndex, shardIndex, 1⟩, 1, .raw 1, target,
      generation⟩

end

section

variable {horizon : UnixMicros} {s : Store} {manifest : ContentManifestId} {stripeIndex shardIndex : Nat}
  {volume : VolumeId} {target : TargetId} {generation : Nat}

theorem route?_mem {route : Route} (found : route? s manifest stripeIndex shardIndex = some route) :
    route ∈ s.routes ∧ route.manifestId = manifest ∧ route.stripeIndex = stripeIndex ∧
      route.shardIndex = shardIndex := by
  have key := find?_some found
  simp only [Bool.and_eq_true, beq_iff_eq] at key
  exact ⟨mem_of_find?_eq_some found, key.1.1, key.1.2, key.2⟩

theorem stripe?_mem {stripe : Stripe} (found : stripe? s manifest stripeIndex = some stripe) :
    stripe ∈ s.stripes ∧ stripe.manifestId = manifest ∧ stripe.stripeIndex = stripeIndex := by
  have key := find?_some found
  simp only [Bool.and_eq_true, beq_iff_eq] at key
  exact ⟨mem_of_find?_eq_some found, key.1, key.2⟩

theorem Tables.bounds (h : Tables s) (present : targetGenerationExists s target generation) :
    0 < generation ∧ generation ≤ i64Max := by
  obtain ⟨row, mem, same⟩ := any_eq_true.mp present
  simp only [Bool.and_eq_true, beq_iff_eq] at same
  exact same.2 ▸ h.generations row mem

theorem manifestDigestOf_ne (h : Routed s) : manifestDigestOf s manifest stripeIndex ≠ zeroDigest := by
  unfold manifestDigestOf
  split
  · rename_i stripe found
    exact (h.stripes stripe (stripe?_mem found).1).digest
  · simp [zeroDigest]

theorem sourceReceiptOf_shard :
    (sourceReceiptOf s manifest stripeIndex shardIndex target generation).shard.stripeIndex = stripeIndex ∧
      (sourceReceiptOf s manifest stripeIndex shardIndex target generation).shard.shardIndex = shardIndex ∧
      (sourceReceiptOf s manifest stripeIndex shardIndex target generation).shard.manifestDigest =
        manifestDigestOf s manifest stripeIndex := by
  unfold sourceReceiptOf
  split <;> exact ⟨rfl, rfl, rfl⟩

theorem sourceReceiptOf_valid (tables : Tables s) (h : Routed s) (fits : stripeIndex ≤ i64Max)
    (present : targetGenerationExists s target generation) :
    validReceipt (sourceReceiptOf s manifest stripeIndex shardIndex target generation) = true ∧
      targetGenerationExists s (sourceReceiptOf s manifest stripeIndex shardIndex target generation).targetId
        (sourceReceiptOf s manifest stripeIndex shardIndex target generation).targetGeneration = true := by
  have digest : manifestDigestOf s manifest stripeIndex ≠ zeroDigest := manifestDigestOf_ne h
  unfold sourceReceiptOf
  split
  · rename_i route found
    have sound := h.routes route (route?_mem found).1
    refine ⟨?_, sound.target⟩
    simp [validReceipt, digest, sound.shard, sound.length, sound.digest, sound.generation, fits]
  · refine ⟨?_, present⟩
    have bounds := tables.bounds present
    have nonzero : Digest.raw 1 ≠ zeroDigest := by decide
    simp [validReceipt, digest, bounds, fits, one_le_i64Max, nonzero]

theorem sourceReceiptOf_route (h : ∀ route, route? s manifest stripeIndex shardIndex = some route →
      route.targetId = target ∧ route.targetGeneration = generation) :
    (sourceReceiptOf s manifest stripeIndex shardIndex target generation).targetId = target ∧
      (sourceReceiptOf s manifest stripeIndex shardIndex target generation).targetGeneration = generation := by
  unfold sourceReceiptOf
  split
  · rename_i route found
    exact h route found
  · exact ⟨rfl, rfl⟩

theorem validateSourceRoute_sourceReceiptOf :
    validateSourceRoute s manifest (sourceReceiptOf s manifest stripeIndex shardIndex target generation) =
      true := by
  unfold validateSourceRoute
  rw [sourceReceiptOf_shard.1, sourceReceiptOf_shard.2.1]
  unfold sourceReceiptOf
  split
  · rfl
  · rename_i route found
    rw [found]
    simp

theorem volumeOf_active (h : Routed s) (active : volumeActive s volume) :
    volumeActive s (volumeOf s manifest stripeIndex volume) = true := by
  unfold volumeOf
  split
  · rename_i stripe found
    exact (h.stripes stripe (stripe?_mem found).1).volume
  · exact active

theorem layoutOf_bounds (h : Routed s) :
    0 < layoutOf s manifest stripeIndex ∧ layoutOf s manifest stripeIndex ≤ s.revision + 1 := by
  unfold layoutOf
  split
  · rename_i stripe found
    have sound := h.stripes stripe (stripe?_mem found).1
    exact ⟨sound.positive, sound.bounded⟩
  · exact ⟨Nat.one_pos, Nat.succ_le_succ (Nat.zero_le _)⟩

theorem stripeAt_present : stripeAt s (volumeOf s manifest stripeIndex volume) manifest
    (sourceReceiptOf s manifest stripeIndex shardIndex target generation) (layoutOf s manifest stripeIndex) =
    true := by
  unfold stripeAt
  rw [sourceReceiptOf_shard.1, sourceReceiptOf_shard.2.2]
  unfold volumeOf layoutOf manifestDigestOf
  cases stripe? s manifest stripeIndex with
  | some stripe => simp
  | none => rfl

theorem Routed.next_layout (h : Routed s) {effect : RepairEffect} (mem : effect ∈ s.repairEffects)
    (sameManifest : effect.manifestId = manifest) (sameIndex : effect.stripeIndex = stripeIndex) :
    effect.replacementLayoutGeneration ≠ layoutOf s manifest stripeIndex + 1 := by
  obtain ⟨_, stripe, isStripe, manifestOf, indexOf, reached⟩ := h.effects effect mem
  unfold layoutOf
  split
  · rename_i found read
    obtain ⟨isFound, key⟩ := stripe?_mem read
    have isSame : found = stripe := h.keyed.eq_of_key isFound isStripe (by
      show (found.manifestId, found.stripeIndex) = (stripe.manifestId, stripe.stripeIndex)
      rw [key.1, key.2, manifestOf, indexOf, sameManifest, sameIndex])
    rw [isSame]
    omega
  · rename_i read
    have absent := find?_eq_none.mp read stripe isStripe
    simp [manifestOf, indexOf, sameManifest, sameIndex] at absent

variable {routes : List Route} {row : Route} {target : TargetId × Nat}

theorem route?_replaced {later : List Route} (h : replaceRepairRoute routes row = .ok later) :
    later.find? (fun old => old.manifestId == row.manifestId && old.stripeIndex == row.stripeIndex &&
      old.shardIndex == row.shardIndex) = some row := by
  have swap : ∀ old : Route, (old.manifestId == row.manifestId && old.stripeIndex == row.stripeIndex &&
      old.shardIndex == row.shardIndex) = sameShard row old := by
    intro old
    simp only [sameShard, Bool.beq_comm]
  have self : sameShard row row = true := by simp [sameShard]
  simp only [swap]
  unfold replaceRepairRoute at h
  split at h
  · cases h
  split at h
  · rename_i known
    cases h
    -- the first row of the shard is the one that is replaced
    clear swap
    induction routes with
    | nil => simp at known
    | cons first rest ih =>
      show find? (sameShard row) ((if sameShard row first then row else first) :: _) = _
      cases matched : sameShard row first with
      | true => rw [if_pos rfl, find?_cons_of_pos self]
      | false =>
        rw [if_neg Bool.false_ne_true, find?_cons_of_neg (by simp [matched])]
        refine ih (fun taken => ?_) (by simpa [matched] using known)
        rename_i free
        exact free (by simp only [any_cons, taken, Bool.or_true])
  · rename_i unknown
    cases h
    rw [find?_append, find?_eq_none.mpr (fun old mem same =>
      unknown (any_eq_true.mpr ⟨old, mem, same⟩))]
    simp [self]

end

/-! ## The commit -/

/-- A receipt that the repository takes for the shard as it is now. -/
structure Presents (s : Store) (volume : VolumeId) (manifest : ContentManifestId)
    (stripeIndex shardIndex : Nat) (source : TargetId × Nat) (receipt : ShardReceipt) : Prop where
  valid : validReceipt receipt = true
  stored : targetGenerationExists s receipt.targetId receipt.targetGeneration = true
  target : receipt.targetId = source.1
  generation : receipt.targetGeneration = source.2
  stripe : receipt.shard.stripeIndex = stripeIndex
  shard : receipt.shard.shardIndex = shardIndex
  route : validateSourceRoute s manifest receipt = true
  layout : stripeAt s (volumeOf s manifest stripeIndex volume) manifest receipt
    (layoutOf s manifest stripeIndex) = true

variable {s : Store} {volume : VolumeId} {manifest : ContentManifestId} {stripeIndex shardIndex : Nat}
  {source : TargetId × Nat}

theorem presents_sourceReceiptOf (tables : Tables s) (h : Routed s)
    (fits : stripeIndex ≤ i64Max) (present : targetGenerationExists s source.1 source.2)
    (route : ∀ route, route? s manifest stripeIndex shardIndex = some route →
      route.targetId = source.1 ∧ route.targetGeneration = source.2) :
    Presents s volume manifest stripeIndex shardIndex source
      (sourceReceiptOf s manifest stripeIndex shardIndex source.1 source.2) where
  valid := (sourceReceiptOf_valid tables h fits present).1
  stored := (sourceReceiptOf_valid tables h fits present).2
  target := (sourceReceiptOf_route route).1
  generation := (sourceReceiptOf_route route).2
  stripe := sourceReceiptOf_shard.1
  shard := sourceReceiptOf_shard.2.1
  route := validateSourceRoute_sourceReceiptOf
  layout := stripeAt_present

/-- The commit that moves the shard from where it is to a target, stored there by `provider`. -/
def repairCommit (s : Store) (holder : ClaimHolder) (volume : VolumeId) (manifest : ContentManifestId)
    (receipt : ShardReceipt) (target : TargetId × Nat) (provider : OperationId) : CommitShardRepair where
  holder := holder
  volumeId := volumeOf s manifest receipt.shard.stripeIndex volume
  manifestId := manifest
  sourceLayoutGeneration := layoutOf s manifest receipt.shard.stripeIndex
  sourceReceipt := receipt
  replacementReceipt :=
    { receipt with operationId := provider, targetId := target.1, targetGeneration := target.2 }

theorem exists_provider (s : Store) (used : OperationId) :
    ∃ provider, provider ≠ used ∧ (∀ route ∈ s.routes, route.providerOperationId ≠ provider) ∧
      ∀ effect ∈ s.repairEffects, effect.replacementProviderOperationId ≠ provider := by
  obtain ⟨provider, unused⟩ := exists_notMem (used :: (s.routes.map Route.providerOperationId ++
    s.repairEffects.map RepairEffect.replacementProviderOperationId))
  simp only [mem_cons, mem_append, mem_map, not_or, not_exists, not_and] at unused
  exact ⟨provider, unused.1, unused.2.1, unused.2.2⟩

theorem replaceRepairRoute_accepted
    (unused : ∀ old ∈ routes, old.providerOperationId ≠ row.providerOperationId) :
    ∃ later, replaceRepairRoute routes row = .ok later := by
  unfold replaceRepairRoute
  rw [if_neg]
  · split <;> exact ⟨_, rfl⟩
  · rw [any_eq_true]
    rintro ⟨old, mem, taken⟩
    simp only [Bool.and_eq_true, beq_iff_eq] at taken
    exact unused old mem taken.2.symm

variable {context : CommandContext}

theorem commit_accepted {value : CommitShardRepair} {claim : Claim}
    (worker : activeWorker s value.holder.workerNodeId value.holder.workerIncarnation)
    (live : requireLiveClaim s context value.holder = .ok claim)
    (planned : planAllows s context value) (subject : validateRepairSubject s value = .ok ())
    (fits : value.sourceLayoutGeneration + 1 ≤ i64Max)
    (stripe : stripeAt s value.volumeId value.manifestId value.sourceReceipt value.sourceLayoutGeneration =
      true) (route : validateSourceRoute s value.manifestId value.sourceReceipt)
    (undone : repairDone s value.holder.workId = false)
    (free : ∀ old ∈ s.repairEffects, repairEffectsConflict (effectOf context value) old = false)
    (moved : replaceRepairRoute s.routes (routeOf value.manifestId value.replacementReceipt) = .ok routes) :
    ∃ t, commit s context value = .ok t ∧ t.routes = routes := by
  refine ⟨committedBy s context value routes, ?_, rfl⟩
  refine bind₄_eq_ok.mpr ⟨(), require_ok.mpr worker, claim, live, (), require_ok.mpr planned, (), subject, ?_⟩
  refine bind₄_eq_ok.mpr ⟨(), if_neg (not_lt.mpr fits), (), require_ok.mpr stripe, (),
    require_ok.mpr route, (), require_ok.mpr (by rw [undone]; rfl), ?_⟩
  refine bind₂_eq_ok.mpr ⟨_, if_neg ?_, routes, moved, rfl⟩
  rw [any_eq_true]
  rintro ⟨old, mem, conflict⟩
  rw [free old mem] at conflict
  cases conflict

variable {horizon : UnixMicros}

/-- Under a claim of a new job for the shard as it is, the commit is accepted. -/
theorem Held.commit {holder : ClaimHolder} {receipt : ShardReceipt} {provider : OperationId}
    (tables : Tables s) (h : Routed s)
    (held : Held s horizon holder (repairSubject s manifest stripeIndex shardIndex volume))
    (unplanned : attempt? s holder.workId = none)
    (undone : ∀ effect ∈ s.repairEffects, effect.workId ≠ holder.workId)
    (active : volumeActive s volume)
    (presents : Presents s volume manifest stripeIndex shardIndex source receipt)
    (receiving : activeTargetGenerationExists s target.1 target.2) (other : target ≠ source)
    (newProvider : provider ≠ receipt.operationId)
    (unrouted : ∀ route ∈ s.routes, route.providerOperationId ≠ provider)
    (uneffected : ∀ effect ∈ s.repairEffects, effect.replacementProviderOperationId ≠ provider)
    (room : s.revision + 1 + 1 ≤ i64Max) (instant : context.occurredAt = horizon)
    (fresh : operationExists s context.operationId = false) :
    ∃ t, MeshSpan.Maintenance.commit s context (repairCommit s holder volume manifest receipt target provider) =
        .ok t ∧
      ∃ after, route? t manifest stripeIndex shardIndex = some after ∧ after.targetId = target.1 ∧
        after.targetGeneration = target.2 := by
  obtain ⟨claim, live⟩ := held.live instant
  obtain ⟨job, loaded, subject⟩ := held.load
  obtain ⟨valid, stored, isTarget, isGeneration, rfl, rfl, route, layout⟩ := presents
  have apart : ¬ (receipt.targetId = target.1 ∧ receipt.targetGeneration = target.2) := by
    rintro ⟨sameTarget, sameGeneration⟩
    exact other (Prod.ext (sameTarget.symm.trans isTarget) (sameGeneration.symm.trans isGeneration))
  have bounds := tables.bounds (targetGenerationExists_of_active receiving)
  have replaced : validReceipt { receipt with
      operationId := provider, targetId := target.1, targetGeneration := target.2 } = true := by
    simp only [validReceipt, Bool.and_eq_true, decide_eq_true_eq] at valid ⊢
    exact ⟨⟨⟨⟨valid.1.1.1.1, bounds.1⟩, valid.1.1.2⟩, valid.1.2⟩, bounds.2⟩
  have volumeIs : volumeActive s (volumeOf s manifest receipt.shard.stripeIndex volume) = true :=
    volumeOf_active h active
  obtain ⟨later, moved⟩ : ∃ later, replaceRepairRoute s.routes (routeOf manifest { receipt with
      operationId := provider, targetId := target.1, targetGeneration := target.2 }) = .ok later :=
    replaceRepairRoute_accepted unrouted
  have allowed : validateRepairSubject s (repairCommit s holder volume manifest receipt target provider) =
      .ok () := by
    refine bind_eq_ok.mpr ⟨job, loaded, ?_⟩
    rw [subject]
    refine bind_eq_ok.mpr ⟨(), require_ok.mpr ?_, require_ok.mpr receiving⟩
    simp [repairCommit, newProvider.symm, valid, replaced, volumeIs, stored, validReplacementIdentity]
    exact not_and_or.mp apart
  obtain ⟨t, runs, routes⟩ := commit_accepted held.worker live
    (by
      show (attempt? s holder.workId).all _ = true
      rw [unplanned]
      rfl)
    allowed ((Nat.succ_le_succ (layoutOf_bounds h).2).trans room) layout route
    (by
      refine eq_false_of_ne_true fun done => ?_
      obtain ⟨effect, mem, same⟩ := any_eq_true.mp done
      exact undone effect mem (beq_iff_eq.mp same))
    (fun old mem => by
      refine eq_false_of_ne_true fun conflict => ?_
      simp only [repairEffectsConflict, effectOf, repairCommit, Bool.or_eq_true, Bool.and_eq_true, beq_iff_eq] at conflict
      rcases conflict with ((operation | work) | isProvider) | ⟨⟨sameManifest, sameIndex⟩, sameLayout⟩
      · have known := (h.effects old mem).1
        rw [← operation, fresh] at known
        cases known
      · exact undone old mem work.symm
      · exact uneffected old mem isProvider.symm
      · exact h.next_layout mem sameManifest.symm sameIndex.symm sameLayout.symm)
    moved
  refine ⟨t, runs, routeOf manifest { receipt with
    operationId := provider, targetId := target.1, targetGeneration := target.2 }, ?_, rfl, rfl⟩
  have read := route?_replaced moved
  rw [← routes] at read
  exact read

/-! ## Queue, claim, commit -/

def rawOf : Digest → Nat
  | .raw value => value
  | _ => 0

theorem exists_key (jobs : List Job) :
    ∃ key, key ≠ zeroDigest ∧ ∀ job ∈ jobs, job.deduplicationKey ≠ key := by
  obtain ⟨value, unused⟩ := exists_notMem (0 :: jobs.map (rawOf ·.deduplicationKey))
  simp only [mem_cons, mem_map, not_or, not_exists, not_and] at unused
  refine ⟨.raw value, fun zero => unused.1 (Digest.raw.inj zero), fun job mem same => unused.2 job mem ?_⟩
  rw [same]
  rfl

theorem exists_work (s : Store) : ∃ work, (∀ job ∈ s.jobs, job.workId ≠ work) ∧
    attempt? s work = none ∧ ∀ effect ∈ s.repairEffects, effect.workId ≠ work := by
  obtain ⟨work, unused⟩ := exists_notMem (s.jobs.map Job.workId ++ (s.attempts.map RepairAttempt.workId ++
    s.repairEffects.map RepairEffect.workId))
  simp only [mem_append, mem_map, not_or, not_exists, not_and] at unused
  exact ⟨work, unused.1, get_eq_none.mpr unused.2.1, unused.2.2⟩

def jobAt (instant : UnixMicros) (work : WorkId) (key : Digest) (subject : WorkSubject) :
    QueueMaintenanceWork where
  workId := work
  deduplicationKey := key
  subject := subject
  signals := ⟨false, 0, 0, 0, instant, none⟩
  inFlightBytes := 1
  nextAttemptAt := instant

theorem queue_accepted {subject : WorkSubject} {work : WorkId} {key : Digest}
    (canonical : subject.canonical) (reference : validateSubjectReference s subject)
    (nonzero : key ≠ zeroDigest) (newKey : ∀ job ∈ s.jobs, job.deduplicationKey ≠ key)
    (newWork : ∀ job ∈ s.jobs, job.workId ≠ work) (instant : context.occurredAt = horizon) :
    queue s context (jobAt horizon work key subject) =
      .ok (work, { s with jobs := s.jobs ++ [newJob (jobAt horizon work key subject)] }) := by
  refine bind_eq_ok.mpr ⟨(), require_ok.mpr ?_, ?_⟩
  · simp [validateQueue, jobAt, nonzero, canonical, reference, instant]
  · have absent : s.jobs.find? (·.deduplicationKey == key) = none :=
      find?_eq_none.mpr fun job mem same => newKey job mem (by simpa using same)
    have unused : workIdExists s work = false :=
      eq_false_of_ne_true fun taken => by
        obtain ⟨job, mem, same⟩ := any_eq_true.mp taken
        exact newWork job mem (by simpa using same)
    simp only [jobAt, absent]
    refine bind_eq_ok.mpr ⟨(), require_ok.mpr (congrArg (!·) unused), bind_eq_ok.mpr ⟨(), if_neg ?_, rfl⟩⟩
    show ¬ i64Max < 1
    decide

theorem exists_worker (tables : Tables s) {target : TargetId} {generation : Nat}
    (active : activeTargetGenerationExists s target generation) :
    ∃ node incarnation, activeWorker s node incarnation = true := by
  obtain ⟨row, _, facts⟩ := any_eq_true.mp active
  simp only [receives, Bool.and_eq_true] at facts
  obtain ⟨node, isNode, running⟩ := any_eq_true.mp facts.2.1.1.2
  simp only [Bool.and_eq_true, beq_iff_eq] at running
  refine ⟨node.nodeId, node.currentIncarnation, ?_⟩
  refine Bool.and_eq_true_iff.mpr ⟨by simpa using tables.incarnations node isNode, ?_⟩
  exact any_eq_true.mpr ⟨node, isNode, by simp [running.1.2, running.2]⟩

/-- A shard of an open or closed repair job can be moved to any target that may receive it. -/
theorem Sound.repair (h : Sound horizon s) {n : Nat} (range : InRange horizon (n + 2))
    (room : HasRoom s.revision (n + 4)) (active : volumeActive s volume) (fits : stripeIndex ≤ i64Max)
    (present : targetGenerationExists s source.1 source.2)
    (route : ∀ route, route? s manifest stripeIndex shardIndex = some route →
      route.targetId = source.1 ∧ route.targetGeneration = source.2)
    (receiving : activeTargetGenerationExists s target.1 target.2) (other : target ≠ source) :
    ∃ t, Reaches s t ∧ ∃ after, route? t manifest stripeIndex shardIndex = some after ∧
      after.targetId = target.1 ∧ after.targetGeneration = target.2 := by
  obtain ⟨node, incarnation, worker⟩ := exists_worker h.tables receiving
  obtain ⟨work, newWork, unplanned, undone⟩ := exists_work s
  obtain ⟨key, nonzero, newKey⟩ := exists_key s.jobs
  obtain ⟨context, fresh⟩ := exists_fresh s horizon
  have volumeIs : volumeActive s (volumeOf s manifest stripeIndex volume) = true :=
    volumeOf_active h.routed active
  have canonical : (repairSubject s manifest stripeIndex shardIndex volume).canonical = true := by
    have positive : 0 < layoutOf s manifest stripeIndex := (layoutOf_bounds h.routed).1
    simp [repairSubject, WorkSubject.canonical, ne_of_gt positive]
  have reference : validateSubjectReference s (repairSubject s manifest stripeIndex shardIndex volume) =
      true := by
    obtain ⟨row, mem, facts⟩ := any_eq_true.mp volumeIs
    exact any_eq_true.mpr ⟨row, mem, (Bool.and_eq_true_iff.mp facts).1⟩
  -- queue a job for the shard as it is now
  let job := jobAt horizon work key (repairSubject s manifest stripeIndex shardIndex volume)
  have queued : queue s context job = _ :=
    queue_accepted canonical reference nonzero newKey newWork fresh.instant
  have executed : execute s context (s.revision + 1) (.queue job) = .ok (workEntity work, _) :=
    bind_eq_ok.mpr ⟨_, queued, rfl⟩
  have instants : ∀ t ∈ Command.instants (.queue job), t ∈ [horizon, horizon + 1] := by
    simp [Command.instants, QueueMaintenanceWork.instants, job, jobAt]
  obtain ⟨t, digest, reachedT, soundT, isT⟩ := (h.mono (Int.le_add_one (Int.le_refl _))).reach range fresh
    instants worker (by exact trivial) room.one executed ⟨volumeIs, fits⟩
  -- claim it
  have found : job? t work = some (newJob job) := by
    rw [isT]
    show get Job.workId work (s.jobs ++ [_]) = _
    rw [get_append, get_eq_none.mpr newWork]
    exact if_pos rfl
  have workerT : activeWorker t node incarnation = true := by
    rw [isT]
    exact worker
  have roomT : HasRoom t.revision (n + 2 + 1) := by
    rw [isT]
    exact room.next
  obtain ⟨u, holder, reachedU, soundU, isU, held, isWork, _, _⟩ :=
    soundT.claim range.next found JobState.noConfusion workerT roomT.one
  have roomU : HasRoom u.revision (n + 1 + 1) := by
    obtain ⟨_, _, _, _, rfl⟩ := isU
    exact roomT.next
  -- commit it: the rows that a commit reads are those of the state at the start
  obtain ⟨provider, newProvider, unrouted, uneffected⟩ := exists_provider s
    (sourceReceiptOf s manifest stripeIndex shardIndex source.1 source.2).operationId
  obtain ⟨context', fresh'⟩ := exists_fresh u (horizon + 1)
  let repair := repairCommit u holder volume manifest
    (sourceReceiptOf s manifest stripeIndex shardIndex source.1 source.2) target provider
  have committed : ∃ v, MeshSpan.Maintenance.commit u context' repair = .ok v ∧ ∃ after, route? v manifest stripeIndex shardIndex = some after ∧
      after.targetId = target.1 ∧ after.targetGeneration = target.2 := by
    obtain ⟨jobs, claims, operations, events, rfl⟩ := isU
    subst isT
    rw [← isWork] at unplanned undone
    exact held.commit soundU.tables soundU.routed unplanned undone active
      (presents_sourceReceiptOf soundU.tables soundU.routed fits present route) receiving other newProvider
      unrouted uneffected roomU.next.one fresh'.instant fresh'.operation
  obtain ⟨v, runs, moved⟩ := committed
  have executed' : execute u context' (u.revision + 1) (.commit repair) =
      .ok (workEntity holder.workId, v) := bind_eq_ok.mpr ⟨v, runs, rfl⟩
  have instants' : ∀ t ∈ Command.instants (.commit repair), t ∈ [horizon + 1, horizon + 1 + 1]  := by
    rintro _ ⟨⟩
  obtain ⟨w, _, reachedW, _, rfl⟩ := soundU.reach range.next fresh' instants' held.worker ⟨rfl, rfl⟩ roomU.one
    executed' trivial
  exact ⟨_, reachedT.trans (reachedU.trans reachedW), moved⟩

end MeshSpan.Maintenance
