import MeshSpan.Maintenance.Invariant

/- Stripes and routes: what a repair reads stays readable.

   A commit reads the stripe of its shard, the route of the shard and the effects of
   earlier repairs. `Routed` says that these rows are in order: a stripe is at or past
   the generation of every effect on it, and a route names a receipt that would be
   accepted as the source of the next repair. -/

namespace MeshSpan.Maintenance

open Rows Repository List

/-! ## Stripes and routes -/

structure RouteSound (s : Store) (route : Route) : Prop where
  shard : 0 < route.shardGeneration
  length : 0 < route.expectedLength ∧ route.expectedLength ≤ i64Max
  digest : route.expectedDigest ≠ zeroDigest
  generation : 0 < route.targetGeneration ∧ route.targetGeneration ≤ i64Max
  target : targetGenerationExists s route.targetId route.targetGeneration = true
  stripe : ∃ stripe ∈ s.stripes, stripe.manifestId = route.manifestId ∧
    stripe.stripeIndex = route.stripeIndex

structure StripeSound (s : Store) (stripe : Stripe) : Prop where
  volume : volumeActive s stripe.volumeId = true
  digest : stripe.manifestDigest ≠ zeroDigest
  index : stripe.stripeIndex ≤ i64Max
  positive : 0 < stripe.currentLayoutGeneration
  bounded : stripe.currentLayoutGeneration ≤ s.revision + 1

/-- What a repair reads is there: its volume, its stripe at the last generation of its effects, and
a receipt of the present route. -/
structure Routed (s : Store) : Prop where
  jobs : ∀ job ∈ s.jobs, Repairable s job.subject
  keyed : Keyed (fun row => (row.manifestId, row.stripeIndex)) s.stripes
  stripes : ∀ stripe ∈ s.stripes, StripeSound s stripe
  effects : ∀ effect ∈ s.repairEffects, operationExists s effect.effectOperationId = true ∧
    ∃ stripe ∈ s.stripes, stripe.manifestId = effect.manifestId ∧
      stripe.stripeIndex = effect.stripeIndex ∧
      effect.replacementLayoutGeneration ≤ stripe.currentLayoutGeneration
  routes : ∀ route ∈ s.routes, RouteSound s route

variable {s : Store} {events : List AuditEventId} {digest : Digest}

theorem Routed.record {next : Store} {entry : Entry}
    (h : Routed s) (volumes : next.volumes = s.volumes) (generations : next.generations = s.generations)
    (stripes : next.stripes = s.stripes) (routes : next.routes = s.routes)
    (effects : next.repairEffects = s.repairEffects) (jobs : ∀ job ∈ next.jobs, Repairable s job.subject) :
    Routed (recorded next entry (s.revision + 1) s.operations events digest) := by
  have active : ∀ volume, volumeActive (recorded next entry (s.revision + 1) s.operations events digest)
      volume = volumeActive s volume := by
    intro volume
    show next.volumes.any _ = s.volumes.any _
    rw [volumes]
  refine ⟨fun job mem => ?_, ?_, fun stripe mem => ?_, fun effect mem => ?_, fun route mem => ?_⟩
  · have repairable := jobs job mem
    unfold Repairable at repairable ⊢
    split at repairable
    · rw [active]
      exact repairable
    · trivial
  · show Keyed _ next.stripes
    rw [stripes]
    exact h.keyed
  · have mem : stripe ∈ next.stripes := mem
    rw [stripes] at mem
    have sound := h.stripes stripe mem
    exact ⟨(active _).trans sound.volume, sound.digest, sound.index, sound.positive,
      sound.bounded.trans (Nat.le_succ _)⟩
  · have mem : effect ∈ next.repairEffects := mem
    rw [effects] at mem
    obtain ⟨known, stripe, isStripe, facts⟩ := h.effects effect mem
    exact ⟨operationExists_recorded known, stripe, stripes.symm ▸ isStripe, facts⟩
  · have mem : route ∈ next.routes := mem
    rw [routes] at mem
    have sound := h.routes route mem
    refine ⟨sound.shard, sound.length, sound.digest, sound.generation, ?_, ?_⟩
    · show next.generations.any _ = true
      rw [generations]
      exact sound.target
    · obtain ⟨stripe, isStripe, facts⟩ := sound.stripe
      exact ⟨stripe, stripes.symm ▸ isStripe, facts⟩

/-! ## Commits -/

theorem targetGenerationExists_of_active {target : TargetId} {generation : Nat}
    (h : activeTargetGenerationExists s target generation) :
    targetGenerationExists s target generation = true := by
  obtain ⟨row, _, facts⟩ := any_eq_true.mp h
  simp only [Bool.and_eq_true, beq_iff_eq, receives] at facts
  obtain ⟨⟨rfl, rfl⟩, ⟨⟨⟨_, present⟩, _⟩, _⟩, _⟩ := facts
  obtain ⟨generation, mem, same⟩ := any_eq_true.mp present
  simp only [Bool.and_eq_true, beq_iff_eq] at same
  exact any_eq_true.mpr ⟨generation, mem, by simpa using same.1.1⟩

/-- A receipt that passes its check makes a sound route. -/
theorem routeSound_of_receipt {manifest : ContentManifestId} {receipt : ShardReceipt}
    (valid : validReceipt receipt)
    (target : targetGenerationExists s receipt.targetId receipt.targetGeneration)
    (stripe : ∃ stripe ∈ s.stripes, stripe.manifestId = manifest ∧
      stripe.stripeIndex = receipt.shard.stripeIndex) :
    RouteSound s (routeOf manifest receipt) := by
  simp only [validReceipt, Bool.and_eq_true, bne_iff_ne, ne_eq, decide_eq_true_eq] at valid
  obtain ⟨⟨⟨⟨⟨⟨⟨_, shard⟩, length⟩, digest⟩, positive⟩, _⟩, fits⟩, bounded⟩ := valid
  exact ⟨shard, ⟨length, fits⟩, digest, ⟨positive, bounded⟩, target, stripe⟩

theorem mem_replaceRepairRoute {routes later : List Route} {row route : Route}
    (h : replaceRepairRoute routes row = .ok later) (mem : route ∈ later) : route ∈ routes ∨ route = row := by
  obtain ⟨-, h⟩ := guard_ok.mp h
  split at h
  · cases h
    obtain ⟨old, isOld, rfl⟩ := mem_amend.mp mem
    split
    · exact .inr rfl
    · exact .inl isOld
  · cases h
    exact (mem_append.mp mem).imp_right mem_singleton.mp

variable {value : CommitShardRepair}

/-- The stripe that a commit works on, with the generation it was planned against. -/
theorem ensure_stripe
    (h : stripeAt s value.volumeId value.manifestId value.sourceReceipt value.sourceLayoutGeneration =
      true) :
    ∃ stripe ∈ ensureRepairStripe s value, stripe.manifestId = value.manifestId ∧
      stripe.stripeIndex = value.sourceReceipt.shard.stripeIndex ∧
      stripe.currentLayoutGeneration = value.sourceLayoutGeneration := by
  unfold stripeAt at h
  unfold ensureRepairStripe
  split at h
  · rename_i stripe found
    have key : stripe.manifestId = value.manifestId ∧
        stripe.stripeIndex = value.sourceReceipt.shard.stripeIndex := by
      simpa using find?_some found
    simp only [Bool.and_eq_true, beq_iff_eq] at h
    exact ⟨stripe, mem_of_find?_eq_some found, key.1, key.2, h.2⟩
  · rename_i found
    refine ⟨_, mem_append_right _ mem_cons_self, rfl, rfl, ?_⟩
    exact (beq_iff_eq.mp h).symm

theorem Routed.ensure (h : Routed s) (repairs : Repairs s value) :
    Keyed (fun row => (row.manifestId, row.stripeIndex)) (ensureRepairStripe s value) ∧
      (∀ stripe ∈ ensureRepairStripe s value, StripeSound s stripe) ∧
      ∀ stripe ∈ s.stripes, stripe ∈ ensureRepairStripe s value := by
  unfold ensureRepairStripe
  split
  · exact ⟨h.keyed, h.stripes, fun stripe mem => mem⟩
  rename_i none
  refine ⟨keyed_append h.keyed fun other mem same => ?_,
    forall_mem_append.mpr ⟨h.stripes, forall_mem_singleton.mpr ?_⟩,
    fun stripe mem => mem_append_left _ mem⟩
  · have absent := find?_eq_none.mp none other mem
    simp only [Prod.mk.injEq] at same
    simp [same.1, same.2] at absent
  · have valid := repairs.source
    simp only [validReceipt, Bool.and_eq_true, bne_iff_ne, ne_eq, decide_eq_true_eq] at valid
    exact ⟨repairs.volume, valid.1.1.1.1.1.1.1, valid.1.1.2, Nat.one_pos, Nat.succ_le_succ (Nat.zero_le _)⟩

/-- A commit moves one stripe to the next generation and one route to the replacement. -/
theorem Routed.commit {context : CommandContext} {index term : Nat} {routes : List Route} (h : Routed s)
    (repairs : Repairs s value)
    (moved : replaceRepairRoute s.routes (routeOf value.manifestId value.replacementReceipt) = .ok routes) :
    Routed (recorded (committedBy s context value routes) ⟨context, .commit value, index, term⟩ (s.revision + 1) s.operations
      events digest) := by
  obtain ⟨keyed, sound, kept⟩ := h.ensure repairs
  obtain ⟨worked, isWorked, manifest, stripeIndex, generation⟩ := ensure_stripe repairs.stripe
  -- a stripe keeps its key and never falls back
  have onward : ∀ stripe ∈ s.stripes, ∃ after ∈ stripesAfter s value, after.manifestId = stripe.manifestId ∧
        after.stripeIndex = stripe.stripeIndex ∧
        stripe.currentLayoutGeneration ≤ after.currentLayoutGeneration := by
    intro stripe mem
    refine ⟨_, mem_amend.mpr ⟨stripe, kept stripe mem, rfl⟩, ?_⟩
    split
    · rename_i matched
      simp only [Bool.and_eq_true, beq_iff_eq] at matched
      exact ⟨rfl, rfl, matched.2.le.trans (Nat.le_succ _)⟩
    · exact ⟨rfl, rfl, Nat.le_refl _⟩
  have advanced : { worked with currentLayoutGeneration := value.sourceLayoutGeneration + 1 } ∈
      stripesAfter s value :=
    mem_amend.mpr ⟨worked, isWorked, by simp [manifest, stripeIndex, generation]⟩
  refine ⟨h.jobs, ?_, fun stripe mem => ?_, fun effect mem => ?_, fun route mem => ?_⟩
  · exact keyed_amend
      (f := fun row => { row with currentLayoutGeneration := value.sourceLayoutGeneration + 1 })
      (fun _ => rfl) keyed
  · obtain ⟨old, isOld, rfl⟩ := mem_amend.mp mem
    have before := sound old isOld
    split
    · rename_i matched
      simp only [Bool.and_eq_true, beq_iff_eq] at matched
      exact ⟨before.volume, before.digest, before.index, Nat.succ_pos _,
        Nat.succ_le_succ (matched.2 ▸ before.bounded)⟩
    · exact ⟨before.volume, before.digest, before.index, before.positive,
        before.bounded.trans (Nat.le_succ _)⟩
  · rcases mem_snoc.mp mem with old | rfl
    · obtain ⟨known, stripe, isStripe, manifest, index, reached⟩ := h.effects effect old
      obtain ⟨after, isAfter, sameManifest, sameIndex, later⟩ := onward stripe isStripe
      exact ⟨operationExists_recorded known, after, isAfter, sameManifest.trans manifest,
        sameIndex.trans index, reached.trans later⟩
    · exact ⟨operationExists_new, _, advanced, manifest, stripeIndex, le_refl _⟩
  · rcases mem_replaceRepairRoute moved mem with old | rfl
    · have before := h.routes route old
      obtain ⟨stripe, isStripe, manifest, index⟩ := before.stripe
      obtain ⟨after, isAfter, sameManifest, sameIndex, _⟩ := onward stripe isStripe
      exact { before with stripe := ⟨after, isAfter, sameManifest.trans manifest, sameIndex.trans index⟩ }
    · have identity := repairs.same
      simp only [validReplacementIdentity, Bool.and_eq_true, beq_iff_eq] at identity
      have sameStripe := congrArg ShardIdentity.stripeIndex identity.1
      exact routeSound_of_receipt repairs.replacement (targetGenerationExists_of_active repairs.target)
        ⟨_, advanced, manifest, stripeIndex.trans sameStripe.symm⟩

/-! ## Every step -/

theorem repairable_queued {value : QueueMaintenanceWork} {jobs : List Job}
    (done : Queued s value jobs) (h : ∀ job ∈ s.jobs, Repairable s job.subject)
    (new : Repairable s value.subject) : ∀ job ∈ jobs, Repairable s job.subject := by
  intro job mem
  rcases done.subject mem with ⟨old, isOld, _, same, _⟩ | rfl
  · exact same ▸ h old isOld
  · exact new

theorem Routed.effect {next : Store} {entry : Entry}
    (h : Routed s) (careful : CarefulCommand s entry.command)
    (done : Effect s entry.context (s.revision + 1) entry.command next) :
    Routed (recorded next entry (s.revision + 1) s.operations events digest) := by
  cases entry with
  | mk context command index term =>
  cases done with
  | queued value jobs queued =>
    exact h.record rfl rfl rfl rfl rfl (repairable_queued queued h.jobs careful)
  | claimed value job found open' next =>
    exact h.record rfl rfl rfl rfl rfl (forall_amend h.jobs h.jobs)
  | completed value claim job state nextAttemptAt holds found values =>
    exact h.record rfl rfl rfl rfl rfl (forall_amend h.jobs h.jobs)
  | committed value routes repairs moved => exact h.commit repairs moved
  | beganTarget value target generation jobs subject queued exists' fresh some' =>
    refine h.record rfl rfl rfl rfl rfl (repairable_queued queued h.jobs ?_)
    rw [subject]
    trivial
  | attested value next worker finish =>
    rcases finish_ok finish with ⟨_, _, rfl⟩ | ⟨_, rfl⟩
    · exact h.record rfl rfl rfl rfl rfl h.jobs
    · exact h.record rfl rfl rfl rfl rfl h.jobs
  | _ => exact h.record rfl rfl rfl rfl rfl h.jobs

end MeshSpan.Maintenance
