import MeshSpan.Maintenance.Repairs

/- Repair and evacuation are not stranded, but for a gateway that leaves.

   A target drain needs the attestation of every gateway that served when it began. The
   fence of a node drain asks whether the targets of the node are safe and whether its
   partitions keep a voter, not whether the node still owes an attestation: a gateway
   without targets can be fenced while it owes one, and then the drain is never safe
   (`fenced_gateway_strands_drain`).

   PROVED
     never_stranded   in a run of careful steps every open repair can move its shard to
                      any target that may receive it, and every drain can become safe -/

namespace MeshSpan.Maintenance

open Rows Repository

/-! ## The property -/

/-- Where a shard is repaired from: its route, or else any target generation that it was placed on. -/
def SourceOf (s : Store) (manifest : ContentManifestId) (stripeIndex shardIndex : Nat)
    (source : TargetId × Nat) : Prop :=
  targetGenerationExists s source.1 source.2 = true ∧
    ∀ route, route? s manifest stripeIndex shardIndex = some route →
      route.targetId = source.1 ∧ route.targetGeneration = source.2

structure NeverStranded (s : Store) : Prop where
  repairs : ∀ job ∈ s.jobs, job.state ≠ .complete →
    ∀ volume manifest stripeIndex shardIndex generation,
      job.subject = .repair volume manifest stripeIndex shardIndex generation →
      ∀ source target : TargetId × Nat, SourceOf s manifest stripeIndex shardIndex source →
        activeTargetGenerationExists s target.1 target.2 = true → target ≠ source →
        ∃ t, Reaches s t ∧ ∃ route, route? t manifest stripeIndex shardIndex = some route ∧
          route.targetId = target.1 ∧ route.targetGeneration = target.2
  drains : ∀ drain ∈ s.targetDrains, drain.state = .evacuating →
    (∃ node incarnation, activeWorker s node incarnation = true) →
    ∃ t, Reaches s t ∧ DrainSafe t drain.workId

/-! ## Careful runs -/

/-- No instant of a careful run is later. -/
def latestInstant : UnixMicros := 2 ^ 62

/-- Revisions that the rounds of a drain and a repair may take. -/
def reserve (s : Store) : Nat := 3 * s.nodes.length + 15

structure Careful (s : Store) (entry : Entry) : Prop where
  command : CarefulCommand s entry.command
  instants : Before latestInstant entry
  room : HasRoom s.revision (reserve s + 1)

def CarefulRun : Store → List Entry → Prop
  | _, [] => True
  | s, entry :: rest => Careful s entry ∧ CarefulRun (step s entry) rest

/-- A mesh on which no maintenance was ever queued. -/
structure Configured (s : Store) : Prop where
  tables : Tables s
  jobs : s.jobs = []
  claims : s.claims = []
  stripes : s.stripes = []
  routes : s.routes = []
  repairEffects : s.repairEffects = []
  targetDrains : s.targetDrains = []
  participants : s.participants = []
  drainEffects : s.drainEffects = []
  room : HasRoom s.revision (reserve s)

variable {s : Store}

theorem Configured.sound (h : Configured s) (horizon : UnixMicros) : Sound horizon s := by
  obtain ⟨tables, jobs, claims, stripes, routes, repairEffects, targetDrains, participants, drainEffects, _⟩ := h
  refine ⟨tables, ?_, ?_, ?_⟩
  · refine ⟨?_, ?_, ?_, ?_, ?_, ?_, ?_, ?_⟩ <;> simp [jobs, claims, Keyed]
  · refine ⟨?_, ?_, ?_, ?_, ?_⟩ <;> simp [jobs, stripes, routes, repairEffects, Keyed]
  · refine ⟨?_, ?_, ?_, ?_, ?_, ?_, ?_, ?_, ?_⟩ <;>
      simp [jobs, targetDrains, participants, drainEffects, participantsOf, Keyed]

theorem step_room {entry : Entry} (room : HasRoom s.revision (reserve s + 1)) :
    HasRoom (step s entry).revision (reserve (step s entry)) := by
  rcases step_cases s entry with same | ⟨next, digest, _, done, same⟩
  · rw [same]
    exact Nat.le_of_succ_le room
  · obtain ⟨_, p, nodes⟩ := done.nodes
    have size : reserve (step s entry) = reserve s := by
      rw [same]
      show 3 * next.nodes.length + 15 = _
      rw [nodes, length_amend]
      rfl
    rw [size, same]
    exact room.next

theorem sound_run {history : List Entry} (careful : CarefulRun s history)
    (sound : Sound latestInstant s) (room : HasRoom s.revision (reserve s)) :
    Sound latestInstant (run s history) ∧ HasRoom (run s history).revision (reserve (run s history)) := by
  induction history generalizing s with
  | nil => exact ⟨sound, room⟩
  | cons entry rest ih =>
    obtain ⟨now, later⟩ := careful
    exact ih later (sound.step now.command now.instants) (step_room now.room)

/-! ## Never stranded -/

theorem Sound.unstranded (h : Sound latestInstant s) (room : HasRoom s.revision (reserve s)) :
    NeverStranded s := by
  have fits : 3 * s.nodes.length + 15 ≤ i64Max := Nat.le_trans (Nat.le_add_left _ _) room
  have range : ∀ n, n ≤ s.nodes.length + 2 → InRange latestInstant n := by
    intro n le
    refine ⟨by decide, ?_⟩
    unfold latestInstant i64Max at *
    omega
  refine ⟨?_, fun drain isDrain evacuating _ => ?_⟩
  · intro job isJob _ volume manifest stripeIndex shardIndex generation subject source target isSource receiving other
    have repairable := h.routed.jobs job isJob
    rw [subject] at repairable
    have range : InRange latestInstant (0 + 2) := range 2 (Nat.le_add_left _ _)
    have room : HasRoom s.revision (0 + 4) := Nat.le_trans (by unfold reserve; omega) room
    exact h.repair range room repairable.1 repairable.2 isSource.1 isSource.2 receiving other
  · refine Sound.drain evacuating s.nodes.length latestInstant s h isDrain (h.draining.pendingOf_le drain.workId) ?_
      (range _ (Nat.le_add_right _ _))
    exact Nat.le_trans (Nat.add_le_add_left (Nat.le_add_right _ _) _) room

/-- In every run of careful steps over a configured mesh, no open repair and no drain is stranded. -/
theorem never_stranded {config : Store} {history : List Entry} (configured : Configured config)
    (careful : CarefulRun config history) : NeverStranded (run config history) := by
  obtain ⟨sound, room⟩ := sound_run careful (configured.sound latestInstant) configured.room
  exact sound.unstranded room

/-- Two gateways; the first has a storage target, the second has none. -/
def twoGateways : Store where
  revision := 1
  operations := []
  auditEvents := []
  reserved := []
  meshes := 1
  nodes := [⟨1, 1, .active, 1, false⟩, ⟨2, 2, .active, 1, false⟩]
  roles := [⟨1, 2⟩, ⟨2, 2⟩]
  voters := []
  hosts := [⟨1, true, false⟩, ⟨2, true, false⟩]
  hostGroups := []
  faultGroups := []
  targets := [⟨10, 1, 1, 1, .active, false, false⟩]
  generations := [⟨10, 1, true, false⟩]
  volumes := []
  jobs := []
  claims := []
  attempts := []
  stripes := []
  routes := []
  repairEffects := []
  targetDrains := []
  participants := []
  drainEffects := []
  scopeDrains := []

def contextOf (operation : OperationId) : CommandContext := ⟨operation, 1, operation, 100, none⟩

def beginDrain : Entry :=
  ⟨contextOf 1, .beginTarget ⟨jobAt 100 5 (.raw 1) (.drain (.target 10 1)), false, false⟩, 1, 1⟩

/-- The second gateway is drained, and fenced at once. -/
def drainNode : Entry := ⟨contextOf 2, .beginScope ⟨6, .node 2 1, false, false⟩, 2, 1⟩
def fenceNode : Entry := ⟨contextOf 3, .fence ⟨6, 2, 1⟩, 3, 1⟩

theorem twoGateways_configured : Configured twoGateways := by
  refine ⟨⟨by decide, by decide +kernel⟩, rfl, rfl, rfl, rfl, rfl, rfl, rfl, rfl, ?_⟩
  unfold HasRoom
  decide +kernel

/-- The first gateway with three targets, and a volume. -/
def threeTargets : Store := { twoGateways with
  targets := [10, 11, 12].map (⟨·, 1, 1, 1, .active, false, false⟩)
  generations := [10, 11, 12].map (⟨·, 1, true, false⟩)
  volumes := [⟨3, true⟩] }

def repairClaim : ClaimMaintenanceWork := ⟨4, 1, 1, 1, 1, 200⟩

/-- The repair of a shard on target 10 is claimed and planned onto target 11, which is then drained. -/
def plannedRepair : List Entry :=
  [⟨contextOf 1, .queue (jobAt 100 4 (.raw 2) (.repair 3 20 0 0 1)), 1, 1⟩, ⟨contextOf 2, .claim repairClaim, 2, 1⟩,
    ⟨contextOf 3, .plan ⟨repairClaim, 1, ⟨50, ⟨.raw 3, 0, 0, 1⟩, 8, .raw 4, 10, 1⟩,
      ⟨51, true, 200, 11, 1, .repair, 8, ⟨.raw 3, 0, 0, 1⟩, 8, .raw 4⟩, contextOf 61, contextOf 62⟩, 3, 1⟩,
    ⟨contextOf 4, .beginTarget ⟨jobAt 100 5 (.raw 1) (.drain (.target 11 1)), false, false⟩, 4, 1⟩]

theorem threeTargets_configured : Configured threeTargets :=
  ⟨⟨by decide, by decide +kernel⟩, rfl, rfl, rfl, rfl, rfl, rfl, rfl, rfl, twoGateways_configured.room⟩

theorem plannedRepair_careful : CarefulRun threeTargets plannedRepair := by
  refine ⟨⟨⟨by decide +kernel, by decide +kernel⟩, ?_, ?_⟩, ⟨trivial, ?_, ?_⟩, ⟨trivial, ?_, ?_⟩, ⟨?_, ?_, ?_⟩, trivial⟩
  all_goals
    simp only [Before, HasRoom, CarefulCommand]
    decide +kernel

theorem never_stranded_while_draining : (run threeTargets plannedRepair).attempts.length = 1 ∧
    (run threeTargets plannedRepair).targetDrains.length = 1 ∧ NeverStranded (run threeTargets plannedRepair) :=
  ⟨by decide +kernel, by decide +kernel, never_stranded threeTargets_configured plannedRepair_careful⟩

/-! ## A fenced gateway -/

/-- The node owes an attestation and cannot give it any more. -/
structure Owing (work : WorkId) (node : NodeId) (s : Store) : Prop where
  inactive : ∀ row ∈ s.nodes, row.nodeId = node → row.state ≠ .active
  owes : ∃ row ∈ s.participants, row.workId = work ∧ row.nodeId = node ∧ row.attested = none
  notSafe : ∀ drain ∈ s.targetDrains, drain.workId = work → drain.state ≠ .safe

variable {work : WorkId} {node : NodeId}

theorem Owing.not_worker (h : Owing work node s)
    {other : NodeId} {incarnation : Nat} (worker : activeWorker s other incarnation) : other ≠ node := by
  rintro rfl
  obtain ⟨row, mem, facts⟩ := List.any_eq_true.mp (Bool.and_eq_true_iff.mp worker).2
  simp only [Bool.and_eq_true, beq_iff_eq] at facts
  exact h.inactive row mem facts.1.1.1 facts.1.2

variable {command : Command} {context : CommandContext} {revision : Revision}

section

variable (h : Owing work node s)

include h

theorem Owing.inactive_effect {next : Store} (done : Effect s context revision command next) :
    ∀ row ∈ next.nodes, row.nodeId = node → row.state ≠ .active := by
  obtain ⟨_, p, nodes⟩ := done.nodes
  rw [nodes]
  exact forall_amend (fun _ _ _ => NodeState.noConfusion) h.inactive

/-- No command lets the node attest, and no drain is safe without it. -/
theorem Owing.effect {next : Store} (done : Effect s context revision command next) :
    Owing work node next := by
  have inactive := h.inactive_effect done
  obtain ⟨row, isRow, isWork, isNode, pending⟩ := h.owes
  cases done with
  | beganTarget value target generation jobs subject queued exists' fresh some' =>
    exact ⟨inactive, ⟨row, List.mem_append_left _ isRow, isWork, isNode, pending⟩,
      List.forall_mem_append.mpr ⟨h.notSafe, List.forall_mem_singleton.mpr fun _ =>
        TargetDrainState.noConfusion⟩⟩
  | attested value next worker finish =>
    have kept : row ∈ attestedBy s context value := by
      refine mem_amend_of_not isRow ?_
      have other : row.nodeId ≠ value.holder.workerNodeId := isNode ▸ (h.not_worker worker).symm
      simp [owesAttestation, other]
    rcases finish_ok finish with ⟨all, _, rfl⟩ | ⟨_, rfl⟩
    · refine ⟨inactive, ⟨row, kept, isWork, isNode, pending⟩, fun drain mem same => ?_⟩
      have apart : work ≠ value.holder.workId := by
        rintro rfl
        have attested := all row kept isWork
        rw [pending] at attested
        cases attested
      obtain ⟨old, isOld, rfl⟩ := mem_amend.mp mem
      split
      · rename_i matched
        rw [if_pos matched] at same
        simp only [Bool.and_eq_true, beq_iff_eq] at matched
        exact absurd (same.symm.trans matched.1) apart
      · rename_i out
        rw [if_neg out] at same
        exact h.notSafe old isOld same
    · exact ⟨inactive, ⟨row, kept, isWork, isNode, pending⟩, h.notSafe⟩
  | _ => exact ⟨inactive, ⟨row, isRow, isWork, isNode, pending⟩, h.notSafe⟩

theorem Owing.reaches {t : Store} (reached : Reaches s t) : Owing work node t := by
  induction reached with
  | refl => exact h
  | step entry typed issuer new accepted _ ih =>
    unfold apply at accepted
    rw [if_neg (by rw [new]; decide)] at accepted
    obtain ⟨next, digest, done, rfl⟩ := execEntry_ok accepted
    have later := h.effect done
    exact ih { later with }

theorem Owing.not_reaches_safe {t : Store} (reached : Reaches s t) : ¬ DrainSafe t work := by
  rintro ⟨drain, mem, isWork, safe⟩
  exact (h.reaches reached).notSafe drain mem isWork safe

end

/-- The second gateway is fenced while it owes its attestation: the drain can never be safe, although
the first gateway is active. -/
theorem fenced_gateway_strands_drain : Configured twoGateways ∧
    ¬ NeverStranded (run twoGateways [beginDrain, drainNode, fenceNode]) := by
  refine ⟨twoGateways_configured, fun h => ?_⟩
  have owing : Owing 5 2 (run twoGateways [beginDrain, drainNode, fenceNode]) :=
    ⟨by decide +kernel, by decide +kernel, by decide +kernel⟩
  have begun : ∃ drain ∈ (run twoGateways [beginDrain, drainNode, fenceNode]).targetDrains,
      drain.workId = 5 ∧ drain.state = .evacuating := by decide +kernel
  have active : activeWorker (run twoGateways [beginDrain, drainNode, fenceNode]) 1 1 = true := by
    decide +kernel
  obtain ⟨drain, isDrain, work, evacuating⟩ := begun
  obtain ⟨t, reached, safe⟩ := h.drains drain isDrain evacuating ⟨1, 1, active⟩
  exact owing.not_reaches_safe reached (work ▸ safe)

end MeshSpan.Maintenance
