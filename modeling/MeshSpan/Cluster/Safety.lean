import MeshSpan.Cluster.Simulation

/- What holds in every run of the cluster.

   `commitReady_agree`: no two cores report different entries at one index as
   committed. `leader_unique`: no two nodes lead one term. Both hold for runs in
   which a membership command is proposed only by a leader that has activated
   every membership command of its log (`GatedRun`), as the runtime does; without
   it two commands in a row can be committed by the quorums of one plan, and a
   node that activates both has left the electorate of the others. -/

namespace MeshSpan

open Ordered Ledger ConsensusCore List

namespace Cluster

/-- Whether a core has activated every membership command of its log. -/
def activatedAll (disk : NodeDisk) (core : ConsensusCore) : Bool :=
  core.log.all fun e => decide (e.commandVersion ≠ membershipCommandVersion ∨
    e.position.index ≤ disk.appliedIndex)

/-- A membership command is proposed only to a core that has activated all before it. -/
def gated (cluster : Cluster) : ClusterAction → Bool
  | .call node (.step (.propose _ _ version _)) =>
    (version ≠ membershipCommandVersion) ||
      (cluster.nodes node).core.all (activatedAll (cluster.nodes node).disk)
  | _ => true

def gatedRun (cluster : Cluster) : List ClusterAction → Bool
  | [] => true
  | action :: actions => cluster.gated action && (cluster.act action).gatedRun actions

end Cluster

/-- The history accounts for the whole cluster. -/
structure ClusterInv (first : CompiledQuorumPlan) (tr : History NodeId LogEntry) (cluster : Cluster) : Prop where
  valid : (electorate first).Valid tr
  nodes : ∀ n, NodeInv first tr n (cluster.nodes n)
  network : ∀ envelope ∈ cluster.network,
    MessageOk first tr envelope.sender envelope.receiver envelope.message
  trace : ∀ n life effect, Output.effect n life effect ∈ cluster.trace → EffectOk first tr n effect

section

variable {first : CompiledQuorumPlan} {tr tr' : History NodeId LogEntry} {cluster : Cluster} {n : NodeId}
  {core : ConsensusCore}

/-! ## Steps -/

theorem ClusterInv.initial (first : CompiledQuorumPlan) (incarnations : MemberIncarnations) :
    ClusterInv first [] (.initial first incarnations) where
  valid := Electorate.Valid.nil
  nodes n :=
    { contiguous := fun _ _ at_ => nomatch at_
      valid := nofun
      bounded := Nat.zero_le _
      sound := Electorate.Sound.blank (E := electorate first) n }
  network := nofun
  trace := nofun

section

variable (h : ClusterInv first tr cluster) (ext : Extends n tr tr')
  (v : (electorate first).Valid tr')

include h ext v

theorem ClusterInv.update {cluster' : Cluster} (node : NodeInv first tr' n (cluster'.nodes n))
    (others : ∀ m, m ≠ n → cluster'.nodes m = cluster.nodes m)
    (network : ∀ envelope ∈ cluster'.network, envelope ∈ cluster.network ∨
      MessageOk first tr' envelope.sender envelope.receiver envelope.message)
    (trace : ∀ m life effect, Output.effect m life effect ∈ cluster'.trace →
      Output.effect m life effect ∈ cluster.trace ∨ EffectOk first tr' m effect) :
    ClusterInv first tr' cluster' where
  valid := v
  nodes m := by
    by_cases same : m = n
    · exact same ▸ node
    · rw [others m same]
      exact (h.nodes m).other ext v same
  network envelope mem := by
    rcases network envelope mem with old | new
    · exact (h.network envelope old).mono ext v
    · exact new
  trace m life effect mem := by
    rcases trace m life effect mem with old | new
    · exact (h.trace m life effect old).mono ext v
    · exact new

variable {value node : Node} {actions : List ClusterAction}

theorem ClusterInv.setNode (node : NodeInv first tr' n value) :
    ClusterInv first tr' (cluster.setNode n value) := by
  refine h.update ext v ?_ (fun m other => if_neg other) (fun _ mem => .inl mem) fun _ _ _ mem => .inl mem
  rw [show (cluster.setNode n value).nodes n = value from if_pos rfl]
  exact node

theorem ClusterInv.absorb {result : StepResult}
    (node : NodeInv first tr' n { value with core := some result.1 })
    (effects : ∀ effect ∈ effectsOf result.2, EffectOk first tr' n effect) :
    ClusterInv first tr' (cluster.absorb n value result) := by
  refine h.update ext v ?_ (fun m other => if_neg other) ?_ ?_
  · rw [show (cluster.absorb n value result).nodes n = _ from if_pos rfl]
    exact node
  · intro envelope mem
    rcases mem_append.mp mem with old | new
    · exact .inl old
    obtain ⟨effect, inEffects, sent⟩ := mem_filterMap.mp new
    cases effect with
    | send receiver message =>
      cases sent
      exact .inr (effects _ inEffects)
    | _ => cases sent
  · intro m life effect mem
    rcases mem_append.mp mem with old | new
    · exact .inl old
    · obtain ⟨effect', inEffects, same⟩ := mem_map.mp new
      cases same
      exact .inr (effects _ inEffects)

end

/-- The history goes on and accounts for the cluster. -/
def Continues (first : CompiledQuorumPlan) (tr : History NodeId LogEntry) (cluster : Cluster) : Prop :=
  ∃ tr', tr <+: tr' ∧ ClusterInv first tr' cluster

theorem ClusterInv.same (h : ClusterInv first tr cluster) : Continues first tr cluster :=
  ⟨tr, prefix_rfl, h⟩

theorem ClusterInv.start (h : ClusterInv first tr cluster) (n : NodeId) :
    Continues first tr (cluster.start n) := by
  unfold Cluster.start
  dsimp only
  split
  · exact h.same
  rename_i down
  split
  · exact h.same
  rename_i core restored
  have disk := h.nodes n
  unfold NodeInv at disk
  rw [down] at disk
  exact ⟨tr, prefix_rfl, h.setNode .refl h.valid ⟨core, disk.start restored, .inl rfl⟩⟩

/-- A core that has activated all membership commands of its log holds no more than its phase says. -/
theorem members_of_activatedAll {disk : NodeDisk} (h : ∃ base, Running first tr n disk base ∧ core.log = base.log)
    (all : Cluster.activatedAll disk core) :
    (electorate first).members core.log ≤ disk.phase first := by
  obtain ⟨base, running, same⟩ := h
  have beyond : (core.log.drop disk.appliedIndex).countP (electorate first).member = 0 := by
    rw [countP_eq_zero]
    intro e mem member
    obtain ⟨i, at_⟩ := mem_iff_getElem?.mp mem
    rw [getElem?_drop, same] at at_
    have index := running.inv.ordered.contiguous _ e at_
    have checked := all_eq_true.mp all e (mem_of_mem_drop mem)
    rw [decide_eq_true_eq] at checked
    rcases checked with plain | applied
    · exact plain (of_decide_eq_true member)
    · omega
  unfold NodeDisk.phase Electorate.members
  rw [running.stored.log, ← same]
  calc core.log.countP (electorate first).member
      = (core.log.take disk.appliedIndex).countP (electorate first).member +
          (core.log.drop disk.appliedIndex).countP (electorate first).member := by
        rw [← countP_append, take_append_drop]
    _ ≤ _ := by rw [beyond, add_zero]

theorem NodeInv.base (h : NodeInv first tr n node) (runs : node.core = some core) :
    ∃ base, Running first tr n node.disk base ∧ core.log = base.log := by
  unfold NodeInv at h
  rw [runs] at h
  obtain ⟨base, running, rfl | ⟨_, _, _, -, rfl⟩⟩ := h
  · exact ⟨core, running, rfl⟩
  · exact ⟨base, running, rfl⟩

theorem setReplicationBudgets_call (core : ConsensusCore) (default : ReplicationBatchBudget)
    (peers : OrdMap NodeId ReplicationBatchBudget) :
    (∃ err, core.call (.setReplicationBudgets default peers) = (core, .error err)) ∨
      core.call (.setReplicationBudgets default peers) = (rebudgeted core default peers, .ok []) := by
  by_cases foreign : peers.keys.elems.any (fun peer => peer ∉ core.activePlan.members) = true
  · exact .inl ⟨.invalidConfiguration, by simp only [ConsensusCore.call, setReplicationBudgets, foreign, if_true]⟩
  refine .inr ?_
  simp only [ConsensusCore.call, setReplicationBudgets]
  rw [if_neg foreign]
  rfl

/-- A local input: only a membership command needs the gate. -/
theorem ClusterInv.call (h : ClusterInv first tr cluster) (n : NodeId) (c : CoreCall)
    (gated : cluster.gated (.call n c)) : Continues first tr (cluster.call n c) := by
  unfold Cluster.call
  dsimp only
  split
  · exact h.same
  rename_i core runs
  split
  · exact h.same
  rename_i isLocal
  rw [Bool.not_eq_false] at isLocal
  -- what a leader opens is no effect of a core
  have opens : ∀ outputs : List Output, (∀ m life effect, Output.effect m life effect ∉ outputs) →
      ClusterInv first tr { cluster with trace := cluster.trace ++ outputs } := fun outputs none =>
    { h with
      trace := fun m life effect mem => by
        rcases mem_append.mp mem with old | new
        · exact h.trace m life effect old
        · exact absurd new (none m life effect) }
  have opened : ∀ result, ∀ m life effect,
      Output.effect m life effect ∉ Cluster.opened n (cluster.nodes n).life c result := by
    intro result m life effect mem
    unfold Cluster.opened at mem
    split at mem
    · cases mem_singleton.mp mem
    · cases mem
  cases c with
  | step input =>
    have noReply : ∀ id, input ≠ .persisted id := by
      rintro id rfl
      cases isLocal
    have ok : InputOk first tr n input := by
      cases input with
      | message => cases isLocal
      | _ => trivial
    have plain : isActivation input = false := by
      cases input with
      | activateJointPlan => cases isLocal
      | activateStablePlan => cases isLocal
      | _ => rfl
    have gate : ∀ proposalId operationId version command,
        proposalOf input = some (proposalId, operationId, version, command) →
        version = membershipCommandVersion →
          (electorate first).members core.log ≤ (cluster.nodes n).disk.phase first := by
      intro proposalId operationId version command asked membership
      cases input with
      | propose _ _ _ _ =>
        cases asked
        unfold Cluster.gated at gated
        dsimp only at gated
        rw [runs, Option.all_some, Bool.or_eq_true, decide_eq_true_eq] at gated
        rcases gated with other | all
        · exact absurd membership other
        · exact members_of_activatedAll ((h.nodes n).base runs) all
      | confirmTerm _ _ =>
        cases asked
        cases membership
      | _ => cases asked
    obtain ⟨tr', ext, v', node, effects⟩ := (h.nodes n).step h.valid runs noReply ok gate (.inl plain)
    exact ⟨tr', ext.part, (opens _ (opened _)).absorb ext v' node effects⟩
  | setReplicationBudgets default peers =>
    have result := setReplicationBudgets_call core default peers
    generalize core.call (.setReplicationBudgets default peers) = result at result
    rcases result with ⟨err, rfl⟩ | rfl
    · have same : ({ cluster.nodes n with core := some core } : Node) = cluster.nodes n := by rw [← runs]
      exact ⟨tr, prefix_rfl, (opens _ (opened _)).absorb .refl h.valid (same ▸ h.nodes n) nofun⟩
    · exact ⟨tr, prefix_rfl, (opens _ (opened _)).absorb .refl h.valid
        ((h.nodes n).rebudget runs default peers) nofun⟩
  | clearReplicationBudgetOverrides =>
    exact ⟨tr, prefix_rfl, (opens _ (opened _)).absorb .refl h.valid
      ((h.nodes n).rebudget runs core.replicationDefault .empty) nofun⟩

/-- The process that a message came from is not part of what the ledger reads of a node. -/
theorem NodeInv.answering (h : NodeInv first tr n node) (life : Nat) :
    NodeInv first tr n { node with answering := life } := h

section

variable (h : ClusterInv first tr cluster)

include h

theorem ClusterInv.deliver (position : Nat) : Continues first tr (cluster.deliver position) := by
  unfold Cluster.deliver
  split
  · exact h.same
  rename_i envelope at_
  dsimp only
  split
  · exact h.same
  rename_i core runs
  have ok : InputOk first tr envelope.receiver
      (.message envelope.sender envelope.incarnation envelope.message) :=
    h.network envelope (mem_of_getElem? at_)
  obtain ⟨tr', ext, v', node, effects⟩ := (h.nodes envelope.receiver).step h.valid runs
    (fun id same => by cases same) ok (fun _ _ _ _ asked => nomatch asked) (.inl rfl)
  refine ⟨tr', ext.part, h.absorb ext v' ?_ effects⟩
  split
  · exact node.answering _
  · exact node

theorem ClusterInv.persist (n : NodeId) (id : Nat) : Continues first tr (cluster.persist n id) := by
  unfold Cluster.persist
  dsimp only
  split
  · exact h.same
  · rename_i core runs
    obtain ⟨tr', ext, v', node, effects⟩ := (h.nodes n).persist h.valid runs id
    exact ⟨tr', ext.part, h.absorb ext v' node effects⟩

theorem ClusterInv.crash (n : NodeId) (durable : Bool) :
    Continues first tr (cluster.crash n durable) := by
  unfold Cluster.crash
  dsimp only
  split
  · exact h.same
  · rename_i core runs
    obtain ⟨tr', ext, v', node⟩ := (h.nodes n).crash h.valid runs durable
    exact ⟨tr', ext.part, h.setNode ext v' node⟩

theorem ClusterInv.apply (n : NodeId) : Continues first tr (cluster.apply n) := by
  unfold Cluster.apply
  dsimp only
  split
  · exact h.same
  rename_i core runs
  split
  · rename_i may
    exact ⟨tr, prefix_rfl, h.setNode .refl h.valid ((h.nodes n).apply runs may)⟩
  · exact h.same

theorem ClusterInv.activate (n : NodeId) (index : Nat) (incarnations : MemberIncarnations) :
    Continues first tr (cluster.activate n index incarnations) := by
  unfold Cluster.activate
  dsimp only
  split
  · exact h.same
  rename_i core runs
  split
  · exact h.same
  rename_i command position asked
  unfold Cluster.commandAt at asked
  split at asked
  · cases asked
  rename_i e at_
  split at asked
  · rename_i member
    obtain ⟨command', decoded, same⟩ := Option.map_eq_some_iff.mp asked
    cases same
    have decodes : MembershipTransitionCommand.decode e.command = .ok command := by
      cases result : MembershipTransitionCommand.decode e.command with
      | error err => rw [result] at decoded; cases decoded
      | ok command' => rw [result] at decoded; cases decoded; rfl
    have other : ∀ id, Cluster.activation command incarnations e.position ≠ .persisted id := by
      intro id
      cases command <;> nofun
    have ok : InputOk first tr n (Cluster.activation command incarnations e.position) := by
      cases command <;> trivial
    have noProposal : proposalOf (Cluster.activation command incarnations e.position) = none := by
      cases command <;> rfl
    obtain ⟨tr', ext, v', node, effects⟩ := (h.nodes n).step h.valid runs other ok
      (fun _ _ _ _ asked => by rw [noProposal] at asked; cases asked)
      (.inr ⟨index, e, command, incarnations, at_, decide_eq_true member, decodes, rfl⟩)
    exact ⟨tr', ext.part, h.absorb ext v' node effects⟩
  · cases asked

/-- Every gated action continues the history. -/
theorem ClusterInv.act {action : ClusterAction} (gated : cluster.gated action) :
    Continues first tr (cluster.act action) := by
  cases action with
  | start n => exact h.start n
  | call n c => exact h.call n c gated
  | deliver position => exact h.deliver position
  | persist n id => exact h.persist n id
  | crash n durable => exact h.crash n durable
  | apply n => exact h.apply n
  | activate n index incarnations => exact h.activate n index incarnations

theorem ClusterInv.run (gated : cluster.gatedRun actions) :
    Continues first tr (cluster.run actions) := by
  induction actions generalizing tr cluster with
  | nil => exact h.same
  | cons action actions ih =>
    rw [Cluster.gatedRun, Bool.and_eq_true] at gated
    obtain ⟨tr', part, h'⟩ := h.act gated.1
    obtain ⟨tr'', part', h''⟩ := ih h' gated.2
    exact ⟨tr'', part.trans part', h''⟩

/-! ## Safety -/

/-- A reported entry stands in the committed log at its index. -/
theorem ClusterInv.reported {e : LogEntry} (mem : e ∈ cluster.reported n) :
    (committed tr)[e.position.index - 1]? = some e := by
  obtain ⟨output, inTrace, mem⟩ := mem_flatMap.mp mem
  split at mem
  · rename_i m life entries
    split at mem
    · exact (h.trace m life _ inTrace e mem).2
    · cases mem
  · cases mem

end

/-- State-machine safety: in every gated run, entries that cores report as committed at one index
are the same entry. -/
theorem commitReady_agree (first : CompiledQuorumPlan) (incarnations : MemberIncarnations)
    (actions : List ClusterAction)
    (gated : (Cluster.initial first incarnations).gatedRun actions = true) :
    let cluster := (Cluster.initial first incarnations).run actions
    ∀ m n, ∀ e ∈ cluster.reported m, ∀ e' ∈ cluster.reported n,
      e.position.index = e'.position.index → e = e' := by
  intro cluster m n e mem e' mem' same
  obtain ⟨tr, -, h⟩ := (ClusterInv.initial first incarnations).run gated
  have at_ := h.reported mem
  have at' := h.reported mem'
  rw [same, at'] at at_
  exact (Option.some.inj at_).symm

/-- A node that leads has been elected. -/
theorem ClusterInv.elected (h : ClusterInv first tr cluster) {term : Nat}
    (leads : cluster.roleOf n = some (.leader, term)) :
    ∃ e, .election e ∈ tr ∧ e.term = term ∧ e.candidate = n := by
  obtain ⟨core, runs, role⟩ := Option.map_eq_some_iff.mp leads
  obtain ⟨kind, rfl⟩ := Prod.mk.inj role
  have node := h.nodes n
  unfold NodeInv at node
  rw [runs] at node
  obtain ⟨base, running, pending⟩ := node
  have same : core.role = base.role ∧ core.currentTerm = base.currentTerm := by
    rcases pending with rfl | ⟨_, _, _, -, rfl⟩ <;> exact ⟨rfl, rfl⟩
  have standing : base.role.standing = .leader := by
    rw [← same.1]
    unfold roleKind at kind
    split at kind
    · cases kind
    · cases kind
    · rename_i state role
      rw [role]
      rfl
  obtain ⟨e, leadsE, candidate, -⟩ := running.inv.sound.leads standing
  exact ⟨e, leadsE.elected, leadsE.term.trans same.2.symm, candidate⟩

theorem gatedRun_append (cluster : Cluster) (before after : List ClusterAction) :
    cluster.gatedRun (before ++ after) = (cluster.gatedRun before && (cluster.run before).gatedRun after) := by
  induction before generalizing cluster with
  | nil => rfl
  | cons action before ih =>
    rw [cons_append, Cluster.gatedRun, Cluster.gatedRun, ih, Bool.and_assoc]
    rfl

theorem run_append_actions (cluster : Cluster) (before after : List ClusterAction) :
    cluster.run (before ++ after) = (cluster.run before).run after := foldl_append ..

theorem ClusterInv.moments (h : ClusterInv first tr cluster) (gated : cluster.gatedRun actions)
    {i j : Nat} (le : i ≤ j) :
    ∃ tr₁ tr₂, tr₁ <+: tr₂ ∧ ClusterInv first tr₁ (cluster.run (actions.take i)) ∧
      ClusterInv first tr₂ (cluster.run (actions.take j)) := by
  have split : actions.take j = actions.take i ++ (actions.drop i).take (j - i) := by
    rw [← take_add, Nat.add_sub_cancel' le]
  have gatedJ : cluster.gatedRun (actions.take j) = true := by
    rw [← take_append_drop j actions, gatedRun_append, Bool.and_eq_true] at gated
    exact gated.1
  rw [split, gatedRun_append, Bool.and_eq_true] at gatedJ
  obtain ⟨tr₁, -, h₁⟩ := h.run gatedJ.1
  obtain ⟨tr₂, part, h₂⟩ := h₁.run gatedJ.2
  exact ⟨tr₁, tr₂, part, h₁, by rw [split, run_append_actions]; exact h₂⟩

/-- Election safety: in every gated run, no two nodes lead one term, be it at different moments. -/
theorem leader_unique (first : CompiledQuorumPlan) (incarnations : MemberIncarnations)
    (actions : List ClusterAction)
    (gated : (Cluster.initial first incarnations).gatedRun actions = true) : ∀ i j m n term,
      ((Cluster.initial first incarnations).run (actions.take i)).roleOf m = some (.leader, term) →
      ((Cluster.initial first incarnations).run (actions.take j)).roleOf n = some (.leader, term) →
      m = n := by
  have ordered : ∀ i j, i ≤ j → ∀ m n term,
      ((Cluster.initial first incarnations).run (actions.take i)).roleOf m = some (.leader, term) →
      ((Cluster.initial first incarnations).run (actions.take j)).roleOf n = some (.leader, term) →
      m = n := by
    intro i j le m n term leads leads'
    obtain ⟨tr₁, tr₂, part, h₁, h₂⟩ := (ClusterInv.initial first incarnations).moments gated le
    obtain ⟨e, mem, termE, rfl⟩ := h₁.elected leads
    obtain ⟨e', mem', termE', rfl⟩ := h₂.elected leads'
    exact h₂.valid.elected_once (part.subset mem) mem' (termE.trans termE'.symm)
  intro i j m n term leads leads'
  rcases le_total i j with le | le
  · exact ordered i j le m n term leads leads'
  · exact (ordered j i le n m term leads' leads).symm

end

/-! ## Two membership commands in a row

Node 1 is the only voter and node 2 a learner. Node 1 proposes the promotion of node 2 and, before it
has activated it, the plan in which node 2 alone decides. Both are committed by node 1. Node 2 learns
that, activates both and elects itself; node 1 restarts in the first plan and does the same. -/

namespace Pipeline

def oldSpec : QuorumPlanSpec :=
  { planId := 7, formatVersion := 1, membershipEpoch := 1, voters := .singleton 1, learners := .singleton 2
    eligibleLeaders := .singleton 1, election := .voter 1, commit := .voter 1, read := .voter 1 }

def newSpec : QuorumPlanSpec :=
  { planId := 8, formatVersion := 1, membershipEpoch := 2, voters := (OrdSet.singleton 1).insert 2
    learners := .empty, eligibleLeaders := (OrdSet.singleton 1).insert 2, election := .voter 2
    commit := .voter 2, read := .voter 2 }

def oldPlan : CompiledQuorumPlan := (compilePlan oldSpec).toOption.get (by decide +kernel)

def newPlan : CompiledQuorumPlan := (compilePlan newSpec).toOption.get (by decide +kernel)

def joint : JointQuorumPlan := (JointQuorumPlan.new? oldPlan newPlan).get (by decide +kernel)

def commandBytes (kind : Nat) (plan : ActiveQuorumPlan) (evidence : List Nat) : List Nat :=
  let bytes := plan.encode.toOption.getD []
  MembershipTransitionCommand.header ++ [kind, 0] ++ beBytes 4 bytes.length ++ bytes ++ evidence

def promote : List Nat :=
  commandBytes 2 (.joint joint) (beBytes 16 2 ++ beBytes 8 1 ++ beBytes 8 1 ++ beBytes 8 1 ++ beBytes 32 5)

def finalise : List Nat := commandBytes 3 (.stable newPlan) []

def incarnations : MemberIncarnations := .firstTwo

def propose (id version : Nat) (command : List Nat) : CoreCall := .step (.propose id id version command)

def initial : Cluster := .initial oldPlan incarnations

/-- Node 1 commits both commands, node 2 activates both, and each elects itself in term 2. -/
def elections : List ClusterAction :=
  [.start 1, .start 2, .call 1 (.step .electionTimeout), .persist 1 1,
    .call 1 (propose 1 2 promote), .persist 1 2, .call 1 (propose 2 2 finalise), .persist 1 3,
    .call 1 (.step .heartbeat),
    .deliver 3, .persist 2 1, .call 2 (.step (.appliedThrough 2)),
    .activate 2 1 incarnations, .persist 2 2, .activate 2 2 incarnations, .persist 2 3,
    .call 2 (.step .electionTimeout), .persist 2 4,
    .crash 1 false, .start 1, .call 1 (.step .electionTimeout), .persist 1 1]

/-- Each leader commits a command of its own at index 3. -/
def proposals : List ClusterAction :=
  [.call 1 (propose 9 1 [1]), .persist 1 2, .call 2 (propose 8 1 [2]), .persist 2 5]

def third (id byte : Nat) : LogEntry :=
  { position := ⟨2, 3⟩, operationId := id, commandVersion := 1, command := [byte]
    commandDigest := .command 1 [byte] }

/-- Without the gate two nodes lead term 2. -/
theorem two_leaders : (initial.run elections).roleOf 1 = some (.leader, 2) ∧
    (initial.run elections).roleOf 2 = some (.leader, 2) := by
  decide +kernel

/-- Without the gate two entries are committed at index 3. -/
theorem two_commits : third 9 1 ∈ (initial.run (elections ++ proposals)).reported 1 ∧
    third 8 2 ∈ (initial.run (elections ++ proposals)).reported 2 ∧
    (third 9 1).position.index = (third 8 2).position.index ∧ third 9 1 ≠ third 8 2 := by
  decide +kernel

/-- The same change one command at a time: both nodes activate the promotion before node 1 finalises,
node 2 acknowledges that and both learn that it is committed. -/
def oneByOne : List ClusterAction :=
  [.start 1, .start 2, .call 1 (.step .electionTimeout), .persist 1 1,
    .call 1 (propose 1 2 promote), .persist 1 2, .call 1 (.step .heartbeat),
    .deliver 2, .persist 2 1, .call 2 (.step (.appliedThrough 1)), .activate 2 1 incarnations, .persist 2 2,
    .call 1 (.step (.appliedThrough 1)), .activate 1 1 incarnations, .persist 1 3,
    .call 1 (propose 2 2 finalise), .persist 1 4,
    .deliver 6, .persist 2 3, .deliver 7, .call 1 (.step .heartbeat), .deliver 8]

theorem commitReady_agree_oneByOne : initial.gatedRun oneByOne = true ∧
    ((initial.run oneByOne).reported 1).length = 2 ∧ ((initial.run oneByOne).reported 2).length = 2 ∧
    ∀ m n, ∀ e ∈ (initial.run oneByOne).reported m, ∀ e' ∈ (initial.run oneByOne).reported n,
      e.position.index = e'.position.index → e = e' :=
  ⟨by decide +kernel, by decide +kernel, by decide +kernel,
    commitReady_agree oldPlan incarnations oneByOne (by decide +kernel)⟩

theorem leader_unique_oneByOne : initial.gatedRun oneByOne = true ∧
    (initial.run oneByOne).roleOf 1 = some (.leader, 1) ∧ (initial.run oneByOne).roleOf 2 = some (.follower, 1) ∧
    ∀ i j m n term, (initial.run (oneByOne.take i)).roleOf m = some (.leader, term) →
      (initial.run (oneByOne.take j)).roleOf n = some (.leader, term) → m = n :=
  ⟨by decide +kernel, by decide +kernel, by decide +kernel, leader_unique oldPlan incarnations oneByOne (by decide +kernel)⟩

end Pipeline

end MeshSpan
