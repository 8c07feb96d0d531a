import MeshSpan.Core.State

/- Several consensus cores, their disks and the network between them.

   A node has a disk and, while its process runs, a core. The disk is written
   when a mutation the core asked for becomes durable and when a committed entry
   is applied; everything else of the core is lost in a crash. A message that a
   core sends stays in the network for ever and may be delivered to its addressee
   any number of times, in any order or never. It arrives with the node that sent
   it and the incarnation which that node had.

   Membership commands are decoded from entries of the core's log and handed to
   it; the core itself asks that the entry be applied. The activation that this
   persists is what makes a membership entry applied on the disk.

   Correspondence (Rust ↔ Lean)
     ConsensusCore::restore_active at process start  ↔  `ClusterAction.start`
     PartitionConsensusDriver::step                  ↔  `.call`, `.deliver`
     PartitionConsensusPersistence::persist_mutation
       followed by CoreInput::Persisted              ↔  `.persist`
     apply_committed, apply_term_confirmation        ↔  `.apply`
     apply_membership_transition                     ↔  `.activate`, whose incarnations stand
       for what the membership tables say
     process crash, with the mutation in flight
       durable or not                                ↔  `.crash`

   An action that does not apply (a node that is down, a message that is not
   there) leaves the cluster as it is. -/

namespace MeshSpan

/-! ## Nodes -/

/-- What a node keeps through a crash. -/
structure NodeDisk where
  currentTerm : Nat
  votedFor : Option NodeId
  log : List LogEntry
  appliedIndex : Nat
  activePlan : ActiveQuorumPlan
  incarnations : MemberIncarnations

namespace NodeDisk

def initial (plan : CompiledQuorumPlan) (incarnations : MemberIncarnations) : NodeDisk :=
  { currentTerm := 0, votedFor := none, log := [], appliedIndex := 0, activePlan := .stable plan
    incarnations }

variable (disk : NodeDisk)

def config (node : NodeId) : CoreConfig :=
  { localNodeId := node
    localIncarnation := (disk.incarnations.incarnation node).getD 0
    plan := disk.activePlan.recoveryConfigurationPlan
    memberIncarnations := disk.incarnations }

def durable : DurableCoreState :=
  { currentTerm := disk.currentTerm, votedFor := disk.votedFor, log := disk.log
    appliedIndex := disk.appliedIndex }

def restore (node : NodeId) : Except CoreError ConsensusCore :=
  ConsensusCore.restoreActive (disk.config node) disk.durable disk.activePlan

/-- The disk once the mutation in flight is durable. -/
def write (pending : PendingPersistence) : NodeDisk :=
  let mutation := pending.mutation
  let kept := match mutation.truncateFrom with
    | none => disk.log
    | some index => disk.log.filter fun e => decide (e.position.index < index)
  { currentTerm := (mutation.voteState.map Prod.fst).getD disk.currentTerm
    votedFor := (mutation.voteState.map Prod.snd).getD disk.votedFor
    log := kept ++ mutation.append
    appliedIndex := (mutation.quorumPlan.map (·.activatedPosition.index)).getD disk.appliedIndex
    activePlan := (mutation.quorumPlan.map (·.activePlan)).getD disk.activePlan
    incarnations := match pending.action with
      | .activateJoint _ incarnations | .activateStable _ incarnations => incarnations
      | _ => disk.incarnations }

end NodeDisk

/-- One node: its disk, its core while the process runs, the number of processes started so far,
and the process of the peer whose message the core is working on. -/
structure Node where
  disk : NodeDisk
  core : Option ConsensusCore
  (life answering : Nat)

/-! ## Messages and outputs -/

/-- A message on the network. The life is that of the sending process; a reply to an append carries
the life of the process that asked. -/
structure Envelope where
  sender : NodeId
  incarnation : Nat
  receiver : NodeId
  message : CoreMessage
  life : Nat

/-- What can be observed of a run: an effect of a core, or a read barrier that a leader took on. -/
inductive Output where
  | effect (node : NodeId) (life : Nat) (effect : CoreEffect)
  | begun (node : NodeId) (life : Nat) (id : Nat)

structure Cluster where
  nodes : NodeId → Node
  network : List Envelope
  trace : List Output

inductive ClusterAction where
  | start (node : NodeId)
  | call (node : NodeId) (call : CoreCall)
  | deliver (position : Nat)
  | persist (node : NodeId) (id : Nat)
  | crash (node : NodeId) (durable : Bool)
  | apply (node : NodeId)
  | activate (node : NodeId) (index : Nat) (incarnations : MemberIncarnations)

namespace Cluster

/-- All nodes down, with one plan and an empty log. -/
def initial (plan : CompiledQuorumPlan) (incarnations : MemberIncarnations) : Cluster :=
  { nodes := fun _ => { disk := .initial plan incarnations, core := none, life := 0, answering := 0 }
    network := [], trace := [] }

variable (cluster : Cluster) (node : NodeId)

def setNode (value : Node) : Cluster :=
  { cluster with nodes := fun other => if other = node then value else cluster.nodes other }

def envelope (incarnation life answering : Nat) : CoreEffect → Option Envelope
  | .send receiver message => some
    { sender := node, incarnation, receiver, message
      life := match message with
        | .appendResponse _ => answering
        | _ => life }
  | _ => none

/-- Takes in what a step of a node's core returned. -/
def absorb (value : Node) (result : StepResult) : Cluster :=
  let effects := ConsensusCore.effectsOf result.2
  let incarnation := result.1.config.localIncarnation
  { nodes := fun other => if other = node then { value with core := some result.1 }
      else cluster.nodes other
    network := cluster.network ++
      effects.filterMap (envelope node incarnation value.life value.answering)
    trace := cluster.trace ++ effects.map (.effect node value.life) }

/-- The inputs that a node's own runtime may give at any time. -/
def isLocal : CoreCall → Bool
  | .step (.message _ _ _) | .step (.persisted _) | .step (.activateJointPlan _ _ _)
  | .step (.activateStablePlan _ _ _) => false
  | _ => true

def opened (life : Nat) (c : CoreCall) (result : StepResult) : List Output :=
  match c, result.2 with
  | .step (.beginReadBarrier id), .ok _ => [.begun node life id]
  | _, _ => []

/-- The input by which a node's runtime hands a membership command to its core. -/
def activation (command : MembershipTransitionCommand) (incarnations : MemberIncarnations)
    (position : LogPosition) : CoreInput :=
  match command with
  | .admitLearner joint _ _ | .promoteLearner joint _ | .removeMember joint _ _ =>
    .activateJointPlan joint incarnations position
  | .finaliseStable plan => .activateStablePlan plan incarnations position

def commandAt (core : ConsensusCore) (index : Nat) : Option (MembershipTransitionCommand × LogPosition) :=
  match core.entry index with
  | none => none
  | some e =>
    if e.commandVersion = membershipCommandVersion then
      (MembershipTransitionCommand.decode e.command).toOption.map fun command => (command, e.position)
    else none

/-- Whether the entry after the last applied one is committed and no membership command. -/
def mayApply (disk : NodeDisk) (core : ConsensusCore) : Bool :=
  (disk.appliedIndex + 1 ≤ core.commitIndex) &&
    (core.entry (disk.appliedIndex + 1)).any fun e => decide (e.commandVersion ≠ membershipCommandVersion)

/-! ## Steps -/

def start : Cluster :=
  let value := cluster.nodes node
  match value.core with
  | some _ => cluster
  | none =>
    match value.disk.restore node with
    | .error _ => cluster
    | .ok core => cluster.setNode node { value with core := some core, life := value.life + 1 }

def call (cluster : Cluster) (node : NodeId) (c : CoreCall) : Cluster :=
  let value := cluster.nodes node
  match value.core with
  | none => cluster
  | some core =>
    if isLocal c = false then cluster
    else
      let result := core.call c
      let opens := { cluster with trace := cluster.trace ++ opened node value.life c result }
      opens.absorb node value result

def deliver (position : Nat) : Cluster :=
  match cluster.network[position]? with
  | none => cluster
  | some envelope =>
    let value := cluster.nodes envelope.receiver
    match value.core with
    | none => cluster
    | some core =>
      let working := if core.pending = none then { value with answering := envelope.life } else value
      cluster.absorb envelope.receiver working
        (core.step (.message envelope.sender envelope.incarnation envelope.message))

def persist (id : Nat) : Cluster :=
  let value := cluster.nodes node
  match value.core with
  | none => cluster
  | some core =>
    let disk := match core.pending with
      | none => value.disk
      | some pending => if pending.id = id then value.disk.write pending else value.disk
    cluster.absorb node { value with disk } (core.step (.persisted id))

def crash (durable : Bool) : Cluster :=
  let value := cluster.nodes node
  match value.core with
  | none => cluster
  | some core =>
    let disk := match core.pending with
      | none => value.disk
      | some pending => if durable then value.disk.write pending else value.disk
    cluster.setNode node { value with disk, core := none }

def apply : Cluster :=
  let value := cluster.nodes node
  match value.core with
  | none => cluster
  | some core =>
    if mayApply value.disk core then
      cluster.setNode node
        { value with disk := { value.disk with appliedIndex := value.disk.appliedIndex + 1 } }
    else cluster

def activate (index : Nat) (incarnations : MemberIncarnations) : Cluster :=
  let value := cluster.nodes node
  match value.core with
  | none => cluster
  | some core =>
    match commandAt core index with
    | none => cluster
    | some (command, position) =>
      cluster.absorb node value (core.step (activation command incarnations position))

def act : ClusterAction → Cluster
  | .start node => cluster.start node
  | .call node c => cluster.call node c
  | .deliver position => cluster.deliver position
  | .persist node id => cluster.persist node id
  | .crash node durable => cluster.crash node durable
  | .apply node => cluster.apply node
  | .activate node index incarnations => cluster.activate node index incarnations

def run (actions : List ClusterAction) : Cluster := actions.foldl act cluster

/-! ## Reading a cluster -/

/-- The role and term of a node whose process runs. -/
def roleOf : Option (Role × Nat) :=
  (cluster.nodes node).core.map fun core => (core.roleKind, core.currentTerm)

/-- The entries that a node has reported as committed, over all its processes. -/
def reported : List LogEntry :=
  cluster.trace.flatMap fun output => match output with
    | .effect n _ (.commitReady entries) => if n = node then entries else []
    | _ => []

end Cluster

end MeshSpan
