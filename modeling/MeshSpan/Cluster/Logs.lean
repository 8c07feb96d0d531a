import MeshSpan.Cluster.Safety

/- What the disks of a cluster have in common in every gated run, crashes and restarts included:
   logs that share an entry's term share all before it, and the latest leader holds whatever any
   node has reported as committed. -/

namespace MeshSpan

open Ledger List

namespace Cluster

variable (cluster : Cluster)

/-- Durable logs with entries of one term at one index are the same up to it. -/
def LogsMatch : Prop := ∀ m n i x y,
  (cluster.nodes m).disk.log[i]? = some x → (cluster.nodes n).disk.log[i]? = some y →
  x.position.term = y.position.term →
    (cluster.nodes m).disk.log.take (i + 1) = (cluster.nodes n).disk.log.take (i + 1)

/-- A leader whose term no disk has passed holds every entry that was ever reported as committed. -/
def LeaderComplete : Prop := ∀ n term, cluster.roleOf n = some (.leader, term) →
  (∀ m, (cluster.nodes m).disk.currentTerm ≤ term) → ∀ m, ∀ e ∈ cluster.reported m,
    (cluster.nodes n).disk.log[e.position.index - 1]? = some e

end Cluster

variable {first : CompiledQuorumPlan} {tr : History NodeId LogEntry} {cluster : Cluster}

/-- The disk of a node is that of a replica that the history accounts for. -/
theorem ClusterInv.onDisk (h : ClusterInv first tr cluster) (n : NodeId) :
    ∃ s, (electorate first).Sound tr n s ∧ s.log = (cluster.nodes n).disk.log ∧
      s.term = (cluster.nodes n).disk.currentTerm ∧
      ∀ term, cluster.roleOf n = some (.leader, term) → s.standing = .leader ∧ s.term = term := by
  have node := h.nodes n
  unfold NodeInv at node
  unfold Cluster.roleOf
  split at node
  · rename_i down
    exact ⟨_, node.sound, rfl, rfl, by simp [down]⟩
  · rename_i core runs
    obtain ⟨base, running, pending⟩ := node
    have same : core.role = base.role ∧ core.currentTerm = base.currentTerm := by
      rcases pending with rfl | ⟨_, _, _, -, rfl⟩ <;> exact ⟨rfl, rfl⟩
    refine ⟨_, running.inv.sound, running.stored.log.symm, running.stored.term.symm, ?_⟩
    rw [runs, Option.map_some, ConsensusCore.roleKind, same.1, same.2]
    unfold ConsensusCore.replica
    cases base.role <;> simp [RoleState.standing]

/-- The committed log is part of the log of a leader that no later campaign has followed. -/
theorem committed_led (v : (electorate first).Valid tr) {e : Election NodeId LogEntry}
    (elected : .election e ∈ tr) (latest : ∀ r, .campaign r ∈ tr → r.term ≤ e.term) :
    committed tr <+: led tr e.term := by
  rcases v.committed_chosen with nil | ⟨y, σ, -, chosen, whole⟩
  · rw [nil]
    exact nil_prefix
  rw [← whole]
  obtain ⟨e', leads, -⟩ := chosen.elected
  obtain ⟨τ, -, -, won, -⟩ := v.at_mem (mem_of_mem_take leads.elected)
  obtain ⟨ρ, r, asked, backs⟩ := won.asked
  have le := latest r (mem_of_mem_take (mem_of_getElem? asked))
  rw [backs.term, leads.term] at le
  rcases le.lt_or_eq with higher | same
  · exact (Electorate.leader_complete_mem v chosen elected higher).trans (v.election_led elected)
  · exact same ▸ v.commit_led chosen

section

variable (first : CompiledQuorumPlan) (incarnations : MemberIncarnations) (actions : List ClusterAction)
  (gated : (Cluster.initial first incarnations).gatedRun actions)

include gated

theorem logs_match : ((Cluster.initial first incarnations).run actions).LogsMatch := by
  intro m n i x y atX atY same
  obtain ⟨tr, -, h⟩ := (ClusterInv.initial first incarnations).run gated
  obtain ⟨s, sound, log, -⟩ := h.onDisk m
  obtain ⟨s', sound', log', -⟩ := h.onDisk n
  rw [← log] at atX ⊢
  rw [← log'] at atY ⊢
  -- both stand on the log of the leader of that term
  have part := (sound.rooted i x atX).1
  have part' := (sound'.rooted i y atY).1
  rw [show (electorate first).term x = _ from same] at part
  obtain ⟨inside, -⟩ := List.getElem?_eq_some_iff.mp atX
  obtain ⟨inside', -⟩ := List.getElem?_eq_some_iff.mp atY
  exact (prefix_of_prefix_length_le part part' (by simp; omega)).eq_of_length (by simp; omega)

theorem leader_complete_durable : ((Cluster.initial first incarnations).run actions).LeaderComplete := by
  intro n term leads latest m e mem
  obtain ⟨tr, -, h⟩ := (ClusterInv.initial first incarnations).run gated
  obtain ⟨s, sound, log, -, standing⟩ := h.onDisk n
  obtain ⟨leader, rfl⟩ := standing term leads
  obtain ⟨e', elected, -, same, -, whole, -⟩ := sound.leader leader
  rw [← log, ← whole, ← same]
  refine getElem?_of_part (committed_led h.valid elected fun r asked => ?_) (h.reported mem)
  obtain ⟨s', sound', -, disk, -⟩ := h.onDisk r.candidate
  rw [same]
  exact (sound'.campaigned r asked rfl).trans (disk ▸ latest r.candidate)

end

namespace Pipeline

theorem logs_match_oneByOne : ((initial.run oneByOne).nodes 2).disk.log.length = 2 ∧
    (initial.run oneByOne).LogsMatch :=
  ⟨by decide +kernel, logs_match oldPlan incarnations oneByOne (by decide +kernel)⟩

theorem leader_complete_oneByOne : (initial.run oneByOne).roleOf 1 = some (.leader, 1) ∧
    (initial.run oneByOne).LeaderComplete :=
  ⟨by decide +kernel, leader_complete_durable oldPlan incarnations oneByOne (by decide +kernel)⟩

end Pipeline

end MeshSpan
