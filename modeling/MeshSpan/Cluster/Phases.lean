import MeshSpan.Ledger.Replica
import MeshSpan.Cluster.System
import MeshSpan.Core.Persistence

/- The cores' log entries and active plans as an electorate.

   A membership command takes the active plan to its successor, if the successor
   continues it (`ActiveQuorumPlan.Succeeds`, by proof digest as activation
   compares). Quorums of one plan and of successive plans meet by
   `ActiveQuorumPlan.election_meets`, `successor_meets` and `predecessor_meets`.

   The second half is about the ranges that messages carry. A range names the
   entry before it by position and digest; two logs that both come from leaders
   and hold that entry agree up to it (`Describes.take_eq`). -/

namespace MeshSpan

open Ordered Ledger List

/-! ## The electorate -/

def MembershipTransitionCommand.target : MembershipTransitionCommand → ActiveQuorumPlan
  | .admitLearner joint _ _ | .promoteLearner joint _ | .removeMember joint _ _ => .joint joint
  | .finaliseStable plan => .stable plan

instance ActiveQuorumPlan.decidableSucceeds : ∀ p q : ActiveQuorumPlan, Decidable (p.Succeeds q)
  | .stable plan, .joint j => inferInstanceAs (Decidable (plan.proofDigest = j.old.proofDigest))
  | .joint j, .stable plan => inferInstanceAs (Decidable (plan.proofDigest = j.new.proofDigest))
  | .stable _, .stable _ => .isFalse id
  | .joint _, .joint _ => .isFalse id

def LogEntry.isMembership (e : LogEntry) : Bool := e.commandVersion = membershipCommandVersion

/-- The plan after a membership entry, if its command continues the present one. -/
def nextPlan (plan : ActiveQuorumPlan) (e : LogEntry) : Option ActiveQuorumPlan :=
  match MembershipTransitionCommand.decode e.command with
  | .error _ => none
  | .ok command => if plan.Succeeds command.target then some command.target else none

variable {e : LogEntry} {p q : ActiveQuorumPlan} {core : ConsensusCore} {log : List LogEntry}

theorem nextPlan_succeeds (h : nextPlan p e = some q) : p.Succeeds q := by
  unfold nextPlan at h
  split at h
  · cases h
  split at h
  · rename_i succeeds
    cases h
    exact succeeds
  · cases h

theorem nextPlan_target {command : MembershipTransitionCommand} (h : nextPlan p e = some q)
    (decodes : MembershipTransitionCommand.decode e.command = .ok command) : q = command.target := by
  unfold nextPlan at h
  rw [decodes] at h
  dsimp only at h
  split at h
  · exact (Option.some.inj h).symm
  · cases h

def Satisfied (plan : ActiveQuorumPlan) (family : QuorumFamily) (V : Set NodeId) : Prop :=
  ∃ nodes : OrdSet NodeId, plan.satisfies family nodes = true ∧ ∀ v ∈ nodes, v ∈ V

theorem Satisfied.meet {family family' : QuorumFamily} {V W : Set NodeId}
    (meets : ∀ {a b : OrdSet NodeId}, p.satisfies family a = true → q.satisfies family' b = true →
      ∃ v, v ∈ a ∧ v ∈ b) (hV : Satisfied p family V) (hW : Satisfied q family' W) : ∃ v ∈ V, v ∈ W := by
  obtain ⟨a, hasA, inV⟩ := hV
  obtain ⟨b, hasB, inW⟩ := hW
  obtain ⟨v, inA, inB⟩ := meets hasA hasB
  exact ⟨v, inV v inA, inW v inB⟩

def electorate (plan : CompiledQuorumPlan) : Electorate NodeId LogEntry ActiveQuorumPlan where
  term e := e.position.term
  member := LogEntry.isMembership
  first := .stable plan
  next := nextPlan
  elects p := Satisfied p .election
  commits p := Satisfied p .commit
  elects_elects := Satisfied.meet (ActiveQuorumPlan.election_meets _)
  elects_commits := Satisfied.meet (ActiveQuorumPlan.election_meets _)
  elects_elects_next h := Satisfied.meet (ActiveQuorumPlan.successor_meets (nextPlan_succeeds h))
  elects_commits_next h := Satisfied.meet (ActiveQuorumPlan.successor_meets (nextPlan_succeeds h))
  elects_commits_prev h := Satisfied.meet (ActiveQuorumPlan.predecessor_meets (nextPlan_succeeds h))

section Phases

variable {first : CompiledQuorumPlan} {C : List LogEntry} {p q : ActiveQuorumPlan} {j k : Nat}

theorem planAt_phaseNumber (at_ : (electorate first).planAt C k = some p) :
    p.phaseNumber = (ActiveQuorumPlan.stable first).phaseNumber + k := by
  induction k generalizing p with
  | zero =>
    rw [Electorate.planAt_zero] at at_
    cases at_
    rfl
  | succ k ih =>
    obtain ⟨before, e, at_before, step⟩ := Electorate.planAt_prev at_
    rw [ActiveQuorumPlan.succeeds_phaseNumber (nextPlan_succeeds step), ih at_before]
    omega

/-- The digest that messages carry tells the phases of one committed log apart. -/
theorem phase_eq_of_digest (at_ : (electorate first).planAt C j = some p)
    (at' : (electorate first).planAt C k = some q) (same : p.proofDigest = q.proofDigest) : j = k := by
  have hp := planAt_phaseNumber at_
  have hq := planAt_phaseNumber at'
  have := ActiveQuorumPlan.phaseNumber_eq_of_digest same
  omega

end Phases

/-! ## Ranges of a log -/

/-- Position and digest of the entry that ends the first `i` entries of a log. -/
def endOf (log : List LogEntry) (i : Nat) : Option (LogPosition × Digest) :=
  if i = 0 then some (.genesis, zeroDigest)
  else (log[i - 1]?).map fun e => (e.position, e.entryDigest)

theorem positionAt_eq (h : Contiguous core.log) (i : Nat) : core.positionAt i = endOf core.log i := by
  unfold ConsensusCore.positionAt endOf
  split
  · rfl
  · rw [ConsensusCore.entry_of_contiguous h (by omega)]

/-- A range of entries continues `X` after the entry it names, up to the end of `X`. -/
structure Describes (X : List LogEntry) (previous : LogPosition) (digest : Digest)
    (entries : List LogEntry) : Prop where
  within : previous.index ≤ X.length
  attaches : endOf X previous.index = some (previous, digest)
  continues : X = X.take previous.index ++ entries

variable {digest : Digest} {previous : LogPosition} {i : Nat}

theorem Describes.length {X entries : List LogEntry} (h : Describes X previous digest entries) :
    X.length = previous.index + entries.length := by
  have := congrArg List.length h.continues
  simp only [length_append, length_take, min_eq_left h.within] at this
  exact this

theorem Contiguous.filter_range (h : Contiguous log) (i stop : Nat) :
    log.filter (fun e => e.position.index ≥ i + 1 ∧ e.position.index ≤ stop) =
      (log.take stop).drop i := by
  have split : log = log.take i ++ ((log.take stop).drop i ++ (log.drop i).drop (stop - i)) := by
    rw [drop_take, take_append_drop, take_append_drop]
  -- below `i` nothing passes, between `i` and `stop` everything, above `stop` nothing
  have low : (log.take i).filter
      (fun e => e.position.index ≥ i + 1 ∧ e.position.index ≤ stop) = [] := by
    rw [filter_eq_nil_iff]
    intro e mem
    obtain ⟨a, at_⟩ := mem_iff_getElem?.mp mem
    obtain ⟨lt, at_⟩ := getElem?_of_take at_
    have := h a e at_
    simp only [decide_eq_true_eq]
    omega
  have middle : ((log.take stop).drop i).filter
      (fun e => e.position.index ≥ i + 1 ∧ e.position.index ≤ stop) = (log.take stop).drop i := by
    rw [filter_eq_self]
    intro e mem
    obtain ⟨a, at_⟩ := mem_iff_getElem?.mp mem
    rw [getElem?_drop] at at_
    obtain ⟨lt, at_⟩ := getElem?_of_take at_
    have := h _ e at_
    simp only [decide_eq_true_eq]
    omega
  have high : ((log.drop i).drop (stop - i)).filter
      (fun e => e.position.index ≥ i + 1 ∧ e.position.index ≤ stop) = [] := by
    rw [filter_eq_nil_iff]
    intro e mem
    obtain ⟨a, at_⟩ := mem_iff_getElem?.mp mem
    rw [drop_drop, getElem?_drop] at at_
    have := h _ e at_
    simp only [decide_eq_true_eq]
    omega
  conv_lhs => rw [split]
  rw [filter_append, filter_append, low, middle, high, nil_append, append_nil]

theorem takeWithinBudget_take (overhead : Nat) : ∀ (entries : List LogEntry) (commandBytes framedBytes : Nat),
    ∃ m, ConsensusCore.takeWithinBudget overhead commandBytes framedBytes entries = entries.take m
  | [], _, _ => ⟨0, rfl⟩
  | e :: es, commandBytes, framedBytes => by
    unfold ConsensusCore.takeWithinBudget
    split
    · exact ⟨0, rfl⟩
    split
    · rename_i framed _ _
      obtain ⟨m, hm⟩ := takeWithinBudget_take overhead es (commandBytes - e.command.length)
        (framedBytes - framed)
      exact ⟨m + 1, by rw [hm, take_succ_cons]⟩
    · exact ⟨0, rfl⟩

theorem replicationEntries_take (h : Contiguous core.log) (peer : NodeId) (i stop : Nat) :
    ∃ m, core.replicationEntries peer (i + 1) stop = ((core.log.take stop).drop i).take m := by
  unfold ConsensusCore.replicationEntries
  simp only [h.filter_range i stop]
  obtain ⟨m, hm⟩ := takeWithinBudget_take
    ((core.replicationPeers.get? peer).getD core.replicationDefault).entryOverhead
    (((core.log.take stop).drop i).take maximumAppendEntries) maximumAppendCommandBytes
    ((core.replicationPeers.get? peer).getD core.replicationDefault).maxBytes
  exact ⟨min m maximumAppendEntries, by rw [hm, take_take]⟩

theorem describes_take (h : Contiguous core.log)
    (at_ : core.positionAt previous.index = some (previous, digest)) (stop m : Nat) :
    ∃ len, Describes (core.log.take len) previous digest
      (((core.log.take stop).drop previous.index).take m) ∧ (len ≤ stop ∨ len = previous.index) := by
  rw [positionAt_eq h] at at_
  have within : previous.index ≤ core.log.length := by
    unfold endOf at at_
    split at at_
    · omega
    · obtain ⟨e, he, -⟩ := Option.map_eq_some_iff.mp at_
      have := (List.getElem?_eq_some_iff.mp he).1
      omega
  have ends : ∀ len, previous.index ≤ len → endOf (core.log.take len) previous.index = some (previous, digest) := by
    intro len le
    unfold endOf at at_ ⊢
    split at at_
    · rw [if_pos (by assumption)]; exact at_
    · rw [if_neg (by assumption), getElem?_take, if_pos (by omega)]
      exact at_
  refine ⟨previous.index + (((core.log.take stop).drop previous.index).take m).length,
    ⟨?_, ends _ (by omega), ?_⟩, ?_⟩
  · simp only [length_take, length_drop]; omega
  · rw [take_take, min_eq_left (by omega), take_add]
    congr 1
    rw [drop_take, take_take, length_take, length_drop]
    rw [take_eq_take_iff]
    simp only [length_drop]
    omega
  · simp only [length_take, length_drop]
    omega

section Rooted

variable {first : CompiledQuorumPlan} {tr : History NodeId LogEntry} {core : ConsensusCore}
  {X entries : List LogEntry} {previous : LogPosition} {digest : Digest}

/-- Two logs that come from leaders and hold one entry agree up to it. -/
theorem take_eq_of_rooted {A B : List LogEntry} (rootA : (electorate first).Rooted tr A)
    (rootB : (electorate first).Rooted tr B) (atA : A[i]? = some e) (atB : B[i]? = some e) :
    A.take (i + 1) = B.take (i + 1) := by
  have lenA := (List.getElem?_eq_some_iff.mp atA).1
  have lenB := (List.getElem?_eq_some_iff.mp atB).1
  refine (prefix_of_prefix_length_le (rootA i e atA).1 (rootB i e atB).1 ?_).eq_of_length ?_ <;>
  · simp only [length_take]
    omega

theorem Describes.take_eq (h : Describes X previous digest entries) (log : Contiguous core.log)
    (valid : ValidEntries core.log) (validX : ValidEntries X)
    (rooted : (electorate first).Rooted tr core.log) (rootedX : (electorate first).Rooted tr X)
    (holds : core.positionMatches previous digest) :
    core.log.take previous.index = X.take previous.index := by
  rcases ConsensusCore.positionMatches_spec holds with rfl | ⟨e, entry, -, same⟩
  · rfl
  obtain ⟨pos, -⟩ := ConsensusCore.entry_le log entry
  rw [ConsensusCore.entry_of_contiguous log pos] at entry
  have attaches := h.attaches
  unfold endOf at attaches
  rw [if_neg (by omega)] at attaches
  obtain ⟨e', entry', names⟩ := Option.map_eq_some_iff.mp attaches
  have digests : e'.entryDigest = digest := congrArg Prod.snd names
  -- digests are collision free, so both logs hold the entry the range names
  obtain rfl : e' = e := LogEntry.eq_of_entryDigest (validX _ (mem_of_getElem? entry'))
    (valid _ (mem_of_getElem? entry)) (digests.trans same.symm)
  have agree := take_eq_of_rooted rooted rootedX entry entry'
  rwa [Nat.sub_add_cancel pos] at agree

def lastOf (log : List LogEntry) : LogPosition := (log.getLast?.map (·.position)).getD .genesis

theorem lastOf_index (h : Contiguous log) : (lastOf log).index = log.length := by
  have := h.lastIndexOf
  unfold lastIndexOf at this
  unfold lastOf
  rw [← this]
  cases log.getLast? <;> rfl

theorem lastOf_term (first : CompiledQuorumPlan) (log : List LogEntry) : (lastOf log).term = (electorate first).lastTerm log := by
  unfold lastOf Electorate.lastTerm
  cases log.getLast? <;> rfl

theorem upToDate_of_le {V L : List LogEntry} (hV : Contiguous V) (hL : Contiguous L)
    (le : lastOf V ≤ lastOf L) : (electorate first).UpToDate L V := by
  rw [LogPosition.le_iff, lastOf_index hV, lastOf_index hL, lastOf_term first,
    lastOf_term first] at le
  exact le

theorem upToDate_refl (L : List LogEntry) : (electorate first).UpToDate L L := .inr ⟨rfl, le_rfl⟩

theorem lastTerm_take (at_ : log[i]? = some e) :
    (electorate first).lastTerm (log.take (i + 1)) = e.position.term := by
  have lt := (List.getElem?_eq_some_iff.mp at_).1
  refine Electorate.lastTerm_eq (E := electorate first) ?_
  rw [getLast?_eq_getElem?, length_take, Nat.min_eq_left (by omega), Nat.add_sub_cancel,
    getElem?_take, if_pos (by omega), at_]

end Rooted

end MeshSpan
