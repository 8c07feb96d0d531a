import MeshSpan.Cluster.Phases

/- What a history of the ledger says about one core and about one message.

   `CoreInv tr n k core` reads a core as a sound replica in phase `k` (the number
   of membership entries its node has applied), and accounts for what the core
   keeps beside that: the votes a candidate counts are grants on record, the
   matched indices of a leader are acknowledgements on record, and the phase
   boundaries it can replay are those of the committed log.

   `MessageOk tr sender receiver m` says what a message proves: a vote request is
   a campaign, a granted vote a grant, an append a part of the leader's log, an
   accepted append an acknowledgement, a committed range a part of the committed
   log. Both survive every extension of the history. -/

namespace MeshSpan

open Ordered Ledger

/-! ## Messages -/

section Messages

variable (first : CompiledQuorumPlan) (tr : History NodeId LogEntry)

def InPhase (k : Nat) (digest : Digest) : Prop :=
  ∃ p, (electorate first).planAt (committed tr) k = some p ∧ p.proofDigest = digest

/-- A range of entries that ends a part of `source` with at most one membership entry beyond the
phase it was sent in. -/
def RangeOk (source : List LogEntry) (previous : LogPosition) (digest : Digest)
    (entries : List LogEntry) (planDigest : Digest) : Prop :=
  ∃ X k, X <+: source ∧ Describes X previous digest entries ∧ ValidEntries X ∧
    InPhase first tr k planDigest ∧ (electorate first).members X ≤ k + 1

def Acked (term : Nat) (q : NodeId) (P : List LogEntry) : Prop :=
  ∃ a, .ack a ∈ tr ∧ a.node = q ∧ a.term = term ∧ P <+: a.log

def Granted (term : Nat) (q candidate : NodeId) : Prop :=
  ∃ g, .grant g ∈ tr ∧ g.voter = q ∧ g.term = term ∧ g.candidate = candidate

structure AppendOk (request : AppendRequest) : Prop where
  elected : ∃ e, .election e ∈ tr ∧ e.term = request.term
  range : RangeOk first tr (led tr request.term) request.previous request.previousDigest request.entries
    request.planDigest
  commit : ∃ C, C.length = request.leaderCommitIndex ∧ C <+: led tr request.term ∧ C <+: committed tr

structure CampaignSent (sender : NodeId) (request : VoteRequest) (r : Campaign NodeId LogEntry) : Prop where
  campaign : .campaign r ∈ tr
  candidate : r.candidate = sender
  term : r.term = request.term
  lastLog : lastOf r.log = request.lastLog
  contiguous : Contiguous r.log
  phase : InPhase first tr r.phase request.planDigest

/-- What a message proves to its receiver. -/
def MessageOk (sender receiver : NodeId) : CoreMessage → Prop
  | .voteRequest request => ∃ r, CampaignSent first tr sender request r
  | .voteResponse response => response.granted = true → Granted tr response.term sender receiver
  | .appendRequest request => AppendOk first tr request
  | .appendResponse response => response.accepted = true →
    ∃ P, Acked tr response.term sender P ∧ P.length = response.matchedIndex
  | .committedPrefix range => RangeOk first tr (committed tr) range.previous range.previousDigest
    range.entries range.planDigest

/-- What an effect of node `n` proves to whoever observes it. -/
def EffectOk (n : NodeId) : CoreEffect → Prop
  | .send receiver message => MessageOk first tr n receiver message
  | .commitReady entries => ∀ e ∈ entries, 0 < e.position.index ∧
    (committed tr)[e.position.index - 1]? = some e
  | _ => True

end Messages

section Mono

variable {first : CompiledQuorumPlan} {tr tr' : History NodeId LogEntry} {n : NodeId} {i : Nat}

theorem getElem?_of_part {A B : List LogEntry} (part : A <+: B) {e : LogEntry} (at_ : A[i]? = some e) :
    B[i]? = some e := by
  obtain ⟨D, rfl⟩ := part
  rw [List.getElem?_append_left (List.getElem?_eq_some_iff.mp at_).1, at_]

variable (ext : Extends n tr tr') (v : (electorate first).Valid tr')

include ext v

variable {digest : Digest} {q : NodeId}

theorem InPhase.mono {k : Nat} (h : InPhase first tr k digest) : InPhase first tr' k digest := by
  obtain ⟨p, at_, same⟩ := h
  exact ⟨p, Electorate.planAt_mono (ext.committed v) at_, same⟩

theorem RangeOk.mono {source source' : List LogEntry} {previous : LogPosition} {planDigest : Digest}
    {entries : List LogEntry} (h : RangeOk first tr source previous digest entries planDigest)
    (part : source <+: source') : RangeOk first tr' source' previous digest entries planDigest := by
  obtain ⟨X, k, inside, describes, valid, phase, room⟩ := h
  exact ⟨X, k, inside.trans part, describes, valid, phase.mono ext v, room⟩

omit v in
theorem Acked.mono {term : Nat} {P : List LogEntry} (h : Acked tr term q P) : Acked tr' term q P := by
  obtain ⟨a, mem, rest⟩ := h
  exact ⟨a, ext.mem mem, rest⟩

omit v in
theorem Granted.mono {term : Nat} {candidate : NodeId} (h : Granted tr term q candidate) :
    Granted tr' term q candidate := by
  obtain ⟨g, mem, rest⟩ := h
  exact ⟨g, ext.mem mem, rest⟩

theorem MessageOk.mono {sender receiver : NodeId} {message : CoreMessage}
    (h : MessageOk first tr sender receiver message) : MessageOk first tr' sender receiver message := by
  cases message with
  | voteRequest request =>
    obtain ⟨r, sent⟩ := h
    exact ⟨r, { sent with campaign := ext.mem sent.campaign, phase := sent.phase.mono ext v }⟩
  | voteResponse response => exact fun granted => (h granted).mono ext
  | appendRequest request =>
    obtain ⟨e, mem, term⟩ := h.elected
    obtain ⟨C, len, led, com⟩ := h.commit
    exact ⟨⟨e, ext.mem mem, term⟩, h.range.mono ext v (ext.led v _),
      C, len, led.trans (ext.led v _), com.trans (ext.committed v)⟩
  | appendResponse response =>
    intro accepted
    obtain ⟨P, acked, len⟩ := h accepted
    exact ⟨P, acked.mono ext, len⟩
  | committedPrefix range => exact RangeOk.mono ext v h (ext.committed v)

theorem EffectOk.mono {m : NodeId} {effect : CoreEffect} (h : EffectOk first tr m effect) :
    EffectOk first tr' m effect := by
  cases effect with
  | send receiver message => exact MessageOk.mono ext v h
  | commitReady entries =>
    intro e mem
    exact ⟨(h e mem).1, getElem?_of_part (ext.committed v) (h e mem).2⟩
  | _ => trivial

end Mono

/-! ## Cores -/

namespace RoleState

def standing : RoleState → Standing
  | .follower => .follower
  | .candidate _ => .candidate
  | .leader _ => .leader

def votes : RoleState → OrdSet NodeId
  | .candidate votes => votes
  | _ => .empty

def matched : RoleState → OrdMap NodeId Nat
  | .leader state => state.matched
  | _ => .empty

end RoleState

/-- A core as a replica of the ledger, in the phase of its node. -/
def ConsensusCore.replica (core : ConsensusCore) (phase : Nat) : Replica NodeId LogEntry ActiveQuorumPlan :=
  { term := core.currentTerm, vote := core.votedFor, log := core.log, commit := core.commitIndex
    phase, plan := core.activePlan, standing := core.role.standing }

section Cores

variable (first : CompiledQuorumPlan) (tr : History NodeId LogEntry)

/-- A boundary that a core can replay: the end of a phase of the committed log. -/
structure BoundaryOk (digest : Digest) (boundary : PhaseBoundary) : Prop where
  named : boundary.plan.proofDigest = digest
  within : boundary.committedPosition.index ≤ (committed tr).length
  phase : ∃ k, InPhase first tr k digest ∧
    (electorate first).members ((committed tr).take boundary.committedPosition.index) ≤ k + 1

/-- Every part of a core's log that ends in an entry of its term, up to index `m`, is acknowledged. -/
structure MatchedOk (core : ConsensusCore) (q : NodeId) (m : Nat) : Prop where
  within : m ≤ core.log.length
  acked : ∀ i ≤ m, core.ofCurrentTerm i = true → Acked tr core.currentTerm q (core.log.take i)

/-- The history accounts for the core of node `n`, which has applied `k` membership entries. -/
structure CoreInv (n : NodeId) (k : Nat) (core : ConsensusCore) : Prop where
  name : core.config.localNodeId = n
  ordered : core.LocalInv
  valid : ValidEntries core.log
  sound : (electorate first).Sound tr n (core.replica k)
  votes : ∀ v ∈ core.role.votes, Granted tr core.currentTerm v n
  matched : ∀ q m, core.role.matched.get? q = some m → MatchedOk tr core q m
  own : core.role.standing = .leader → MatchedOk tr core n core.log.length
  history : ∀ epoch digest boundary, core.membershipHistory.find epoch digest = some boundary →
    BoundaryOk first tr digest boundary

end Cores

section CoreMono

variable {first : CompiledQuorumPlan} {tr tr' : History NodeId LogEntry} {n m : NodeId} {k : Nat}
  {core core' : ConsensusCore}

theorem BoundaryOk.mono (ext : Extends n tr tr') (v : (electorate first).Valid tr')
    {boundary : PhaseBoundary} (h : BoundaryOk first tr digest boundary) :
    BoundaryOk first tr' digest boundary := by
  obtain ⟨k, phase, room⟩ := h.phase
  obtain ⟨D, grown⟩ := ext.committed v
  refine ⟨h.named, ?_, k, phase.mono ext v, ?_⟩
  · rw [← grown, List.length_append]
    exact h.within.trans (Nat.le_add_right ..)
  · rwa [← grown, List.take_append_of_le_length h.within]

theorem MatchedOk.mono (ext : Extends n tr tr') (h : MatchedOk tr core q i) : MatchedOk tr' core q i :=
  ⟨h.within, fun j le own => (h.acked j le own).mono ext⟩

theorem CoreInv.extend (h : CoreInv first tr n k core) (ext : Extends m tr tr')
    (v : (electorate first).Valid tr') (sound : (electorate first).Sound tr' n (core.replica k)) :
    CoreInv first tr' n k core :=
  { h with
    sound := sound
    votes := fun q mem => (h.votes q mem).mono ext
    matched := fun q i at_ => (h.matched q i at_).mono ext
    own := fun leads => (h.own leads).mono ext
    history := fun epoch digest boundary found => (h.history epoch digest boundary found).mono ext v }

theorem CoreInv.other (h : CoreInv first tr m k core) (ext : Extends n tr tr')
    (v : (electorate first).Valid tr') (other : m ≠ n) : CoreInv first tr' m k core :=
  h.extend ext v (h.sound.extends ext v other)

/-- The fields that the ledger reads are the same. -/
structure SameLedger (core core' : ConsensusCore) : Prop where
  name : core'.config.localNodeId = core.config.localNodeId
  plan : core'.activePlan = core.activePlan
  history : core'.membershipHistory = core.membershipHistory
  term : core'.currentTerm = core.currentTerm
  vote : core'.votedFor = core.votedFor
  log : core'.log = core.log
  commit : core'.commitIndex = core.commitIndex
  standing : core'.role.standing = core.role.standing
  votes : core'.role.votes = core.role.votes
  matched : core'.role.matched = core.role.matched

theorem MatchedOk.congr (term : core'.currentTerm = core.currentTerm) (log : core'.log = core.log)
    (h : MatchedOk tr core q i) : MatchedOk tr core' q i := by
  refine ⟨by rw [log]; exact h.within, fun j le own => ?_⟩
  rw [term, log]
  refine h.acked j le ?_
  unfold ConsensusCore.ofCurrentTerm ConsensusCore.entry at own ⊢
  rwa [term, log] at own

theorem CoreInv.congr (h : CoreInv first tr n k core) (same : SameLedger core core')
    (applied : core'.appliedIndex ≤ core'.commitIndex) : CoreInv first tr n k core' where
  name := same.name.trans h.name
  ordered := ⟨same.log ▸ h.ordered.contiguous, applied,
    by rw [same.commit, same.log]; exact h.ordered.committed, same.log ▸ h.ordered.bounded⟩
  valid := same.log ▸ h.valid
  sound := by
    have eq : core'.replica k = core.replica k := by
      simp only [ConsensusCore.replica, same.plan, same.term, same.vote, same.log, same.commit, same.standing]
    rw [eq]
    exact h.sound
  votes v mem := by
    rw [same.votes] at mem
    rw [same.term]
    exact h.votes v mem
  matched q i at_ := (h.matched q i (same.matched ▸ at_)).congr same.term same.log
  own leads := by
    rw [same.log]
    exact (h.own (same.standing ▸ leads)).congr same.term same.log
  history epoch digest boundary found := h.history epoch digest boundary (same.history ▸ found)

theorem ConsensusCore.Probed.sameLedger (h : core.Probed core') : SameLedger core core' := by
  rcases h with rfl | ⟨state, probes, counter, role, rfl⟩
  · exact ⟨rfl, rfl, rfl, rfl, rfl, rfl, rfl, rfl, rfl, rfl⟩
  · exact ⟨rfl, rfl, rfl, rfl, rfl, rfl, rfl, by rw [role]; rfl, by rw [role]; rfl, by rw [role]; rfl⟩

theorem ConsensusCore.Barriered.sameLedger (h : core.Barriered core') : SameLedger core core' := by
  rcases h with rfl | ⟨state, barriers, role, rfl⟩
  · exact ⟨rfl, rfl, rfl, rfl, rfl, rfl, rfl, rfl, rfl, rfl⟩
  · exact ⟨rfl, rfl, rfl, rfl, rfl, rfl, rfl, by rw [role]; rfl, by rw [role]; rfl, by rw [role]; rfl⟩

theorem CoreInv.probed (h : CoreInv first tr n k core) (probed : core.Probed core') :
    CoreInv first tr n k core' :=
  h.congr probed.sameLedger (probed.books.sameLog.inv h.ordered).applied

theorem CoreInv.barriered (h : CoreInv first tr n k core) (barriered : core.Barriered core') :
    CoreInv first tr n k core' :=
  h.congr barriered.sameLedger (barriered.books.sameLog.inv h.ordered).applied

end CoreMono

end MeshSpan
