import MeshSpan.Ledger.History

/- One replica of the ledger, and what it may do.

   `Sound tr n s` says that the history accounts for the state of replica `n`:
   its log comes from leaders, what it takes for committed is committed, its
   votes and acknowledgements are on record and bind it, and as a candidate or a
   leader it has the campaign or the election to show.

   Each operation below is one lemma: under its guard the history stays valid,
   perhaps longer by one event, and the replica stays sound. `Sound.frame` is the
   other half: an event of one replica leaves the others sound.

   Two facts carry most of the work. A replica that acknowledged a log has kept
   every part of it that all later leaders have (`Sound.acked`), so by leader
   completeness it has kept what was committed with its help; and it has at most
   one membership entry that it has not applied (`Sound.room`). -/
namespace Ledger

open List

variable {ν ε π : Type*}

inductive Standing
  | follower
  | candidate
  | leader
deriving DecidableEq

structure Replica (ν ε π : Type*) where
  term : Nat
  vote : Option ν
  log : List ε
  (commit phase : Nat)
  plan : π
  standing : Standing

/-- The replica that an event belongs to; a commit belongs to none. -/
def Event.author : Event ν ε → Option ν
  | .campaign r => some r.candidate
  | .grant g => some g.voter
  | .election e => some e.candidate
  | .ack a => some a.node
  | .commit _ => none

/-- What an event that replica `n` may be the author of asks of its state. -/
def Replica.Owns (s : Replica ν ε π) (n : ν) : Event ν ε → Prop
  | .campaign r => r.candidate = n → r.term ≤ s.term
  | .grant g => g.voter = n →
    g.term ≤ s.term ∧ g.phase ≤ s.phase ∧ (g.term = s.term → s.vote = some g.candidate)
  | .election e => e.candidate = n → e.term = s.term → s.standing ≠ .candidate
  | .ack a => (a.node = n → a.term ≤ s.term ∧ a.phase ≤ s.phase ∧ a.log <+: s.log) ∧
    (a.term = s.term → s.standing = .leader → a.log <+: s.log)
  | .commit _ => True

namespace Electorate

variable (E : Electorate ν ε π)

def blank : Replica ν ε π :=
  { term := 0, vote := none, log := [], commit := 0, phase := 0, plan := E.first, standing := .follower }

/-- The history accounts for the state of replica `n`. -/
structure Sound (tr : History ν ε) (n : ν) (s : Replica ν ε π) : Prop where
  sorted : E.Sorted s.log
  bounded : ∀ x ∈ s.log, E.term x ≤ s.term
  rooted : E.Rooted tr s.log
  within : s.commit ≤ s.log.length
  known : s.log.take s.commit <+: committed tr
  seen : s.phase ≤ E.members (s.log.take s.commit)
  room : E.members s.log ≤ s.phase + 1
  plan : E.planAt (committed tr) s.phase = some s.plan
  granted : ∀ g, .grant g ∈ tr → g.voter = n →
    g.term ≤ s.term ∧ g.phase ≤ s.phase ∧ (g.term = s.term → s.vote = some g.candidate)
  acked : ∀ a, .ack a ∈ tr → a.node = n → a.term ≤ s.term ∧ a.phase ≤ s.phase ∧
    ∀ P, P <+: a.log → (∀ e, .election e ∈ tr → a.term < e.term → P <+: e.log) → P <+: s.log
  campaigned : ∀ r, .campaign r ∈ tr → r.candidate = n → r.term ≤ s.term
  won : ∀ e, .election e ∈ tr → e.candidate = n → e.term = s.term → s.standing ≠ .candidate
  candidate : s.standing = .candidate → ∃ r, .campaign r ∈ tr ∧ r.candidate = n ∧ r.term = s.term ∧
    r.log = s.log ∧ r.known = s.commit ∧ r.phase ≤ s.phase
  leader : s.standing = .leader → ∃ e, .election e ∈ tr ∧ e.candidate = n ∧ e.term = s.term ∧
    e.phase ≤ s.phase ∧ led tr s.term = s.log ∧
    (s.log.take s.commit <+: e.log.take e.known ∨
      ∃ y, .commit y ∈ tr ∧ y.term = s.term ∧ s.log.take s.commit <+: y.log)

end Electorate

/-! ## Longer histories -/

namespace Electorate

variable {E : Electorate ν ε π} {tr : History ν ε} {n m : ν} {s : Replica ν ε π} {ev : Event ν ε}

theorem Sound.blank (n : ν) : E.Sound [] n E.blank where
  sorted := Pairwise.nil
  bounded := nofun
  rooted := Rooted.nil
  within := le_rfl
  known := prefix_rfl
  seen := Nat.zero_le _
  room := Nat.zero_le _
  plan := planAt_zero
  granted := nofun
  acked := nofun
  campaigned := nofun
  won := nofun
  candidate := nofun
  leader := nofun

theorem Valid.committed_append (v : E.Valid (tr ++ [ev])) : committed tr <+: committed (tr ++ [ev]) := by
  have h := v.committed_part tr.length
  rwa [take_left] at h

theorem Valid.ok_last (v : E.Valid (tr ++ [ev])) : E.Ok tr ev := by
  have h := v tr.length ev (by simp)
  rwa [take_left] at h

variable {e : Election ν ε} {L X : List ε}

/-- The log of a leader grows only by its own acknowledgements. -/
theorem Valid.led_kept (v : E.Valid (tr ++ [ev])) (owns : s.Owns n ev) (elected : .election e ∈ tr)
    (term : e.term = s.term) (log : led tr s.term = s.log) (leads : s.standing = .leader) :
    led (tr ++ [ev]) s.term = s.log := by
  cases ev with
  | election e' =>
    have other : e'.term ≠ s.term := fun same => v.ok_last.2 e elected (by omega)
    rw [← log]
    exact grown_append_none (by simp [Event.led, other]) tr
  | ack a =>
    by_cases same : a.term = s.term
    · have part := owns.2 same leads
      have grows : led (tr ++ [.ack a]) s.term = longer (led tr s.term) a.log :=
        grown_append_some (by simp [Event.led, same]) tr
      rw [grows, log, longer, if_neg]
      have := part.length_le
      omega
    · rw [← log]
      exact grown_append_none (by simp [Event.led, same]) tr
  | _ =>
    rw [← log]
    exact grown_append_none rfl tr

theorem Sound.append (h : E.Sound tr n s) (v : E.Valid (tr ++ [ev])) (owns : s.Owns n ev) :
    E.Sound (tr ++ [ev]) n s where
  sorted := h.sorted
  bounded := h.bounded
  rooted := h.rooted.append v
  within := h.within
  known := h.known.trans v.committed_append
  seen := h.seen
  room := h.room
  plan := planAt_mono v.committed_append h.plan
  granted := by
    intro g mem voter
    rcases mem_append.mp mem with old | new
    · exact h.granted g old voter
    · cases mem_singleton.mp new
      exact owns voter
  acked := by
    intro a mem node
    rcases mem_append.mp mem with old | new
    · obtain ⟨term, phase, kept⟩ := h.acked a old node
      refine ⟨term, phase, ?_⟩
      intro P part has
      exact kept P part fun e elected => has e (mem_append_left _ elected)
    · cases mem_singleton.mp new
      obtain ⟨term, phase, part⟩ := owns.1 node
      exact ⟨term, phase, fun P inner _ => inner.trans part⟩
  campaigned := by
    intro r mem candidate
    rcases mem_append.mp mem with old | new
    · exact h.campaigned r old candidate
    · cases mem_singleton.mp new
      exact owns candidate
  won := by
    intro e mem candidate
    rcases mem_append.mp mem with old | new
    · exact h.won e old candidate
    · cases mem_singleton.mp new
      exact owns candidate
  candidate := by
    intro standing
    obtain ⟨r, mem, rest⟩ := h.candidate standing
    exact ⟨r, mem_append_left _ mem, rest⟩
  leader := by
    intro leads
    obtain ⟨e, mem, candidate, term, phase, log, commit⟩ := h.leader leads
    refine ⟨e, mem_append_left _ mem, candidate, term, phase,
      v.led_kept owns mem term log leads, ?_⟩
    rcases commit with early | ⟨y, memY, rest⟩
    · exact .inl early
    · exact .inr ⟨y, mem_append_left _ memY, rest⟩

theorem Valid.elected_once (v : E.Valid tr) {e' : Election ν ε} (mem : .election e ∈ tr)
    (mem' : .election e' ∈ tr) (same : e.term = e'.term) : e.candidate = e'.candidate := by
  obtain ⟨τ, -, -, won⟩ := v.at_mem mem
  obtain ⟨σ, -, -, won'⟩ := v.at_mem mem'
  exact election_safe v won.1 won'.1 same

theorem Sound.frame (h : E.Sound tr n s) (v : E.Valid (tr ++ [ev])) (other : ev.author ≠ some n) :
    E.Sound (tr ++ [ev]) n s := by
  refine h.append v ?_
  cases ev with
  | campaign r => exact fun mine => absurd (congrArg some mine) other
  | grant g => exact fun mine => absurd (congrArg some mine) other
  | election e => exact fun mine => absurd (congrArg some mine) other
  | ack a =>
    refine ⟨fun mine => absurd (congrArg some mine) other, ?_⟩
    intro same leads
    obtain ⟨e, mem, candidate, term, -, log, -⟩ := h.leader leads
    rcases v.ok_last.grows with part | ⟨-, e', mem', term', candidate'⟩
    · rwa [same, log] at part
    -- only the leader of the term extends its log
    have valid : E.Valid tr := by
      have := v.take tr.length
      rwa [take_left] at this
    have := valid.elected_once mem mem' (by omega)
    exact absurd (congrArg some (candidate'.symm.trans (this.symm.trans candidate))) other
  | commit x => trivial

end Electorate

/-! ## Extensions -/

/-- A history continued by events of replica `n` and by commits. -/
def Extends (n : ν) (tr tr' : History ν ε) : Prop :=
  ∃ evs, tr' = tr ++ evs ∧ ∀ ev ∈ evs, ev.author = some n ∨ ev.author = none

section Extends

variable {E : Electorate ν ε π} {tr tr' tr'' : History ν ε} {n : ν} {ev : Event ν ε}

theorem Extends.refl : Extends n tr tr := ⟨[], by simp, nofun⟩

theorem Extends.one (mine : ev.author = some n ∨ ev.author = none) : Extends n tr (tr ++ [ev]) :=
  ⟨[ev], rfl, fun ev' mem => by rw [mem_singleton.mp mem]; exact mine⟩

theorem Extends.commit (x : Commit ν ε) : Extends n tr (tr ++ [.commit x]) := .one (.inr rfl)

theorem Extends.campaign {r : Campaign ν ε} (mine : r.candidate = n) : Extends n tr (tr ++ [.campaign r]) :=
  .one (.inl (congrArg some mine))

theorem Extends.grant {g : Grant ν ε} (mine : g.voter = n) : Extends n tr (tr ++ [.grant g]) :=
  .one (.inl (congrArg some mine))

theorem Extends.election (mine : e.candidate = n) : Extends n tr (tr ++ [.election e]) :=
  .one (.inl (congrArg some mine))

theorem Extends.ack {a : Ack ν ε} (mine : a.node = n) : Extends n tr (tr ++ [.ack a]) :=
  .one (.inl (congrArg some mine))

section

variable (h : Extends n tr tr')

include h

theorem Extends.trans (h' : Extends n tr' tr'') : Extends n tr tr'' := by
  obtain ⟨evs, rfl, mine⟩ := h
  obtain ⟨evs', rfl, mine'⟩ := h'
  refine ⟨evs ++ evs', by simp, ?_⟩
  exact forall_mem_append.mpr ⟨mine, mine'⟩

theorem Extends.part : tr <+: tr' := by
  obtain ⟨evs, rfl, -⟩ := h
  exact prefix_append ..

theorem Extends.mem (mem : ev ∈ tr) : ev ∈ tr' := by
  obtain ⟨evs, rfl, -⟩ := h
  exact mem_append_left _ mem

theorem Extends.committed (v : E.Valid tr') : committed tr <+: committed tr' := by
  obtain ⟨evs, rfl, -⟩ := h
  have part := v.committed_part tr.length
  rwa [take_left] at part

theorem Extends.led (v : E.Valid tr') (t : Nat) : led tr t <+: led tr' t := by
  obtain ⟨evs, rfl, -⟩ := h
  have part := v.led_part (t := t) tr.length
  rwa [take_left] at part

end

end Extends

namespace Electorate

variable {E : Electorate ν ε π} {tr tr' : History ν ε} {n m : ν} {s : Replica ν ε π} {ev : Event ν ε}

theorem Sound.extends (h : E.Sound tr m s) (ext : Extends n tr tr') (v : E.Valid tr') (other : m ≠ n) :
    E.Sound tr' m s := by
  obtain ⟨evs, rfl, mine⟩ := ext
  -- one event after the other, each of them valid after those before it
  induction evs using reverseRecOn with
  | nil => rwa [append_nil]
  | append_singleton evs ev ih =>
    rw [← append_assoc] at v ⊢
    have before : E.Valid (tr ++ evs) := by
      have := v.take (tr ++ evs).length
      rwa [take_left] at this
    refine (ih (fun ev' mem => mine ev' (mem_append_left _ mem)) before).frame v ?_
    rcases mine ev (by simp) with author | author
    · rw [author]
      exact fun same => other (Option.some.inj same).symm
    · rw [author]
      nofun

/-! ## Operations of a follower -/

/-- A higher term ends every role and frees the vote. -/
theorem Sound.bump (h : E.Sound tr n s) {t : Nat} (higher : s.term < t) :
    E.Sound tr n { s with term := t, vote := none, standing := .follower } where
  __ := h
  bounded x mem := (h.bounded x mem).trans higher.le
  granted g mem voter := by
    obtain ⟨term, phase, -⟩ := h.granted g mem voter
    exact ⟨by dsimp; omega, phase, fun same => by dsimp at same; omega⟩
  acked a mem node := by
    obtain ⟨term, rest⟩ := h.acked a mem node
    exact ⟨by dsimp; omega, rest⟩
  campaigned r mem candidate := (h.campaigned r mem candidate).trans higher.le
  won _ _ _ _ := nofun
  candidate := nofun
  leader := nofun

theorem Sound.retire (h : E.Sound tr n s) : E.Sound tr n { s with standing := .follower } where
  __ := h
  won _ _ _ _ := nofun
  candidate := nofun
  leader := nofun

variable {c : Nat}

/-- A restarted replica knows less to be committed, but not less than it has applied. -/
theorem Sound.crash (h : E.Sound tr n s) (le : c ≤ s.commit) (seen : s.phase ≤ E.members (s.log.take c)) :
    E.Sound tr n { s with commit := c, standing := .follower } where
  __ := h.retire
  within := le.trans h.within
  known := (take_prefix_take_left le).trans h.known
  seen := seen
  candidate := nofun
  leader := nofun

/-- A follower learns that more of its log is committed. -/
theorem Sound.learn (h : E.Sound tr n s) (follows : s.standing = .follower) (le : s.commit ≤ c)
    (within : c ≤ s.log.length) (known : s.log.take c <+: committed tr) :
    E.Sound tr n { s with commit := c } where
  __ := h
  within := within
  known := known
  seen := h.seen.trans (members_mono (take_prefix_take_left le))
  candidate standing := by rw [follows] at standing; cases standing
  leader standing := by rw [follows] at standing; cases standing

/-- A replica that has applied the next membership entry enters its plan, whatever its role. -/
theorem Sound.activate (h : E.Sound tr n s) {p : π}
    (seen : s.phase + 1 ≤ E.members (s.log.take s.commit))
    (plan : E.planAt (committed tr) (s.phase + 1) = some p) :
    E.Sound tr n { s with phase := s.phase + 1, plan := p } where
  __ := h
  seen := seen
  room := h.room.trans (by dsimp; omega)
  plan := plan
  granted g mem voter := by
    obtain ⟨term, phase, once⟩ := h.granted g mem voter
    exact ⟨term, by dsimp; omega, once⟩
  acked a mem node := by
    obtain ⟨term, phase, kept⟩ := h.acked a mem node
    exact ⟨term, by dsimp; omega, kept⟩
  candidate standing := by
    obtain ⟨r, mem, name, term, log, known, phase⟩ := h.candidate standing
    exact ⟨r, mem, name, term, log, known, by dsimp; omega⟩
  leader standing := by
    obtain ⟨e, mem, name, term, phase, rest⟩ := h.leader standing
    exact ⟨e, mem, name, term, by dsimp; omega, rest⟩

/-! ## Taking over a log -/

/-- A log is taken over as a whole, or is part of what the replica has. -/
def Adopts (s : Replica ν ε π) (X L : List ε) : Prop :=
  X <+: s.log ∧ L = s.log ∨ ¬ X <+: s.log ∧ L = X ∧ s.log.take s.commit <+: X

theorem Adopts.part (h : Adopts s X L) : X <+: L := by
  rcases h with ⟨part, rfl⟩ | ⟨-, rfl, -⟩
  · exact part
  · exact prefix_rfl

/-- The log taken over must agree, as far as both go, with every part of an acknowledged log that
    the replica is bound to keep. -/
theorem Sound.adopt (h : E.Sound tr n s) (follows : s.standing = .follower) (adopts : Adopts s X L)
    (sorted : E.Sorted X) (bounded : ∀ x ∈ X, E.term x ≤ s.term) (rooted : E.Rooted tr X)
    (room : E.members X ≤ s.phase + 1) (agrees : ∀ a, .ack a ∈ tr → a.node = n → ∀ P, P <+: a.log →
      (∀ e, .election e ∈ tr → a.term < e.term → P <+: e.log) → P <+: X ∨ X <+: P) :
    E.Sound tr n { s with log := L } := by
  rcases adopts with ⟨-, rfl⟩ | ⟨differs, rfl, kept⟩
  · exact h
  have within : s.commit ≤ L.length := by
    have := kept.length_le
    rw [length_take, min_eq_left h.within] at this
    exact this
  have same : L.take s.commit = s.log.take s.commit := by
    refine (prefix_of_prefix_length_le ( take_prefix ..) kept ?_).eq_of_length ?_
    · simp only [length_take]; have := h.within; omega
    · simp only [length_take]; have := h.within; omega
  exact
    { h with
      sorted := sorted
      bounded := bounded
      rooted := rooted
      within := within
      known := same ▸ h.known
      seen := same ▸ h.seen
      room := room
      acked := by
        intro a mem node
        obtain ⟨term, phase, keeps⟩ := h.acked a mem node
        refine ⟨term, phase, ?_⟩
        intro P part has
        rcases agrees a mem node P part has with inside | beyond
        · exact inside
        · exact absurd (beyond.trans (keeps P part has)) differs
      candidate := fun standing => by rw [follows] at standing; cases standing
      leader := fun standing => by rw [follows] at standing; cases standing }

/-- A follower takes over a part of the log of the leader of its term. -/
theorem Sound.follow (v : E.Valid tr) (h : E.Sound tr n s) (follows : s.standing = .follower)
    (part : X <+: led tr s.term) (elected : .election e ∈ tr) (term : e.term = s.term)
    (room : E.members X ≤ s.phase + 1) (adopts : Adopts s X L) : E.Sound tr n { s with log := L } := by
  obtain ⟨sorted, bounded, rooted⟩ := v.led_spec s.term
  refine h.adopt follows adopts (sorted.initial part) (fun x mem => bounded x (part.subset mem))
    (rooted.initial part) room ?_
  intro a mem node P inner has
  obtain ⟨le, -⟩ := h.acked a mem node
  have led : P <+: led tr s.term := by
    rcases eq_or_lt_of_le le with same | lt
    · exact inner.trans (same ▸ v.ack_led mem)
    · exact (has e elected (by omega)).trans (term ▸ v.election_led elected)
  exact prefix_or_prefix_of_prefix led part

theorem Valid.committed_chosen (v : E.Valid tr) :
    committed tr = [] ∨ ∃ y σ, .commit y ∈ tr ∧ E.Chosen (tr.take σ) y ∧ y.log = committed tr := by
  rcases grown_source Event.committed tr with nil | ⟨σ, ev, at_, src⟩
  · exact .inl nil
  cases ev with
  | commit y =>
    exact .inr ⟨y, σ, mem_of_getElem? at_, v.chosen at_, Option.some.inj src⟩
  | _ => cases src

theorem Valid.committed_spec (v : E.Valid tr) : E.Sorted (committed tr) ∧ E.Rooted tr (committed tr) := by
  rcases v.committed_chosen with nil | ⟨y, σ, -, chosen, whole⟩
  · rw [nil]
    exact ⟨Pairwise.nil, Rooted.nil⟩
  · obtain ⟨sorted, -, rooted⟩ := v.led_spec y.term
    rw [← whole]
    exact ⟨sorted.initial (v.commit_led chosen), rooted.initial (v.commit_led chosen)⟩

section

variable (v : E.Valid tr) (h : E.Sound tr n s)

include v h

/-- A follower takes over a part of the committed log. -/
theorem Sound.install (follows : s.standing = .follower) (part : X <+: committed tr)
    (bounded : ∀ x ∈ X, E.term x ≤ s.term) (room : E.members X ≤ s.phase + 1) (adopts : Adopts s X L) :
    E.Sound tr n { s with log := L } := by
  rcases v.committed_chosen with nil | ⟨y, σ, -, chosen, whole⟩
  · obtain rfl : X = [] := prefix_nil.mp (nil ▸ part)
    rcases adopts with ⟨-, rfl⟩ | ⟨differs, -⟩
    · exact h
    · exact absurd nil_prefix differs
  · rw [← whole] at part
    obtain ⟨sorted, -, rooted⟩ := v.led_spec y.term
    have ledX := part.trans (v.commit_led chosen)
    refine h.adopt follows adopts (sorted.initial ledX) bounded (rooted.initial ledX) room ?_
    intro a mem node P inner has
    -- the terms of the acknowledgement and of the commit decide which log holds both
    rcases lt_trichotomy a.term y.term with lt | same | gt
    · have inY : P <+: y.log := chosen.has_of_election v fun e mem' term => has e mem' (by omega)
      exact prefix_or_prefix_of_prefix inY part
    · exact prefix_or_prefix_of_prefix (inner.trans (same ▸ v.ack_led mem)) ledX
    · obtain ⟨τ, -, -, ok⟩ := v.at_mem mem
      obtain ⟨e, elected, term⟩ := ok.elected
      have elected := mem_of_mem_take elected
      have hasY := leader_complete_mem v chosen elected (by omega)
      exact prefix_or_prefix_of_prefix (inner.trans (v.ack_led mem))
        ((part.trans hasY).trans (term ▸ v.election_led elected))

/-- A follower that holds a part of the leader's log may acknowledge it. -/
theorem Sound.acknowledge (part : X <+: led tr s.term) (elected : .election e ∈ tr)
    (term : e.term = s.term) (holds : X <+: s.log) : let a : Ack ν ε :=
  { node := n, term := s.term, phase := s.phase, log := X }
    E.Valid (tr ++ [.ack a]) ∧ E.Sound (tr ++ [.ack a]) n s := by
  intro a
  have valid : E.Valid (tr ++ [.ack a]) := by
    refine v.append (show E.Ok tr (.ack a) from ?_)
    exact
      { elected := ⟨e, elected, term⟩
        voted := fun g mem voter => (h.granted g mem voter).1
        room := (members_mono holds).trans h.room
        grows := .inl part
        sorted := h.sorted.initial holds
        bounded := fun x mem => h.bounded x (holds.subset mem)
        rooted := fun i x at_ _ => (h.rooted.initial holds) i x at_ }
  exact ⟨valid, h.append valid ⟨fun _ => ⟨le_rfl, le_rfl, holds⟩, fun _ _ => holds⟩⟩

/-! ## Votes and elections -/

/-- What a replica helped to commit is part of its log. -/
theorem Sound.kept {x : Commit ν ε} (mem : .commit x ∈ tr) (helped : n ∈ x.quorum) :
    x.term ≤ s.term ∧ x.log <+: s.log := by
  obtain ⟨σ, -, at_, -⟩ := v.at_mem mem
  have chosen := v.chosen at_
  obtain ⟨κ, a, ack, node, term, holds⟩ := chosen.acked n helped
  have ack := mem_of_mem_take (mem_of_getElem? ack)
  obtain ⟨le, -, keeps⟩ := h.acked a ack node
  refine ⟨by omega, keeps x.log holds ?_⟩
  intro e elected higher
  exact leader_complete_mem v chosen elected (by omega)

/-- A vote for a candidate of the same term and phase, if the replica has not voted otherwise. -/
theorem Sound.grant {r : Campaign ν ε} (asked : .campaign r ∈ tr) (term : r.term = s.term)
    (phase : r.phase = s.phase) (upToDate : E.UpToDate r.log s.log)
    (free : s.vote = none ∨ s.vote = some r.candidate) : let g : Grant ν ε :=
      { voter := n, term := s.term, candidate := r.candidate, phase := s.phase, log := s.log }
    E.Valid (tr ++ [.grant g]) ∧ E.Sound (tr ++ [.grant g]) n { s with vote := some r.candidate } := by
  intro g
  have once : ∀ g', .grant g' ∈ tr → g'.voter = n → g'.term = s.term → g'.candidate = r.candidate := by
    intro g' mem voter same
    have cast := (h.granted g' mem voter).2.2 same
    rcases free with none | mine
    · rw [none] at cast; cases cast
    · exact Option.some.inj (cast.symm.trans mine)
  have valid : E.Valid (tr ++ [.grant g]) := by
    refine v.append (show E.Ok tr (.grant g) from ?_)
    obtain ⟨ρ, at_⟩ := mem_iff_getElem?.mp asked
    exact
      { asked := ⟨ρ, r, at_, term, rfl, phase, upToDate⟩
        once := once
        sorted := h.sorted
        rooted := h.rooted
        kept := fun x mem helped => h.kept v mem helped
        acked := h.acked }
  have voted : E.Sound tr n { s with vote := some r.candidate } :=
    { h with
      granted := fun g' mem voter => by
        obtain ⟨le, phase, -⟩ := h.granted g' mem voter
        exact ⟨le, phase, fun same => congrArg some (once g' mem voter same).symm⟩ }
  exact ⟨valid, voted.append valid fun _ => ⟨le_rfl, le_rfl, fun _ => rfl⟩⟩

/-- A campaign in a new term, with the log as it is. -/
theorem Sound.campaign {t : Nat} (higher : s.term < t) : let r : Campaign ν ε :=
      { term := t, candidate := n, phase := s.phase, log := s.log, known := s.commit }
    E.Valid (tr ++ [.campaign r]) ∧
      E.Sound (tr ++ [.campaign r]) n { s with term := t, vote := none, standing := .candidate } := by
  intro r
  have valid : E.Valid (tr ++ [.campaign r]) := by
    refine v.append (show E.Ok tr (.campaign r) from ?_)
    exact
      { once := fun r' mem same mine => by
          have := h.campaigned r' mem mine
          have : r'.term = t := same
          omega
        sorted := h.sorted
        below := fun x mem => lt_of_le_of_lt (h.bounded x mem) higher
        rooted := h.rooted
        known := h.known
        room := h.room
        seen := h.seen }
  have bumped := (h.bump higher).append valid fun _ => le_rfl
  refine ⟨valid, ?_⟩
  exact
    { bumped with
      won := fun e mem mine same => by
        -- an earlier election of this replica came from an earlier campaign
        rcases mem_append.mp mem with old | new
        · obtain ⟨τ, -, -, won⟩ := v.at_mem old
          obtain ⟨ρ, r', campaign, backs⟩ := won.1.asked
          have := h.campaigned r' (mem_of_mem_take (mem_of_getElem? campaign))
            (backs.candidate.trans mine)
          have := backs.term
          have : e.term = t := same
          omega
        · cases mem_singleton.mp new
      candidate := fun _ => ⟨r, by simp, rfl, rfl, rfl, rfl, le_rfl⟩
      leader := nofun }

/-- A candidate with the votes of a quorum of its present plan leads its term. -/
theorem Sound.elect (standing : s.standing = .candidate) {V : Set ν} (elects : E.elects s.plan V)
    (votes : ∀ q ∈ V, ∃ g, .grant g ∈ tr ∧ g.voter = q ∧ g.term = s.term ∧ g.candidate = n) :
    let e : Election ν ε :=
      { term := s.term, candidate := n, phase := s.phase, voters := V, log := s.log, known := s.commit }
    E.Valid (tr ++ [.election e]) ∧ E.Sound (tr ++ [.election e]) n { s with standing := .leader } := by
  intro e
  obtain ⟨r, campaign, name, term, log, known, phase⟩ := h.candidate standing
  obtain ⟨ρ, at_⟩ := mem_iff_getElem?.mp campaign
  have won : E.Won tr e :=
    { asked := ⟨ρ, r, at_, ⟨term, name, log, known, phase⟩⟩
      seen := h.seen
      quorum := ⟨s.plan, h.plan, elects⟩
      granted := fun q mem => by
        obtain ⟨g, grant, rest⟩ := votes q mem
        obtain ⟨γ, atG⟩ := mem_iff_getElem?.mp grant
        exact ⟨γ, g, atG, rest⟩ }
  have first : ∀ e', .election e' ∈ tr → e'.term ≠ s.term := by
    intro e' mem same
    obtain ⟨τ, -, -, won'⟩ := v.at_mem mem
    have now : E.Won (tr.take tr.length) e := by rwa [take_length]
    have mine := election_safe v won'.1 now same
    exact h.won e' mem mine same standing
  have valid : E.Valid (tr ++ [.election e]) := v.append (show E.Ok tr (.election e) from ⟨won, first⟩)
  have retired := h.retire.append valid fun _ _ h => by cases h
  have ledE : led (tr ++ [.election e]) s.term = s.log := by
    have grows : led (tr ++ [.election e]) s.term = longer (led tr s.term) s.log :=
      grown_append_some (by simp [Event.led, e]) tr
    rw [grows, v.led_nil first, longer]
    split
    · rfl
    · rename_i short
      exact (length_eq_zero_iff.mp (by simpa using short)).symm
  refine ⟨valid, ?_⟩
  exact
    { retired with
      won := fun _ _ _ _ h => by cases h
      candidate := fun h => by cases h
      leader := fun _ => ⟨e, by simp, rfl, rfl, le_rfl, ledE, .inl prefix_rfl⟩ }

/-! ## Operations of a leader -/

theorem Sound.propose_valid (leads : s.standing = .leader) {x : ε} (own : E.term x = s.term)
    (room : E.members (s.log ++ [x]) ≤ s.phase + 1) : let a : Ack ν ε := { node := n, term := s.term, phase := s.phase, log := s.log ++ [x] }
    E.Valid (tr ++ [.ack a]) ∧ led (tr ++ [.ack a]) s.term = s.log ++ [x] := by
  intro a
  obtain ⟨e, mem, candidate, term, -, log, -⟩ := h.leader leads
  refine ⟨v.append (show E.Ok tr (.ack a) from ?_), ?_⟩
  · exact
      { elected := ⟨e, mem, term⟩
        voted := fun g grant voter => (h.granted g grant voter).1
        room := room
        grows := .inr ⟨log.symm ▸ prefix_append .., e, mem, term, candidate⟩
        sorted := pairwise_append.mpr ⟨h.sorted, pairwise_singleton .., by
          intro y inLog z last
          rw [mem_singleton.mp last, own]
          exact h.bounded y inLog⟩
        bounded := by
          exact forall_mem_append.mpr ⟨h.bounded, forall_mem_singleton.mpr own.le⟩
        rooted := by
          intro i y at_ other
          by_cases old : i < s.log.length
          · rw [getElem?_append_left old] at at_
            rw [take_append_of_le_length (by omega)]
            exact h.rooted i y at_
          · have last := mem_of_getElem? at_
            rw [getElem?_append_right (by omega)] at at_
            rw [mem_singleton.mp (mem_of_getElem? at_)] at other
            exact absurd own other }
  · have grows : led (tr ++ [.ack a]) s.term = longer (led tr s.term) (s.log ++ [x]) :=
      grown_append_some (by simp [Event.led, a]) tr
    rw [grows, log, longer, if_pos (by simp)]

/-- A leader adds an entry of its term. A membership entry needs all earlier ones applied. -/
theorem Sound.propose (leads : s.standing = .leader) {x : ε} (own : E.term x = s.term)
    (room : E.members (s.log ++ [x]) ≤ s.phase + 1) : let a : Ack ν ε := { node := n, term := s.term, phase := s.phase, log := s.log ++ [x] }
    E.Valid (tr ++ [.ack a]) ∧ E.Sound (tr ++ [.ack a]) n { s with log := s.log ++ [x] } := by
  intro a
  obtain ⟨valid, log⟩ := h.propose_valid v leads own room
  obtain ⟨sorted, bounded, rooted⟩ := valid.led_spec s.term
  rw [log] at sorted bounded rooted
  have same : (s.log ++ [x]).take s.commit = s.log.take s.commit :=
    take_append_of_le_length h.within
  refine ⟨valid, ?_⟩
  exact
    { sorted := sorted
      bounded := bounded
      rooted := rooted
      within := h.within.trans (by simp)
      known := same ▸ h.known.trans valid.committed_append
      seen := same ▸ h.seen
      room := room
      plan := planAt_mono valid.committed_append h.plan
      granted := by
        intro g mem
        rcases mem_append.mp mem with old | new
        · exact h.granted g old
        · cases mem_singleton.mp new
      acked := by
        intro a' mem node
        rcases mem_append.mp mem with old | new
        · obtain ⟨term, phase, keeps⟩ := h.acked a' old node
          refine ⟨term, phase, ?_⟩
          intro P part has
          exact (keeps P part fun e elected => has e (mem_append_left _ elected)).trans
            (prefix_append ..)
        · cases mem_singleton.mp new
          exact ⟨le_rfl, le_rfl, fun P part _ => part⟩
      campaigned := by
        intro r mem
        rcases mem_append.mp mem with old | new
        · exact h.campaigned r old
        · cases mem_singleton.mp new
      won := fun _ _ _ _ => by rw [leads]; nofun
      candidate := fun standing => by rw [leads] at standing; cases standing
      leader := by
        intro _
        obtain ⟨e, mem, candidate, term, phase, -, commit⟩ := h.leader leads
        refine ⟨e, mem_append_left _ mem, candidate, term, phase, log, ?_⟩
        rw [same]
        rcases commit with early | ⟨y, memY, rest⟩
        · exact .inl early
        · exact .inr ⟨y, mem_append_left _ memY, rest⟩ }

end

/-- A leader is in a phase that its election and its own commits account for. -/
theorem Sound.leads (h : E.Sound tr n s) (leads : s.standing = .leader) :
    ∃ e, E.Leads tr s.term s.phase e ∧ e.candidate = n ∧ led tr s.term = s.log := by
  obtain ⟨e, mem, candidate, term, phase, log, commit⟩ := h.leader leads
  refine ⟨e, ⟨mem, term, phase, ?_⟩, candidate, log⟩
  rcases commit with early | ⟨y, memY, termY, covered⟩
  · exact .inl (h.seen.trans (members_mono early))
  · exact .inr ⟨y, memY, termY, h.seen.trans (members_mono covered)⟩

/-- An entry of the leader's own term lies beyond the log it was elected with. -/
theorem Valid.election_short (v : E.Valid tr) (mem : .election e ∈ tr) {P : List ε}
    (part : P <+: led tr e.term) (ne : P ≠ []) (own : E.lastTerm P = e.term) :
    e.log.length < P.length := by
  by_contra long
  obtain ⟨τ, -, -, won⟩ := v.at_mem mem
  obtain ⟨ρ, r, campaign, backs⟩ := won.1.asked
  obtain ⟨-, campaign⟩ := getElem?_of_take campaign
  have ok : E.CampaignOk _ r := v ρ _ campaign
  have inside : P <+: e.log := prefix_of_prefix_length_le part (v.election_led mem) (by omega)
  have := lastTerm_lt (E := E) (t := e.term) ne fun x inP => by
    have := ok.below x (backs.log ▸ inside.subset inP)
    rwa [backs.term] at this
  omega

/-- A leader commits what a quorum of its present plan has acknowledged in its term. -/
theorem Sound.commit (v : E.Valid tr) (h : E.Sound tr n s) (leads : s.standing = .leader)
    (beyond : s.commit < c) (within : c ≤ s.log.length) (own : E.lastTerm (s.log.take c) = s.term)
    {Q : Set ν} (commits : E.commits s.plan Q)
    (acks : ∀ q ∈ Q, ∃ a, .ack a ∈ tr ∧ a.node = q ∧ a.term = s.term ∧ s.log.take c <+: a.log) :
    let x : Commit ν ε := { term := s.term, phase := s.phase, log := s.log.take c, quorum := Q }
    E.Valid (tr ++ [.commit x]) ∧ E.Sound (tr ++ [.commit x]) n { s with commit := c } := by
  intro x
  obtain ⟨e, leadsE, candidate, log⟩ := h.leads leads
  have part : s.log.take c <+: led tr s.term := log ▸ take_prefix ..
  have ne : s.log.take c ≠ [] := by
    intro nil
    have := congrArg length nil
    simp only [length_take, length_nil] at this
    omega
  have chosen : E.Chosen tr x :=
    { elected := ⟨e, leadsE, v.election_short leadsE.elected (leadsE.term ▸ part) ne (leadsE.term ▸ own)⟩
      led := part
      lastTerm := own
      room := (members_mono ( take_prefix ..)).trans h.room
      quorum := ⟨s.plan, h.plan, commits⟩
      acked := fun q mem => by
        obtain ⟨a, ack, rest⟩ := acks q mem
        obtain ⟨κ, at_⟩ := mem_iff_getElem?.mp ack
        exact ⟨κ, a, at_, rest⟩ }
  have valid : E.Valid (tr ++ [.commit x]) := v.append (show E.Ok tr (.commit x) from ⟨chosen, chosen.comparable v⟩)
  have kept := h.append valid trivial
  refine ⟨valid, ?_⟩
  exact
    { kept with
      within := within
      known := by
        have := valid.commit_part (x := x) (σ := tr.length) (τ := tr.length + 1) (by simp) (by omega)
        rwa [take_of_length_le (by simp)] at this
      seen := h.seen.trans (members_mono (take_prefix_take_left beyond.le))
      candidate := fun standing => by rw [leads] at standing; cases standing
      leader := by
        intro _
        obtain ⟨e', mem, name, term, phase, log', -⟩ := kept.leader leads
        exact ⟨e', mem, name, term, phase, log', .inr ⟨x, by simp, rfl, prefix_rfl⟩⟩ }

end Electorate

end Ledger
