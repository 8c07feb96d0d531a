import Mathlib

/- A replicated log whose quorums change as the log is applied, seen from outside.
   Nothing here sends a message or keeps a node's state. A history is the list of
   the moments that matter, in the order in which they happened: a node starts a
   campaign, a voter grants its vote, a candidate is elected, a node acknowledges
   a log, a leader commits a log. `Ok past ev` says what must have been true of
   the past when `ev` was added, and `Valid` says it of every event.

   The quorums are not fixed. A membership entry takes a plan to the next one
   (`Electorate.next`), each node counts votes and acknowledgements in the plan of
   the last membership entry it has applied (its phase), and only the quorums of
   one plan and of two neighbouring plans are known to meet. What holds the
   history together is that a log has at most one membership entry its holder has
   not applied (`room`).

   Proved of every valid history:
     committed_cover    a committed membership entry was committed in the phase
                        that it closes
     Won.knows          a candidate elected in a term knows only membership
                        entries that were committed in lower terms
     Won.le_of_covers   a candidate elected in phase k has no higher term than a
                        commit that closes phase k + 1 or a later one
     leader_complete    a committed log is part of the log of every leader of a
                        higher term
     election_safe      two elections of one term elect one candidate
     commit_comparable  two committed logs agree as far as both go -/
namespace Ledger

open List Option

variable {ν ε π α : Type*}

/-! ## Logs that grow -/

/-- The longer of two logs, the first where they are equally long. -/
def longer (A B : List ε) : List ε := if A.length < B.length then B else A

/-- The longest log that the elements of a list contribute. -/
def grown (f : α → Option (List ε)) (tr : List α) : List ε :=
  tr.foldl (fun C ev => (f ev).elim C (longer C)) []

/-- Every contribution extends what was there or is part of it. -/
def Grows (f : α → Option (List ε)) (tr : List α) : Prop :=
  ∀ (τ : Nat) ev P, tr[τ]? = some ev → f ev = some P →
    P <+: grown f (tr.take τ) ∨ grown f (tr.take τ) <+: P

theorem prefix_longer {A B : List ε} (h : B <+: A ∨ A <+: B) : A <+: longer A B ∧ B <+: longer A B := by
  unfold longer
  split
  · rename_i lt
    rcases h with h | h
    · exact absurd h.length_le (by omega)
    · exact ⟨h, prefix_rfl⟩
  · rename_i ge
    rcases h with h | h
    · exact ⟨prefix_rfl, h⟩
    · rw [h.eq_of_length (by have := h.length_le; omega)]
      exact ⟨prefix_rfl, prefix_rfl⟩

theorem grown_append (f : α → Option (List ε)) (tr : List α) (ev : α) :
    grown f (tr ++ [ev]) = (f ev).elim (grown f tr) (longer (grown f tr)) := by
  simp [grown, foldl_append]

variable {ev : α} {P : List ε} {τ σ : Nat} {f : α → Option (List ε)} {tr : List α}

theorem grown_append_none (h : f ev = none) (tr : List α) : grown f (tr ++ [ev]) = grown f tr := by
  rw [grown_append, h]; rfl

theorem grown_append_some (h : f ev = some P) (tr : List α) :
    grown f (tr ++ [ev]) = longer (grown f tr) P := by
  rw [grown_append, h]; rfl

theorem grown_source (f : α → Option (List ε)) (tr : List α) :
    grown f tr = [] ∨ ∃ (τ : Nat) (ev : α), tr[τ]? = some ev ∧ f ev = some (grown f tr) := by
  induction tr using reverseRecOn with
  | nil => exact .inl rfl
  | append_singleton tr ev ih =>
    -- the source of the shorter history is still there at its place
    have older : ∀ {C}, (C = [] ∨ ∃ (τ : Nat) (ev : α), tr[τ]? = some ev ∧ f ev = some C) →
        C = [] ∨ ∃ (τ : Nat) (ev' : α), (tr ++ [ev])[τ]? = some ev' ∧ f ev' = some C := by
      rintro C (nil | ⟨τ, ev', at_, src⟩)
      · exact .inl nil
      · refine .inr ⟨τ, ev', ?_, src⟩
        rw [getElem?_append_left ( List.getElem?_eq_some_iff.mp at_).1, at_]
    cases contributes : f ev with
    | none => rw [grown_append_none contributes]; exact older ih
    | some P =>
      rw [grown_append_some contributes]
      unfold longer
      split
      · exact .inr ⟨tr.length, ev, by simp, contributes⟩
      · exact older ih

section Grows

variable {f : α → Option (List ε)} {tr : List α}

theorem Grows.step (h : Grows f tr) (at_ : tr[τ]? = some ev) :
    grown f (tr.take τ) <+: grown f (tr.take (τ + 1)) ∧
      ∀ P, f ev = some P → P <+: grown f (tr.take (τ + 1)) := by
  rw [take_add_one, at_]
  cases contributes : f ev with
  | none =>
    rw [toList_some, grown_append_none contributes]
    exact ⟨prefix_rfl, fun _ bad => nomatch bad⟩
  | some P =>
    rw [toList_some, grown_append_some contributes]
    obtain ⟨keeps, holds⟩ := prefix_longer (h τ ev P at_ contributes)
    refine ⟨keeps, ?_⟩
    intro P' same
    cases same
    exact holds

theorem Grows.mono (h : Grows f tr) (le : τ ≤ σ) : grown f (tr.take τ) <+: grown f (tr.take σ) := by
  induction σ, le using Nat.le_induction with
  | base => exact prefix_rfl
  | succ σ _ ih =>
    refine ih.trans ?_
    cases at_ : tr[σ]? with
    | none => rw [take_add_one, at_]; simp
    | some ev => exact (h.step at_).1

theorem Grows.holds (h : Grows f tr) (at_ : tr[τ]? = some ev) (contributes : f ev = some P) (lt : τ < σ) :
    P <+: grown f (tr.take σ) :=
  ((h.step at_).2 P contributes).trans (h.mono lt)

end Grows

/-! ## Electorates -/

/-- Who may elect and who may commit: a plan, the plan that a membership entry makes of it, and
    the quorums of each, of which those of one plan and of two neighbours meet. -/
structure Electorate (ν ε π : Type*) where
  term : ε → Nat
  /-- The entries that change the plan. -/
  member : ε → Bool
  first : π
  next : π → ε → Option π
  (elects commits : π → Set ν → Prop)
  elects_elects : ∀ {p V W}, elects p V → elects p W → ∃ v ∈ V, v ∈ W
  elects_commits : ∀ {p V Q}, elects p V → commits p Q → ∃ v ∈ V, v ∈ Q
  elects_elects_next : ∀ {p e q V W}, next p e = some q → elects p V → elects q W → ∃ v ∈ V, v ∈ W
  elects_commits_next : ∀ {p e q V Q}, next p e = some q → elects p V → commits q Q → ∃ v ∈ V, v ∈ Q
  elects_commits_prev : ∀ {p e q V Q}, next p e = some q → elects q V → commits p Q → ∃ v ∈ V, v ∈ Q

/-- A node asks for votes in a term, with the log it has and the length of it that it knows to be
    committed. -/
structure Campaign (ν ε : Type*) where
  term : Nat
  candidate : ν
  phase : Nat
  log : List ε
  known : Nat

/-- A voter votes in a term, with the log it has. -/
structure Grant (ν ε : Type*) where
  voter : ν
  term : Nat
  candidate : ν
  phase : Nat
  log : List ε

/-- A candidate has the votes of `voters`, a quorum of the plan it is in by then. -/
structure Election (ν ε : Type*) where
  term : Nat
  candidate : ν
  phase : Nat
  voters : Set ν
  log : List ε
  known : Nat

/-- The campaign that ends in an election. The candidate may have applied more since. -/
structure Campaign.Backs (r : Campaign ν ε) (e : Election ν ε) : Prop where
  term : r.term = e.term
  candidate : r.candidate = e.candidate
  log : r.log = e.log
  known : r.known = e.known
  phase : r.phase ≤ e.phase

/-- A node holds the log of the leader of a term as far as `log` goes. -/
structure Ack (ν ε : Type*) where
  node : ν
  (term phase : Nat)
  log : List ε

/-- The leader of a term has the acknowledgements of `quorum` for `log`. -/
structure Commit (ν ε : Type*) where
  (term phase : Nat)
  log : List ε
  quorum : Set ν

inductive Event (ν ε : Type*)
  | campaign (r : Campaign ν ε)
  | grant (g : Grant ν ε)
  | election (e : Election ν ε)
  | ack (a : Ack ν ε)
  | commit (x : Commit ν ε)

/-- The moments of a run, the first one first. -/
abbrev History (ν ε : Type*) := List (Event ν ε)

def Event.committed : Event ν ε → Option (List ε)
  | .commit x => some x.log
  | _ => none

def Event.led (t : Nat) : Event ν ε → Option (List ε)
  | .election e => if e.term = t then some e.log else none
  | .ack a => if a.term = t then some a.log else none
  | _ => none

def committed (tr : History ν ε) : List ε := grown Event.committed tr

/-- The log of the leader of term `t`, as far as somebody holds it. -/
def led (tr : History ν ε) (t : Nat) : List ε := grown (Event.led t) tr

namespace Electorate

variable (E : Electorate ν ε π) (L : List ε)

/-- How many membership entries a log has. -/
def members : Nat := L.countP E.member

/-- The term of the last entry, and zero for the empty log. -/
def lastTerm : Nat := (L.getLast?.map E.term).getD 0

/-- The plan after the first `k` membership entries of a log. -/
def planAt (C : List ε) (k : Nat) : Option π :=
  if k ≤ E.members C then ((C.filter E.member).take k).foldlM E.next E.first else none

/-- The rule by which a voter compares its log with the candidate's. -/
def UpToDate (L V : List ε) : Prop :=
  E.lastTerm V < E.lastTerm L ∨ E.lastTerm V = E.lastTerm L ∧ V.length ≤ L.length

/-- The terms of a log never fall. -/
def Sorted : Prop := L.Pairwise fun a b => E.term a ≤ E.term b

variable (past : History ν ε)

/-- Each entry of a log stands where the leader of its term put it, on the same log. -/
def Rooted (L : List ε) : Prop :=
  ∀ i x, L[i]? = some x →
    L.take (i + 1) <+: led past (E.term x) ∧ ∃ e, .election e ∈ past ∧ e.term = E.term x

/-- A campaign starts from a log of lower terms, and not twice in a term. -/
structure CampaignOk (past : History ν ε) (r : Campaign ν ε) : Prop where
  once : ∀ r', .campaign r' ∈ past → r'.term = r.term → r'.candidate ≠ r.candidate
  sorted : E.Sorted r.log
  below : ∀ x ∈ r.log, E.term x < r.term
  rooted : E.Rooted past r.log
  known : r.log.take r.known <+: committed past
  room : E.members r.log ≤ r.phase + 1
  seen : r.phase ≤ E.members (r.log.take r.known)

/-- A vote goes to one candidate of the voter's own phase with a log that is up to date. The voter
    has kept what it acknowledged, except for what a later leader did not have. -/
structure GrantOk (past : History ν ε) (g : Grant ν ε) : Prop where
  asked : ∃ (ρ : Nat) (r : Campaign ν ε), past[ρ]? = some (.campaign r) ∧ r.term = g.term ∧
    r.candidate = g.candidate ∧ r.phase = g.phase ∧ E.UpToDate r.log g.log
  once : ∀ g', .grant g' ∈ past → g'.voter = g.voter → g'.term = g.term → g'.candidate = g.candidate
  sorted : E.Sorted g.log
  rooted : E.Rooted past g.log
  kept : ∀ x, .commit x ∈ past → g.voter ∈ x.quorum → x.term ≤ g.term ∧ x.log <+: g.log
  acked : ∀ a, .ack a ∈ past → a.node = g.voter → a.term ≤ g.term ∧ a.phase ≤ g.phase ∧
    ∀ P, P <+: a.log → (∀ e, .election e ∈ past → a.term < e.term → P <+: e.log) → P <+: g.log

/-- A candidate has its votes. It may have gone on to a later phase since the campaign began, but
    only over entries it knew to be committed then. -/
structure Won (past : History ν ε) (e : Election ν ε) : Prop where
  asked : ∃ (ρ : Nat) (r : Campaign ν ε), past[ρ]? = some (.campaign r) ∧ r.Backs e
  seen : e.phase ≤ E.members (e.log.take e.known)
  quorum : ∃ p, E.planAt (committed past) e.phase = some p ∧ E.elects p e.voters
  granted : ∀ v ∈ e.voters, ∃ (γ : Nat) (g : Grant ν ε), past[γ]? = some (.grant g) ∧ g.voter = v ∧
    g.term = e.term ∧ g.candidate = e.candidate

/-- A node acknowledges a part of the leader's log, or the leader its own longer one. -/
structure AckOk (past : History ν ε) (a : Ack ν ε) : Prop where
  elected : ∃ e, .election e ∈ past ∧ e.term = a.term
  voted : ∀ g, .grant g ∈ past → g.voter = a.node → g.term ≤ a.term
  room : E.members a.log ≤ a.phase + 1
  grows : a.log <+: led past a.term ∨
    led past a.term <+: a.log ∧ ∃ e, .election e ∈ past ∧ e.term = a.term ∧ e.candidate = a.node
  sorted : E.Sorted a.log
  bounded : ∀ x ∈ a.log, E.term x ≤ a.term
  rooted : ∀ i x, a.log[i]? = some x → E.term x ≠ a.term →
    a.log.take (i + 1) <+: led past (E.term x) ∧ ∃ e, .election e ∈ past ∧ e.term = E.term x

/-- The leader that `e` elected in term `t` is in phase `k`: it knew the entries before it when its
    campaign began or has committed them since. -/
structure Leads (past : History ν ε) (t k : Nat) (e : Election ν ε) : Prop where
  elected : .election e ∈ past
  term : e.term = t
  phase : e.phase ≤ k
  knows : k ≤ E.members (e.log.take e.known) ∨
    ∃ y, .commit y ∈ past ∧ y.term = t ∧ k ≤ E.members y.log

/-- The leader of a term has the acknowledgements for a log that ends in an entry of that term. -/
structure Chosen (past : History ν ε) (x : Commit ν ε) : Prop where
  elected : ∃ e, E.Leads past x.term x.phase e ∧ e.log.length < x.log.length
  led : x.log <+: led past x.term
  lastTerm : E.lastTerm x.log = x.term
  room : E.members x.log ≤ x.phase + 1
  quorum : ∃ p, E.planAt (committed past) x.phase = some p ∧ E.commits p x.quorum
  acked : ∀ q ∈ x.quorum, ∃ (κ : Nat) (a : Ack ν ε), past[κ]? = some (.ack a) ∧ a.node = q ∧
    a.term = x.term ∧ x.log <+: a.log

/-- What the past is like when an event happens. -/
def Ok : Event ν ε → Prop
  | .campaign r => E.CampaignOk past r
  | .grant g => E.GrantOk past g
  | .election e => E.Won past e ∧ ∀ e', .election e' ∈ past → e'.term ≠ e.term
  | .ack a => E.AckOk past a
  | .commit x => E.Chosen past x ∧ (x.log <+: committed past ∨ committed past <+: x.log)

def Valid (tr : History ν ε) : Prop :=
  ∀ (τ : Nat) ev, tr[τ]? = some ev → E.Ok (tr.take τ) ev

end Electorate

/-! ## Counting membership entries -/

namespace Electorate

variable {E : Electorate ν ε π} {A B C L : List ε} {k j : Nat}

theorem members_mono (h : A <+: B) : E.members A ≤ E.members B := h.sublist.countP_le

/-- Of two parts of one log, the one with fewer membership entries is part of the other. -/
theorem part_of_members_lt (a : A <+: C) (b : B <+: C) (lt : E.members A < E.members B) : A <+: B := by
  rcases prefix_or_prefix_of_prefix a b with h | h
  · exact h
  · exact absurd (members_mono (E := E) h) (by omega)

variable {p q : π} {x : ε}

theorem planAt_mono (h : A <+: B) (at_ : E.planAt A k = some p) : E.planAt B k = some p := by
  obtain ⟨D, rfl⟩ := h
  unfold planAt at at_ ⊢
  split at at_
  · rename_i le
    have more : k ≤ E.members (A ++ D) := le.trans (members_mono (prefix_append A D))
    rw [if_pos more, filter_append, take_append_of_le_length]
    · exact at_
    · rwa [← countP_eq_length_filter]
  · cases at_

theorem le_members_of_planAt (at_ : E.planAt C k = some p) : k ≤ E.members C := by
  unfold planAt at at_
  split at at_
  · assumption
  · cases at_

theorem planAt_prev (at_ : E.planAt C (k + 1) = some q) :
    ∃ p x, E.planAt C k = some p ∧ E.next p x = some q := by
  have le := le_members_of_planAt at_
  have short : k < (C.filter E.member).length := by
    rw [← countP_eq_length_filter]; exact le
  unfold planAt at at_ ⊢
  rw [if_pos le, take_add_one, getElem?_eq_getElem short, toList_some,
    foldlM_append] at at_
  obtain ⟨p, before, after⟩ := bind_eq_some_iff.mp at_
  rw [if_pos (by omega)]
  exact ⟨p, _, before, by simpa using after⟩

theorem planAt_zero : E.planAt C 0 = some E.first := by simp [planAt]

theorem planAt_succ (part : A ++ [x] <+: C) (count : E.members A = k) (member : E.member x) :
    E.planAt C (k + 1) = (E.planAt C k).bind (E.next · x) := by
  obtain ⟨D, rfl⟩ := part
  have len : (A.filter E.member).length = k := by rw [← countP_eq_length_filter]; exact count
  have split : (A ++ [x] ++ D).filter E.member = A.filter E.member ++ x :: D.filter E.member := by
    simp [filter_append, member]
  have more : k + 1 ≤ E.members (A ++ [x] ++ D) := by
    simp only [members, countP_append, countP_singleton, member, if_true] at count ⊢
    omega
  have before : E.planAt (A ++ [x] ++ D) k = (A.filter E.member).foldlM E.next E.first := by
    unfold planAt
    rw [if_pos (by omega), split, take_append_of_le_length (by omega), take_of_length_le (by omega)]
  rw [before]
  unfold planAt
  rw [if_pos more, split, take_append, len, take_of_length_le (by omega)]
  simp [foldlM_append]

theorem planAt_below (at_ : E.planAt C k = some q) (le : j ≤ k) : ∃ p, E.planAt C j = some p := by
  induction k generalizing q with
  | zero =>
    obtain rfl : j = 0 := by omega
    exact ⟨q, at_⟩
  | succ k ih =>
    rcases lt_or_eq_of_le le with lt | rfl
    · obtain ⟨p, -, before, -⟩ := planAt_prev at_
      exact ih before (by omega)
    · exact ⟨q, at_⟩

/-- Two phases that are at most one apart have one plan or neighbouring ones. -/
theorem planAt_near (pk : E.planAt C k = some p) (qj : E.planAt C j = some q) (up : k ≤ j + 1)
    (down : j ≤ k + 1) : p = q ∨ (∃ x, E.next p x = some q) ∨ ∃ x, E.next q x = some p := by
  rcases lt_trichotomy k j with lt | rfl | gt
  · obtain rfl : j = k + 1 := by omega
    obtain ⟨p', x, before, step⟩ := planAt_prev qj
    obtain rfl : p' = p := some.inj (before.symm.trans pk)
    exact .inr (.inl ⟨x, step⟩)
  · exact .inl (some.inj (pk.symm.trans qj))
  · obtain rfl : k = j + 1 := by omega
    obtain ⟨q', x, before, step⟩ := planAt_prev pk
    obtain rfl : q' = q := some.inj (before.symm.trans qj)
    exact .inr (.inr ⟨x, step⟩)

section Meets

variable {p q : π} {V W : Set ν} (pk : E.planAt C k = some p) (qj : E.planAt C j = some q)
  (up : k ≤ j + 1) (down : j ≤ k + 1) (election : E.elects p V)

include pk qj up down election

theorem elects_meets_elects (other : E.elects q W) : ∃ v ∈ V, v ∈ W := by
  rcases planAt_near pk qj up down with rfl | ⟨x, step⟩ | ⟨x, step⟩
  · exact E.elects_elects election other
  · exact E.elects_elects_next step election other
  · obtain ⟨v, inW, inV⟩ := E.elects_elects_next step other election
    exact ⟨v, inV, inW⟩

theorem elects_meets_commits (other : E.commits q W) : ∃ v ∈ V, v ∈ W := by
  rcases planAt_near pk qj up down with rfl | ⟨x, step⟩ | ⟨x, step⟩
  · exact E.elects_commits election other
  · exact E.elects_commits_next step election other
  · exact E.elects_commits_prev step election other

end Meets

/-! ## Logs in term order -/

theorem Sorted.initial (h : E.Sorted B) (part : A <+: B) : E.Sorted A := Pairwise.sublist part.sublist h

theorem lastTerm_eq (last : L.getLast? = some x) : E.lastTerm L = E.term x := by
  simp [lastTerm, last]

theorem exists_last (ne : L ≠ []) : ∃ x ∈ L, L.getLast? = some x ∧ E.lastTerm L = E.term x :=
  ⟨L.getLast ne, L.getLast_mem ne, getLast?_eq_getLast_of_ne_nil ne,
    lastTerm_eq (getLast?_eq_getLast_of_ne_nil ne)⟩

theorem Sorted.le_lastTerm (h : E.Sorted L) (mem : x ∈ L) : E.term x ≤ E.lastTerm L := by
  obtain ⟨init, last, rfl⟩ := eq_nil_or_concat' L |>.resolve_left (ne_nil_of_mem mem)
  rw [lastTerm_eq (E := E) (x := last) (by simp)]
  rcases mem_append.mp mem with old | new
  · exact (pairwise_append.mp h).2.2 x old last (by simp)
  · rw [mem_singleton.mp new]

theorem Sorted.lastTerm_mono (h : E.Sorted B) (part : A <+: B) : E.lastTerm A ≤ E.lastTerm B := by
  by_cases nil : A = []
  · subst nil; simp [lastTerm]
  · obtain ⟨x, mem, -, same⟩ := exists_last (E := E) nil
    rw [same]
    exact h.le_lastTerm (part.subset mem)

theorem lastTerm_lt {t : Nat} (ne : L ≠ []) (below : ∀ x ∈ L, E.term x < t) : E.lastTerm L < t := by
  obtain ⟨x, mem, -, same⟩ := exists_last (E := E) ne
  rw [same]
  exact below x mem

end Electorate

/-! ## Valid histories -/

theorem getElem?_of_take (at_ : (tr.take τ)[σ]? = some ev) : σ < τ ∧ tr[σ]? = some ev := by
  rw [getElem?_take] at at_
  split at at_
  · exact ⟨‹_›, at_⟩
  · cases at_

theorem getElem?_take_of_lt (at_ : tr[σ]? = some ev) (lt : σ < τ) : (tr.take τ)[σ]? = some ev := by
  rw [getElem?_take, if_pos lt, at_]

namespace Electorate

variable {E : Electorate ν ε π} {tr : History ν ε} {τ σ t : Nat} {ev : Event ν ε}

theorem Valid.nil : E.Valid [] := fun _ _ at_ => nomatch at_

section

variable (v : E.Valid tr)

include v

theorem Valid.take (n : Nat) : E.Valid (tr.take n) := by
  intro τ ev at_
  obtain ⟨lt, at_⟩ := getElem?_of_take at_
  rw [take_take, Nat.min_eq_left (by omega)]
  exact v τ ev at_

theorem Valid.append (ok : E.Ok tr ev) : E.Valid (tr ++ [ev]) := by
  intro τ ev' at_
  by_cases old : τ < tr.length
  · rw [getElem?_append_left old] at at_
    rw [take_append_of_le_length (by omega)]
    exact v τ ev' at_
  · obtain ⟨lt, -⟩ := List.getElem?_eq_some_iff.mp at_
    obtain rfl : τ = tr.length := by simp at lt; omega
    simp only [getElem?_append_right (Nat.le_refl _), Nat.sub_self, getElem?_cons_zero,
      some.injEq] at at_
    subst at_
    rwa [take_left]

theorem Valid.at_mem (mem : ev ∈ tr) : ∃ τ, τ < tr.length ∧ tr[τ]? = some ev ∧ E.Ok (tr.take τ) ev := by
  obtain ⟨τ, at_⟩ := mem_iff_getElem?.mp mem
  exact ⟨τ, (List.getElem?_eq_some_iff.mp at_).1, at_, v τ ev at_⟩

theorem Valid.grows_committed : Grows Event.committed tr := by
  intro τ ev P at_ contributes
  cases ev with
  | commit x =>
    cases contributes
    exact (v τ _ at_).2
  | _ => cases contributes

theorem Valid.led_nil (none : ∀ e, .election e ∈ tr → e.term ≠ t) : led tr t = [] := by
  rcases grown_source (Event.led t) tr with nil | ⟨τ, ev, at_, src⟩
  · exact nil
  exfalso
  cases ev with
  | election e =>
    simp only [Event.led] at src
    split at src
    · exact none e (mem_of_getElem? at_) ‹_›
    · cases src
  | ack a =>
    simp only [Event.led] at src
    split at src
    · obtain ⟨e, mem, same⟩ := (v τ _ at_).elected
      exact none e (mem_of_mem_take mem) (same.trans ‹_›)
    · cases src
  | _ => cases src

theorem Valid.grows_led (t : Nat) : Grows (Event.led t) tr := by
  intro τ ev P at_ contributes
  cases ev with
  | election e =>
    simp only [Event.led] at contributes
    split at contributes
    · rename_i same
      subst same
      have nil : grown (Event.led e.term) (tr.take τ) = [] := (v.take τ).led_nil (v τ _ at_).2
      rw [nil]
      exact .inr nil_prefix
    · cases contributes
  | ack a =>
    simp only [Event.led] at contributes
    split at contributes
    · rename_i same
      subst same
      cases contributes
      exact (v τ _ at_).grows.imp_right And.left
    · cases contributes
  | _ => cases contributes

theorem Valid.committed_mono (le : τ ≤ σ) : committed (tr.take τ) <+: committed (tr.take σ) :=
  v.grows_committed.mono le

theorem Valid.committed_part (τ : Nat) : committed (tr.take τ) <+: committed tr := by
  have h := v.committed_mono (τ := τ) (σ := max τ tr.length) (le_max_left ..)
  rwa [take_of_length_le (le_max_right ..)] at h

theorem Valid.led_mono (le : τ ≤ σ) : led (tr.take τ) t <+: led (tr.take σ) t :=
  (v.grows_led t).mono le

theorem Valid.led_part (τ : Nat) : led (tr.take τ) t <+: led tr t := by
  have h := v.led_mono (t := t) (τ := τ) (σ := max τ tr.length) (le_max_left ..)
  rwa [take_of_length_le (le_max_right ..)] at h

theorem Valid.commit_part {x : Commit ν ε} (at_ : tr[σ]? = some (.commit x)) (lt : σ < τ) :
    x.log <+: committed (tr.take τ) :=
  v.grows_committed.holds at_ rfl lt

theorem Valid.election_led {e : Election ν ε} (mem : .election e ∈ tr) : e.log <+: led tr e.term := by
  obtain ⟨τ, lt, at_, -⟩ := v.at_mem mem
  have h := (v.grows_led e.term).holds at_ (by simp [Event.led]; rfl) lt
  rwa [take_length] at h

theorem Valid.ack_led {a : Ack ν ε} (mem : .ack a ∈ tr) : a.log <+: led tr a.term := by
  obtain ⟨τ, lt, at_, -⟩ := v.at_mem mem
  have h := (v.grows_led a.term).holds at_ (by simp [Event.led]; rfl) lt
  rwa [take_length] at h

theorem Valid.commit_led {x : Commit ν ε} (ok : E.Chosen (tr.take τ) x) : x.log <+: led tr x.term := ok.led.trans (v.led_part τ)

end

/-! ## Where logs come from -/

variable {L G R P : List ε}

theorem Rooted.nil : E.Rooted tr [] := fun _ _ at_ => nomatch at_

theorem Rooted.initial (h : E.Rooted tr L) (part : P <+: L) : E.Rooted tr P := by
  intro i x at_
  obtain ⟨led, elected⟩ := h i x (by
    obtain ⟨D, rfl⟩ := part
    rw [getElem?_append_left (List.getElem?_eq_some_iff.mp at_).1, at_])
  refine ⟨(prefix_of_prefix_length_le ?_ ( take_prefix ..) ?_).trans led, elected⟩
  · exact ( take_prefix ..).trans part
  · simp only [length_take]
    have := part.length_le
    omega

theorem Rooted.later (h : E.Rooted (tr.take τ) L) (v : E.Valid tr) (le : τ ≤ σ) : E.Rooted (tr.take σ) L := by
  intro i x at_
  obtain ⟨led, e, mem, same⟩ := h i x at_
  exact ⟨led.trans (v.led_mono le), e, (take_subset_take_left tr le) mem, same⟩

theorem Rooted.append (h : E.Rooted tr L) (v : E.Valid (tr ++ [ev])) : E.Rooted (tr ++ [ev]) L := by
  have h' : E.Rooted ((tr ++ [ev]).take tr.length) L := by rwa [take_left]
  have later := h'.later v (σ := (tr ++ [ev]).length) (by simp)
  rwa [take_length] at later

/-- A log is part of the log of the leader of its last term. -/
theorem Rooted.last (h : E.Rooted tr L) (ne : L ≠ []) :
    L <+: led tr (E.lastTerm L) ∧ ∃ e, .election e ∈ tr ∧ e.term = E.lastTerm L := by
  obtain ⟨x, -, last, same⟩ := exists_last (E := E) ne
  rw [getLast?_eq_getElem?] at last
  have len : L.length - 1 + 1 = L.length := by
    have := length_pos_of_ne_nil ne; omega
  have root := h _ x last
  rwa [len, take_length, ← same] at root

/-- The log of a leader consists of lower terms' logs and of its own entries. -/
theorem Valid.led_spec (v : E.Valid tr) (t : Nat) :
    E.Sorted (led tr t) ∧ (∀ x ∈ led tr t, E.term x ≤ t) ∧ E.Rooted tr (led tr t) := by
  rcases grown_source (Event.led t) tr with nil | ⟨τ, ev, at_, src⟩
  · have nil : led tr t = [] := nil
    rw [nil]
    exact ⟨Pairwise.nil, nofun, Rooted.nil⟩
  · change ev.led t = some (led tr t) at src
    cases ev with
    | election e =>
      simp only [Event.led] at src
      split at src
      · rename_i same
        have whole : e.log = led tr t := some.inj src
        obtain ⟨ρ, r, campaign, backs⟩ := (v τ _ at_).1.asked
        obtain ⟨lt, campaign⟩ := getElem?_of_take campaign
        have ok : E.CampaignOk _ r := v ρ _ campaign
        rw [← whole, ← backs.log]
        refine ⟨ok.sorted, ?_, ?_⟩
        · intro x mem
          have := ok.below x mem
          have := backs.term
          omega
        · have late := ok.rooted.later v (σ := max ρ tr.length) (le_max_left ..)
          rwa [take_of_length_le (le_max_right ..)] at late
      · cases src
    | ack a =>
      simp only [Event.led] at src
      split at src
      · rename_i same
        have whole : a.log = led tr t := some.inj src
        have ok : E.AckOk _ a := v τ _ at_
        rw [← whole]
        refine ⟨ok.sorted, fun x mem => same ▸ ok.bounded x mem, ?_⟩
        intro i x at_i
        obtain ⟨e, mem, term⟩ := ok.elected
        by_cases own : E.term x = a.term
        · rw [own, same, ← whole]
          exact ⟨ take_prefix .., e, mem_of_mem_take mem, term.trans same⟩
        · obtain ⟨led, e, mem, term⟩ := ok.rooted i x at_i own
          exact ⟨led.trans (v.led_part τ), e, mem_of_mem_take mem, term⟩
      · cases src
    | _ => cases src

/-- A log that is up to date has the committed part of the other one, if every later leader has. -/
theorem UpToDate.carries (v : E.Valid tr) (up : E.UpToDate R G) (rootR : E.Rooted tr R)
    (rootG : E.Rooted tr G) (sorted : E.Sorted G) (part : P <+: G) (ne : P ≠ [])
    (later : ∀ e, .election e ∈ tr → E.lastTerm P < e.term → P <+: e.log) : P <+: R := by
  have neG : G ≠ [] := fun nil => ne (prefix_nil.mp (nil ▸ part))
  have low : E.lastTerm P ≤ E.lastTerm G := sorted.lastTerm_mono part
  rcases up with higher | ⟨same, long⟩
  · -- the last entry of `R` is of a later leader, which has `P`
    have neR : R ≠ [] := by rintro rfl; simp [lastTerm] at higher
    obtain ⟨ledR, e, mem, term⟩ := rootR.last neR
    have has : P <+: led tr (E.lastTerm R) := by
      rw [← term]
      exact (later e mem (by omega)).trans (v.election_led mem)
    rcases prefix_or_prefix_of_prefix has ledR with h | h
    · exact h
    · have := (sorted.initial part).lastTerm_mono h
      omega
  · have neR : R ≠ [] := by
      rintro rfl
      exact neG (length_eq_zero_iff.mp (Nat.le_zero.mp long))
    have ledR := (rootR.last neR).1
    rw [← same] at ledR
    exact part.trans (prefix_of_prefix_length_le (rootG.last neG).1 ledR long)

/-! ## Phases -/

variable {e e' : Election ν ε} {r : Campaign ν ε} {x : Commit ν ε} {ρ j k : Nat}

/-- Before `τ`, the `j`th membership entry was committed in the phase before it. -/
def Covers (E : Electorate ν ε π) (tr : History ν ε) (τ j : Nat) (f : Commit ν ε) : Prop :=
  ∃ σ, σ < τ ∧ tr[σ]? = some (.commit f) ∧ f.phase + 1 = j ∧ j ≤ E.members f.log

theorem Covers.later {f : Commit ν ε} (h : E.Covers tr τ j f) (le : τ ≤ σ) : E.Covers tr σ j f := by
  obtain ⟨ι, lt, rest⟩ := h
  exact ⟨ι, by omega, rest⟩

section

variable (v : E.Valid tr)

include v

theorem Valid.chosen (at_ : tr[τ]? = some (.commit x)) : E.Chosen (tr.take τ) x :=
  (v τ _ at_).1

/-- A committed membership entry was committed in the phase it closes. -/
theorem committed_cover (pos : 1 ≤ j) (le : j ≤ E.members (committed (tr.take τ))) :
    ∃ f, E.Covers tr τ j f := by
  induction τ using Nat.strong_induction_on with
  | _ τ ih =>
    rcases grown_source Event.committed (tr.take τ) with nil | ⟨σ, ev, at_, src⟩
    · rw [committed, nil] at le
      exact absurd le (by simp [members]; omega)
    · obtain ⟨lt, at_⟩ := getElem?_of_take at_
      cases ev with
      | commit f =>
        have whole : f.log = committed (tr.take τ) := some.inj src
        rw [← whole] at le
        have ok := v.chosen at_
        have room := ok.room
        by_cases here : f.phase + 1 = j
        · exact ⟨f, σ, lt, at_, here, le⟩
        -- the phase of `f` is a later one, and the entry was committed before `f`
        obtain ⟨p, plan, -⟩ := ok.quorum
        obtain ⟨f', covers⟩ := ih σ lt (by have := le_members_of_planAt plan; omega)
        exact ⟨f', covers.later lt.le⟩
      | _ => cases src

theorem campaign_unique {r r' : Campaign ν ε} {ρ ρ' : Nat} (at_ : tr[ρ]? = some (.campaign r))
    (at' : tr[ρ']? = some (.campaign r')) (term : r.term = r'.term)
    (candidate : r.candidate = r'.candidate) : ρ = ρ' := by
  rcases lt_trichotomy ρ ρ' with lt | same | gt
  · exact absurd candidate
      ((v ρ' _ at').once r (mem_of_getElem? (getElem?_take_of_lt at_ lt)) term)
  · exact same
  · exact absurd candidate.symm
      ((v ρ _ at_).once r' (mem_of_getElem? (getElem?_take_of_lt at' gt)) term.symm)

/-- The vote of a voter that elected a candidate came after the candidate's campaign began. -/
theorem Won.vote (won : E.Won (tr.take τ) e) (at_ : tr[ρ]? = some (.campaign r)) (backs : r.Backs e)
    {voter : ν} (mem : voter ∈ e.voters) :
    ∃ γ g, ρ < γ ∧ γ < τ ∧ tr[γ]? = some (.grant g) ∧ g.voter = voter ∧ g.term = e.term ∧
      g.candidate = e.candidate ∧ g.phase = r.phase ∧ E.UpToDate r.log g.log := by
  obtain ⟨γ, g, grant, voter', term, candidate⟩ := won.granted voter mem
  obtain ⟨late, grant⟩ := getElem?_of_take grant
  obtain ⟨ρ', r', campaign, term', candidate', phase, up⟩ := (v γ _ grant).asked
  obtain ⟨early, campaign⟩ := getElem?_of_take campaign
  -- there is one campaign of a candidate in a term
  obtain rfl := campaign_unique v at_ campaign (by rw [backs.term, term', term])
    (by rw [backs.candidate, candidate', candidate])
  cases at_.symm.trans campaign
  exact ⟨γ, g, early, late, grant, voter', term, candidate, phase.symm, up⟩

theorem Won.plan (won : E.Won (tr.take τ) e) :
    ∃ p, E.planAt (committed tr) e.phase = some p ∧ E.elects p e.voters := by
  obtain ⟨p, plan, elects⟩ := won.quorum
  exact ⟨p, planAt_mono (v.committed_part τ) plan, elects⟩

theorem Chosen.plan (ok : E.Chosen (tr.take τ) x) :
    ∃ p, E.planAt (committed tr) x.phase = some p ∧ E.commits p x.quorum := by
  obtain ⟨p, plan, commits⟩ := ok.quorum
  exact ⟨p, planAt_mono (v.committed_part τ) plan, commits⟩

/-- In phases at most one apart, a voter of the election acknowledged the commit. -/
theorem Won.meets (won : E.Won (tr.take τ) e) (ok : E.Chosen (tr.take σ) x) (up : e.phase ≤ x.phase + 1)
    (down : x.phase ≤ e.phase + 1) : ∃ q ∈ e.voters, q ∈ x.quorum := by
  obtain ⟨p, planP, elects⟩ := won.plan v
  obtain ⟨q, planQ, commits⟩ := ok.plan v
  exact elects_meets_commits planP planQ up down elects commits

omit v in
theorem Chosen.ne_nil (ok : E.Chosen (tr.take σ) x) : x.log ≠ [] := by
  obtain ⟨e, -, long⟩ := ok.elected
  intro nil
  rw [nil] at long
  exact absurd long (by simp)

/-- What a candidate knows to be committed when its campaign begins was committed in lower terms.
    The hypothesis `before` is the same of commits before the campaign. -/
theorem Won.knows_of (won : E.Won (tr.take τ) e) (at_ : tr[ρ]? = some (.campaign r)) (backs : r.Backs e)
    (before : ∀ σ < ρ, ∀ f j, tr[σ]? = some (.commit f) → 1 ≤ j → j ≤ f.phase →
      ∃ f', E.Covers tr σ j f' ∧ f'.term ≤ f.term) (pos : 1 ≤ j)
    (le : j ≤ E.members (e.log.take e.known)) : ∃ f, E.Covers tr ρ j f ∧ f.term < e.term := by
  have ok : E.CampaignOk _ r := v ρ _ at_
  have known := ok.known
  have room := ok.room
  have seen := won.seen
  have phase := backs.phase
  rw [backs.log, backs.known] at known
  rw [backs.log] at room
  have count := members_mono (E := E) known
  have whole := members_mono (E := E) ( take_prefix e.known e.log)
  -- `f` committed the last membership entry that the candidate knew, in a phase next to its own
  obtain ⟨f, σ, lt, commit, closes, covered⟩ :=
    committed_cover v (j := E.members (e.log.take e.known)) (by omega) count
  have chosen := v.chosen commit
  obtain ⟨q, voted, acked⟩ := won.meets v chosen (by omega) (by omega)
  obtain ⟨γ, g, after, -, grant, voter, term, -, -, upToDate⟩ := won.vote v at_ backs voted
  have okg : E.GrantOk _ g := v γ _ grant
  obtain ⟨-, part⟩ := okg.kept f
    (mem_of_getElem? (getElem?_take_of_lt commit (by omega))) (voter ▸ acked)
  have lower : f.term < e.term := by
    have low := okg.sorted.lastTerm_mono part
    rw [chosen.lastTerm] at low
    have ne : e.log ≠ [] := by
      rintro nil
      rw [nil, take_nil] at le
      exact absurd le (by simp [members]; omega)
    have high := lastTerm_lt (E := E) (t := e.term) ne fun y mem => by
      have := ok.below y (backs.log ▸ mem)
      rwa [backs.term] at this
    rw [backs.log] at upToDate
    rcases upToDate with h | ⟨h, -⟩ <;> omega
  by_cases here : f.phase + 1 = j
  · exact ⟨f, ⟨σ, lt, commit, here, by omega⟩, lower⟩
  · obtain ⟨f', covers, le'⟩ := before σ lt f j commit pos (by omega)
    exact ⟨f', covers.later lt.le, by omega⟩

omit v in
theorem mem_take {ev : Event ν ε} (mem : ev ∈ tr.take τ) : ∃ σ < τ, tr[σ]? = some ev := by
  obtain ⟨σ, at_⟩ := mem_iff_getElem?.mp mem
  obtain ⟨lt, at_⟩ := getElem?_of_take at_
  exact ⟨σ, lt, at_⟩

/-- The membership entries before the phase of a leader were committed in no higher term. -/
theorem Leads.knows_cover (leads : E.Leads (tr.take τ) t k e) (pos : 1 ≤ j) (le : j ≤ k) :
    ∃ f, E.Covers tr τ j f ∧ f.term ≤ t := by
  induction τ using Nat.strong_induction_on generalizing t k e j with
  | _ τ ih =>
    have chosen_before : ∀ σ < τ, ∀ f j, tr[σ]? = some (.commit f) → 1 ≤ j → j ≤ f.phase →
        ∃ f', E.Covers tr σ j f' ∧ f'.term ≤ f.term := by
      intro σ lt f j commit pos le
      obtain ⟨e', leads', -⟩ := (v.chosen commit).elected
      exact ih σ lt leads' pos le
    rcases leads.knows with known | ⟨y, mem, termY, covered⟩
    · obtain ⟨ι, lt, election⟩ := mem_take leads.elected
      have won := (v ι _ election).1
      obtain ⟨ρ, r, campaign, backs⟩ := won.asked
      obtain ⟨early, campaign⟩ := getElem?_of_take campaign
      obtain ⟨f, covers, lower⟩ := won.knows_of v campaign backs
        (fun σ before => chosen_before σ (by omega)) pos (by omega)
      exact ⟨f, covers.later (by omega), by have := leads.term; omega⟩
    · obtain ⟨υ, early, commit⟩ := mem_take mem
      have room := (v.chosen commit).room
      by_cases here : y.phase + 1 = j
      · exact ⟨y, ⟨υ, early, commit, here, by omega⟩, by omega⟩
      · obtain ⟨f, covers, lower⟩ := chosen_before υ early y j commit pos (by omega)
        exact ⟨f, covers.later early.le, by omega⟩

theorem Chosen.knows (ok : E.Chosen (tr.take τ) x) (pos : 1 ≤ j) (le : j ≤ x.phase) :
    ∃ f, E.Covers tr τ j f ∧ f.term ≤ x.term := by
  obtain ⟨e, leads, -⟩ := ok.elected
  exact leads.knows_cover v pos le

end

section

variable (v : E.Valid tr) (won : E.Won (tr.take τ) e)

include v won

/-- A candidate elected in a term knows only membership entries committed in lower terms. -/
theorem Won.knows (at_ : tr[ρ]? = some (.campaign r)) (backs : r.Backs e) (pos : 1 ≤ j)
    (le : j ≤ E.members (e.log.take e.known)) : ∃ f, E.Covers tr ρ j f ∧ f.term < e.term :=
  won.knows_of v at_ backs (fun _ _ _ _ commit => (v.chosen commit).knows v) pos le

/-- A candidate is elected in phase `k` in a term no higher than that of a commit that closes phase
    `k + 1`: the voter they share voted before it held an entry beyond phase `k`. -/
theorem Won.before_next (ok : E.Chosen (tr.take σ) x) (next : x.phase = e.phase + 1)
    (closes : x.phase + 1 ≤ E.members x.log) : e.term ≤ x.term := by
  obtain ⟨q, voted, inQuorum⟩ := won.meets v ok (by omega) (by omega)
  obtain ⟨ρ, r, campaign, backs⟩ := won.asked
  obtain ⟨-, campaign⟩ := getElem?_of_take campaign
  obtain ⟨γ, g, -, -, grant, voter, term, -, phase, -⟩ := won.vote v campaign backs voted
  obtain ⟨κ, a, ack, node, termA, holds⟩ := ok.acked q inQuorum
  obtain ⟨-, ack⟩ := getElem?_of_take ack
  rcases lt_or_ge κ γ with acked | voted
  · have behind := ((v γ _ grant).acked a
      (mem_of_getElem? (getElem?_take_of_lt ack acked)) (by rw [node, voter])).2.1
    have room : E.members a.log ≤ a.phase + 1 := (v κ _ ack).room
    have := members_mono (E := E) holds
    have := backs.phase
    omega
  · have first : γ < κ := by
      refine lt_of_le_of_ne voted ?_
      rintro rfl
      cases grant.symm.trans ack
    have := (v κ _ ack).voted g
      (mem_of_getElem? (getElem?_take_of_lt grant first)) (by rw [voter, node])
    omega

theorem Won.before_later (ok : E.Chosen (tr.take σ) x) (later : e.phase + 2 ≤ x.phase) : e.term ≤ x.term := by
  obtain ⟨f, ⟨ι, -, commit, closes, covered⟩, lower⟩ := ok.knows v (j := e.phase + 2) (by omega) later
  have := won.before_next v (v.chosen commit) (by omega) (by omega)
  omega

/-- A commit that closes the phase of an election, or a later one, has no lower term. -/
theorem Won.le_of_covers {f : Commit ν ε} (covers : E.Covers tr σ j f) (beyond : e.phase + 2 ≤ j) :
    e.term ≤ f.term := by
  obtain ⟨ι, -, commit, closes, covered⟩ := covers
  rcases eq_or_lt_of_le beyond with here | late
  · exact won.before_next v (v.chosen commit) (by omega) (by omega)
  · exact won.before_later v (v.chosen commit) (by omega)

end

/-! ## Safety -/

section Complete

variable (v : E.Valid tr) (won : E.Won (tr.take τ) e) (ok : E.Chosen (tr.take σ) x)
  (earlier : ∀ ι < τ, ∀ e', tr[ι]? = some (.election e') → x.term < e'.term → x.log <+: e'.log)

include v won ok earlier

/-- A leader two phases ahead knew the entry that closed the phase after the commit's. -/
theorem Won.has_of_ahead (ahead : x.phase + 2 ≤ e.phase) : x.log <+: e.log := by
  obtain ⟨ρ, r, campaign, backs⟩ := won.asked
  obtain ⟨early, campaign⟩ := getElem?_of_take campaign
  have seen := won.seen
  have room := ok.room
  obtain ⟨f, covers, lower⟩ := won.knows v campaign backs (j := x.phase + 2) (by omega) (by omega)
  obtain ⟨e', leads', -⟩ := ok.elected
  obtain ⟨ι, -, election'⟩ := mem_take leads'.elected
  have phase' := leads'.phase
  have term' := leads'.term
  have order := (v ι _ election').1.le_of_covers v covers (by omega)
  obtain ⟨φ, before, commit, closes, covered⟩ := covers
  have okf := v.chosen commit
  have part : x.log <+: f.log := by
    rcases lt_or_eq_of_le order with lt | same
    · obtain ⟨ef, leadsf, longf⟩ := okf.elected
      obtain ⟨ιf, ltf, electionf⟩ := mem_take leadsf.elected
      have termf := leadsf.term
      have has := earlier ιf (by omega) ef electionf (by omega)
      have ledf := v.election_led (mem_of_getElem? electionf)
      rw [termf] at ledf
      refine prefix_of_prefix_length_le (has.trans ledf) (v.commit_led okf) ?_
      have := has.length_le
      omega
    · have same : x.term = f.term := by omega
      exact part_of_members_lt (E := E) (same ▸ v.commit_led ok) (v.commit_led okf) (by omega)
  -- both the commit and what the candidate knew are parts of the committed log
  have okr : E.CampaignOk _ r := v ρ _ campaign
  have known := okr.known
  rw [backs.log, backs.known] at known
  have inside := part_of_members_lt (E := E) (part.trans (v.commit_part commit before)) known
    (by omega)
  exact inside.trans ( take_prefix ..)

/-- In neighbouring phases, the shared voter acknowledged the commit before it voted. -/
theorem Won.has_of_near (higher : x.term < e.term) (up : e.phase ≤ x.phase + 1)
    (down : x.phase ≤ e.phase + 1) : x.log <+: e.log := by
  obtain ⟨ρ, r, campaign, backs⟩ := won.asked
  obtain ⟨-, campaign⟩ := getElem?_of_take campaign
  obtain ⟨q, voted, inQuorum⟩ := won.meets v ok up down
  obtain ⟨γ, g, after, ahead, grant, voter, term, -, -, upToDate⟩ := won.vote v campaign backs voted
  obtain ⟨κ, a, ack, node, termA, holds⟩ := ok.acked q inQuorum
  obtain ⟨-, ack⟩ := getElem?_of_take ack
  have okg : E.GrantOk _ g := v γ _ grant
  have first : κ < γ := by
    rcases lt_trichotomy κ γ with h | rfl | h
    · exact h
    · cases grant.symm.trans ack
    · have := (v κ _ ack).voted g
        (mem_of_getElem? (getElem?_take_of_lt grant h)) (by rw [voter, node])
      omega
  have has : ∀ e', .election e' ∈ tr.take γ → x.term < e'.term → x.log <+: e'.log := by
    intro e' mem high
    obtain ⟨ι, lt, at_⟩ := mem_take mem
    exact earlier ι (by omega) e' at_ high
  have part : x.log <+: g.log :=
    (okg.acked a (mem_of_getElem? (getElem?_take_of_lt ack first)) (by rw [node, voter])).2.2
      x.log holds fun e' mem high => has e' mem (by omega)
  rw [backs.log] at upToDate
  have okr : E.CampaignOk _ r := v ρ _ campaign
  have rooted : E.Rooted (tr.take γ) e.log := backs.log ▸ okr.rooted.later v after.le
  exact upToDate.carries (v.take γ) rooted okg.rooted okg.sorted part ok.ne_nil
    (fun e' mem high => has e' mem (by rwa [ok.lastTerm] at high))

end Complete

section

variable (v : E.Valid tr) (ok : E.Chosen (tr.take σ) x)

include v ok

/-- The leader of a higher term has a committed log. -/
theorem leader_complete (election : tr[τ]? = some (.election e)) (higher : x.term < e.term) :
    x.log <+: e.log := by
  -- by induction on the moment of the election, not on its term
  induction τ using Nat.strong_induction_on generalizing e with
  | _ τ ih =>
    have won := (v τ _ election).1
    have earlier : ∀ ι < τ, ∀ e', tr[ι]? = some (.election e') → x.term < e'.term → x.log <+: e'.log :=
      fun ι lt e' at_ high => ih ι lt at_ high
    by_cases ahead : x.phase + 2 ≤ e.phase
    · exact won.has_of_ahead v ok earlier ahead
    · by_cases behind : e.phase + 2 ≤ x.phase
      · exact absurd (won.before_later v ok behind) (by omega)
      · exact won.has_of_near v ok earlier higher (by omega) (by omega)

/-- The same for a leader that is in the history at some moment. -/
theorem leader_complete_mem (mem : .election e ∈ tr) (higher : x.term < e.term) : x.log <+: e.log := by
  obtain ⟨τ, -, at_, -⟩ := v.at_mem mem
  exact leader_complete v ok at_ higher

omit v ok in
/-- An election that knew of the phase after next of another one is of a higher term. -/
theorem Won.ne_of_ahead (v : E.Valid tr) (won : E.Won (tr.take τ) e) (won' : E.Won (tr.take σ) e')
    (ahead : e.phase + 2 ≤ e'.phase) : e.term < e'.term := by
  obtain ⟨ρ, r, campaign, backs⟩ := won'.asked
  obtain ⟨-, campaign⟩ := getElem?_of_take campaign
  have seen := won'.seen
  obtain ⟨f, covers, lower⟩ := won'.knows v campaign backs (j := e.phase + 2) (by omega) (by omega)
  have := won.le_of_covers v covers le_rfl
  omega

omit v ok in
/-- Two elections of one term elect one candidate. -/
theorem election_safe (v : E.Valid tr) (won : E.Won (tr.take τ) e) (won' : E.Won (tr.take σ) e')
    (same : e.term = e'.term) : e.candidate = e'.candidate := by
  by_cases ahead : e.phase + 2 ≤ e'.phase
  · exact absurd (won.ne_of_ahead v won' ahead) (by omega)
  by_cases behind : e'.phase + 2 ≤ e.phase
  · exact absurd (won'.ne_of_ahead v won behind) (by omega)
  -- neighbouring phases: a voter of both voted once
  obtain ⟨p, planP, elects⟩ := won.plan v
  obtain ⟨p', planP', elects'⟩ := won'.plan v
  obtain ⟨q, voted, voted'⟩ := elects_meets_elects planP planP' (by omega) (by omega) elects elects'
  obtain ⟨γ, g, grant, voter, term, candidate⟩ := won.granted q voted
  obtain ⟨γ', g', grant', voter', term', candidate'⟩ := won'.granted q voted'
  obtain ⟨-, grant⟩ := getElem?_of_take grant
  obtain ⟨-, grant'⟩ := getElem?_of_take grant'
  rw [← candidate, ← candidate']
  rcases lt_trichotomy γ γ' with lt | rfl | gt
  · exact (v γ' _ grant').once g (mem_of_getElem? (getElem?_take_of_lt grant lt))
      (by rw [voter, voter']) (by omega)
  · cases grant.symm.trans grant'
    rfl
  · exact ((v γ _ grant).once g' (mem_of_getElem? (getElem?_take_of_lt grant' gt))
      (by rw [voter, voter']) (by omega)).symm

/-- The log of a commit is longer than the log its leader was elected with. -/
theorem Chosen.has_of_election (has : ∀ e, .election e ∈ tr → e.term = x.term → P <+: e.log) :
    P <+: x.log := by
  obtain ⟨e, leads, long⟩ := ok.elected
  have mem := mem_of_mem_take leads.elected
  have term := leads.term
  have part := has e mem term
  refine prefix_of_prefix_length_le (part.trans (term ▸ v.election_led mem)) (v.commit_led ok) ?_
  have := part.length_le
  omega

/-- Two committed logs agree as far as both go. -/
theorem commit_comparable {y : Commit ν ε} (ok' : E.Chosen (tr.take τ) y) :
    x.log <+: y.log ∨ y.log <+: x.log := by
  rcases lt_trichotomy x.term y.term with lt | same | gt
  · exact .inl (ok'.has_of_election v fun e mem term => leader_complete_mem v ok mem (by omega))
  · exact prefix_or_prefix_of_prefix (v.commit_led ok) (same ▸ v.commit_led ok')
  · exact .inr (ok.has_of_election v fun e mem term => leader_complete_mem v ok' mem (by omega))

end

/-- A further commit agrees with what is committed already. -/
theorem Chosen.comparable (v : E.Valid tr) (ok : E.Chosen tr x) :
    x.log <+: committed tr ∨ committed tr <+: x.log := by
  rcases grown_source Event.committed tr with nil | ⟨τ, ev, at_, src⟩
  · have nil : committed tr = [] := nil
    exact .inr (nil ▸ nil_prefix)
  · cases ev with
    | commit y =>
      have whole : y.log = committed tr := some.inj src
      rw [← whole]
      exact commit_comparable v (σ := tr.length) (by rwa [take_length]) (v.chosen at_)
    | _ => cases src

end Electorate

end Ledger
