import MeshSpan.Ordered
import MeshSpan.Primitives

/- Greedy topological orders.

   A greedy order of a finite graph lists, again and again, the node of least key
   among those whose predecessors are all listed (`Greedy`). This file

   1. gives the order a static description: the blocking chain of a node is the
      key of the greatest node among itself and its ancestors, then the greatest
      below that one on the way to the node, and so on to the node itself
      (`blockingChain`). A greedy order lists the nodes by their blocking chains,
      compared lexicographically (`Greedy.sorted`, `Greedy.before_iff`);
   2. gives the counting algorithm (`kahn`) and proves that a complete result is
      greedy (`kahn_greedy`). -/

namespace MeshSpan

open List

namespace Topological

variable {κ ρ : Type} [DecidableEq κ] [LinearOrder ρ]

/-! ## Blocking chains -/

/-- The keys that hold `z` back within `pool`, greatest first; `below a b` says that `a` is a proper
ancestor of `b`. -/
def blockingChain (key : κ → ρ) (below : κ → κ → Bool) : Nat → List κ → κ → List ρ
  | 0, _, _ => []
  | fuel + 1, pool, z =>
    match (pool.filter fun c => decide (c = z) || below c z).argmax key with
    | none => []
    | some m => key m :: if m = z then [] else blockingChain key below fuel (pool.filter (below m)) z

/-- Ancestry is a strict order and keys tell nodes apart. -/
structure Ranked (key : κ → ρ) (below : κ → κ → Bool) : Prop where
  irrefl : ∀ a, ¬ below a a
  trans : ∀ a b c, below a b → below b c → below a c
  injective : ∀ a b, key a = key b → a = b

variable {key : κ → ρ} {below : κ → κ → Bool} {pool ordered : List κ} {k c : κ}

/-- The head of a chain is the greatest key among the node and its ancestors in the pool. -/
theorem blockingChain_cons (key : κ → ρ) (below : κ → κ → Bool) (fuel : Nat) {z : κ} (mem : z ∈ pool) :
    ∃ m, m ∈ pool ∧ (m = z ∨ below m z) ∧ (∀ c ∈ pool, (c = z ∨ below c z) → key c ≤ key m) ∧
      blockingChain key below (fuel + 1) pool z =
        key m :: if m = z then [] else blockingChain key below fuel (pool.filter (below m)) z := by
  obtain ⟨candidates, hcandidates⟩ : ∃ l, l = pool.filter fun c => decide (c = z) || below c z := ⟨_, rfl⟩
  have self : z ∈ candidates := by simp [hcandidates, mem]
  have member : ∀ c, c ∈ candidates ↔ c ∈ pool ∧ (c = z ∨ below c z) := by simp [hcandidates]
  cases top : candidates.argmax key with
  | none => simp [argmax_eq_none.mp top] at self
  | some m =>
    have chosen := argmax_mem top
    refine ⟨m, ((member m).mp chosen).1, ((member m).mp chosen).2, ?_, ?_⟩
    · intro c hc ancestor
      exact le_of_mem_argmax ((member c).mpr ⟨hc, ancestor⟩) top
    · rw [blockingChain, ← hcandidates, top]

omit [DecidableEq κ] [LinearOrder ρ] in
theorem length_filter_below (ranked : Ranked key below) {fuel : Nat} {m : κ}
    (enough : pool.length ≤ fuel + 1) (mem : m ∈ pool) : (pool.filter (below m)).length ≤ fuel := by
  have shorter : (pool.filter (below m)).length < pool.length :=
    length_filter_lt_length_iff_exists.mpr ⟨m, mem, ranked.irrefl m⟩
  omega

theorem blockingChain_ne_nil (key : κ → ρ) (below : κ → κ → Bool) {fuel : Nat} {z : κ}
    (enough : pool.length ≤ fuel) (mem : z ∈ pool) : blockingChain key below fuel pool z ≠ [] := by
  cases fuel with
  | zero =>
    have positive := length_pos_of_mem mem
    omega
  | succ fuel =>
    obtain ⟨m, _, _, _, chain⟩ := blockingChain_cons key below fuel mem
    rw [chain]
    exact cons_ne_nil _ _

/-- Ancestors come first. -/
theorem blockingChain_lt (ranked : Ranked key below) : ∀ (fuel : Nat) (pool : List κ) (w z : κ),
    pool.length ≤ fuel → w ∈ pool → z ∈ pool → below w z →
      blockingChain key below fuel pool w < blockingChain key below fuel pool z := by
  intro fuel
  induction fuel with
  | zero =>
    intro pool w z enough hw _ _
    have positive := length_pos_of_mem hw
    omega
  | succ fuel ih =>
    intro pool w z enough hw hz ancestor
    obtain ⟨m, hm, above, greatest, chain⟩ := blockingChain_cons key below fuel hw
    obtain ⟨n, hn, _, greatest', chain'⟩ := blockingChain_cons key below fuel hz
    rw [chain, chain']
    have inherited : m = z ∨ below m z := by
      rcases above with same | proper
      · exact .inr (same ▸ ancestor)
      · exact .inr (ranked.trans _ _ _ proper ancestor)
    rcases lt_or_eq_of_le (greatest' m hm inherited) with less | same
    · exact cons_lt_cons_iff.mpr (.inl less)
    have same := ranked.injective _ _ same
    subst same
    refine cons_lt_cons_iff.mpr (.inr ⟨rfl, ?_⟩)
    have distinct : m ≠ z := by
      rintro rfl
      rcases above with same | proper
      · exact ranked.irrefl w (same ▸ ancestor)
      · exact ranked.irrefl w (ranked.trans _ _ _ ancestor proper)
    have later : z ∈ pool.filter (below m) :=
      mem_filter.mpr ⟨hz, inherited.resolve_left distinct⟩
    have shorter := length_filter_below ranked enough hm
    rw [if_neg distinct]
    by_cases reached : m = w
    · rw [if_pos reached]
      obtain ⟨first, rest, split⟩ := exists_cons_of_ne_nil
        (blockingChain_ne_nil key below shorter later)
      rw [split]
      exact nil_lt_cons first rest
    · rw [if_neg reached]
      have still : w ∈ pool.filter (below m) :=
        mem_filter.mpr ⟨hw, above.resolve_left reached⟩
      exact ih _ w z shorter still later ancestor

/-- A node whose ancestors all come before `z` comes after `z` only with a greater key. -/
theorem key_lt_of_blockingChain_lt (ranked : Ranked key below) :
    ∀ (fuel : Nat) (pool : List κ) (w z : κ), pool.length ≤ fuel → w ∈ pool → z ∈ pool →
      (∀ a ∈ pool, below a w → blockingChain key below fuel pool a < blockingChain key below fuel pool z) →
      blockingChain key below fuel pool z < blockingChain key below fuel pool w → key z < key w := by
  intro fuel
  induction fuel with
  | zero =>
    intro pool w z enough hw _ _ _
    have positive := length_pos_of_mem hw
    omega
  | succ fuel ih =>
    intro pool w z enough hw hz ancestors behind
    obtain ⟨m, hm, above, greatest, chain⟩ := blockingChain_cons key below fuel hw
    obtain ⟨n, hn, above', greatest', chain'⟩ := blockingChain_cons key below fuel hz
    have lower : key z ≤ key n := greatest' z hz (.inl rfl)
    by_cases reached : m = w
    · rw [chain, chain', if_pos reached] at behind
      rcases cons_lt_cons_iff.mp behind with less | ⟨_, impossible⟩
      · exact lower.trans_lt (reached ▸ less)
      · exact absurd impossible (not_lt_nil _)
    · -- the chains of `w` and of all its ancestors below `m` start with `key m`
      have proper : below m w := above.resolve_left reached
      have starts : ∀ a ∈ pool, (a = w ∨ below a w) → (a = m ∨ below m a) →
          blockingChain key below (fuel + 1) pool a =
            key m :: if m = a then [] else blockingChain key below fuel (pool.filter (below m)) a := by
        intro a ha toward from_
        obtain ⟨b, hb, aboveA, greatestA, chainA⟩ := blockingChain_cons key below fuel ha
        have inW : b = w ∨ below b w := by
          rcases aboveA with same | step
          · exact same ▸ toward
          · rcases toward with same | rest
            · exact .inr (same ▸ step)
            · exact .inr (ranked.trans _ _ _ step rest)
        have same : b = m := by
          apply ranked.injective
          refine le_antisymm (greatest b hb inW) (greatestA m hm ?_)
          rcases from_ with same | step
          · exact .inl same.symm
          · exact .inr step
        subst same
        exact chainA
      have first := ancestors m hm proper
      rw [starts m hm (.inr proper) (.inl rfl), if_pos rfl, chain'] at first
      rw [chain, chain', if_neg reached] at behind
      have same : n = m := by
        apply ranked.injective
        rcases cons_lt_cons_iff.mp first with less | ⟨same, _⟩
        · rcases cons_lt_cons_iff.mp behind with less' | ⟨same, _⟩
          · exact absurd less (lt_asymm less')
          · exact same
        · exact same.symm
      subst same
      have distinct : n ≠ z := by
        intro same
        rw [if_pos same] at first
        exact lt_irrefl _ first
      have still : w ∈ pool.filter (below n) := mem_filter.mpr ⟨hw, proper⟩
      have later : z ∈ pool.filter (below n) := mem_filter.mpr ⟨hz, above'.resolve_left distinct⟩
      rw [if_neg distinct] at behind first chain'
      refine ih _ w z (length_filter_below ranked enough hm) still later ?_ ?_
      · intro a ha step
        obtain ⟨inPool, past⟩ := mem_filter.mp ha
        have before := ancestors a inPool step
        have apart : n ≠ a := by
          rintro rfl
          exact ranked.irrefl _ past
        rw [starts a inPool (.inr step) (.inr past), if_neg apart, chain'] at before
        exact (cons_lt_cons_iff.mp before).resolve_left (lt_irrefl _) |>.2
      · exact (cons_lt_cons_iff.mp behind).resolve_left (lt_irrefl _) |>.2

theorem blockingChain_injective (ranked : Ranked key below) : ∀ (fuel : Nat) (pool : List κ) (w z : κ),
    pool.length ≤ fuel → w ∈ pool → z ∈ pool →
      blockingChain key below fuel pool w = blockingChain key below fuel pool z → w = z := by
  intro fuel
  induction fuel with
  | zero =>
    intro pool w z enough hw _ _
    have positive := length_pos_of_mem hw
    omega
  | succ fuel ih =>
    intro pool w z enough hw hz same
    obtain ⟨m, hm, above, _, chain⟩ := blockingChain_cons key below fuel hw
    obtain ⟨n, hn, above', _, chain'⟩ := blockingChain_cons key below fuel hz
    rw [chain, chain', cons.injEq] at same
    obtain ⟨top, rest⟩ := same
    have top := ranked.injective _ _ top
    subst top
    have shorter := length_filter_below ranked enough hm
    by_cases atW : m = w
    · by_cases atZ : m = z
      · exact atW.symm.trans atZ
      · rw [if_pos atW, if_neg atZ] at rest
        exact absurd rest.symm
          (blockingChain_ne_nil key below shorter (mem_filter.mpr ⟨hz, above'.resolve_left atZ⟩))
    · rw [if_neg atW] at rest
      have still : w ∈ pool.filter (below m) := mem_filter.mpr ⟨hw, above.resolve_left atW⟩
      by_cases atZ : m = z
      · rw [if_pos atZ] at rest
        exact absurd rest (blockingChain_ne_nil key below shorter still)
      · rw [if_neg atZ] at rest
        exact ih _ w z shorter still (mem_filter.mpr ⟨hz, above'.resolve_left atZ⟩) rest

/-! ## Greedy orders -/

/-- The nodes listed so that each is the least one whose predecessors are all listed before it. -/
structure Greedy (nodes : List κ) (edge : κ → κ → Prop) (key : κ → ρ) (ordered : List κ) : Prop where
  nodup : ordered.Nodup
  mem : ∀ k, k ∈ ordered ↔ k ∈ nodes
  ready : ∀ front k back, ordered = front ++ k :: back → ∀ p, edge p k → p ∈ front
  least : ∀ front k back, ordered = front ++ k :: back → ∀ w ∈ back, (∀ p, edge p w → p ∈ front) →
    key k ≤ key w

variable {nodes ordered : List κ} {edge : κ → κ → Prop}

omit [DecidableEq κ] in
/-- Every proper ancestor of a listed node is listed before it. -/
theorem Greedy.ancestor_front (h : Greedy nodes edge key ordered) {a : κ}
    (ancestor : Relation.TransGen edge a k) : ∀ front back, ordered = front ++ k :: back → a ∈ front := by
  induction ancestor with
  | single step => exact fun front back split => h.ready front _ back split _ step
  | tail _ step ih =>
    intro front back split
    obtain ⟨front', rest, hfront⟩ := append_of_mem (h.ready front _ back split _ step)
    have earlier := ih front' (rest ++ _ :: back) (by rw [split, hfront, append_assoc]; rfl)
    rw [hfront]
    exact mem_append_left _ earlier

section

variable (h : Greedy nodes edge key ordered) (within : ∀ a b, edge a b → a ∈ nodes ∧ b ∈ nodes)
  (ancestry : ∀ a b, below a b ↔ Relation.TransGen edge a b) (injective : ∀ a b, key a = key b → a = b)
include h within

omit [DecidableEq κ] in
/-- Only an acyclic graph has a greedy order. -/
theorem Greedy.acyclic (a : κ) : ¬ Relation.TransGen edge a a := by
  intro path
  have listed : a ∈ ordered := by
    rw [h.mem]
    obtain ⟨b, step, _⟩ := Relation.TransGen.head'_iff.mp path
    exact (within a b step).1
  obtain ⟨front, back, split⟩ := append_of_mem listed
  have earlier := h.ancestor_front path front back split
  have nodup := h.nodup
  rw [split, nodup_append] at nodup
  exact nodup.2.2 a earlier a (by simp) rfl

include ancestry injective

omit [DecidableEq κ] in
theorem Greedy.ranked : Ranked key below where
  irrefl := fun a cyclic => h.acyclic within a ((ancestry a a).mp cyclic)
  trans := fun a b c ab bc => (ancestry a c).mpr (((ancestry a b).mp ab).trans ((ancestry b c).mp bc))
  injective := injective

/-- A greedy order lists its nodes by their blocking chains. -/
theorem Greedy.sorted : ∀ front k back, ordered = front ++ k :: back → ∀ y ∈ back,
      blockingChain key below nodes.length nodes k < blockingChain key below nodes.length nodes y := by
  have ranked := h.ranked within ancestry injective
  have listed : ∀ front k back, ordered = front ++ k :: back → k ∈ nodes := fun front k back split => by
    rw [← h.mem, split]
    simp
  -- strong induction on the position: everything listed earlier is already sorted
  suffices general : ∀ n front k back, front.length = n → ordered = front ++ k :: back → ∀ y ∈ back,
      blockingChain key below nodes.length nodes k < blockingChain key below nodes.length nodes y from
    fun front k back => general front.length front k back rfl
  intro n
  induction n using Nat.strong_induction_on with
  | _ n ih =>
    intro front k back hn split y hy
    by_contra notBefore
    -- among the nodes still to come take one of least chain
    obtain ⟨chain, hchain⟩ : ∃ chain, chain = blockingChain key below nodes.length nodes := ⟨_, rfl⟩
    have kMem : k ∈ nodes := listed front k back split
    have backMem : ∀ v ∈ back, v ∈ nodes := fun v hv => by
      rw [← h.mem, split]
      simp [hv]
    obtain ⟨v, hv, least⟩ : ∃ v ∈ back, ∀ u ∈ back, chain v ≤ chain u := by
      obtain ⟨v, hv, least⟩ := back.toFinset.exists_min_image chain ⟨y, mem_toFinset.mpr hy⟩
      exact ⟨v, mem_toFinset.mp hv, fun u hu => least u (mem_toFinset.mpr hu)⟩
    have nodup := h.nodup
    rw [split, nodup_append, nodup_cons] at nodup
    have distinct : v ≠ k := by
      rintro rfl
      exact nodup.2.1.1 hv
    have behind : chain v < chain k := by
      have small : chain v ≤ chain y := least y hy
      have ordered' : chain y ≤ chain k := by
        rw [hchain]
        exact not_lt.mp notBefore
      refine lt_of_le_of_ne (small.trans ordered') fun same => distinct ?_
      rw [hchain] at same
      exact blockingChain_injective ranked _ nodes v k le_rfl (backMem v hv) kMem same
    have earlier : ∀ a ∈ front, chain a < chain v := by
      intro a ha
      obtain ⟨front', rest, hfront⟩ := append_of_mem ha
      rw [hchain]
      refine ih front'.length ?_ front' a (rest ++ k :: back) rfl ?_ v (by simp [hv])
      · rw [← hn, hfront]
        simp
      · rw [split, hfront, append_assoc]
        rfl
    -- all ancestors of `v` are listed, so `v` was available when `k` was taken
    have available : ∀ p, edge p v → p ∈ front := by
      intro p step
      have pMem : p ∈ ordered := (h.mem p).mpr (within p v step).1
      have smaller : chain p < chain v := by
        rw [hchain]
        exact blockingChain_lt ranked _ nodes p v le_rfl (within p v step).1 (backMem v hv)
          ((ancestry p v).mpr (.single step))
      rw [split] at pMem
      rcases mem_append.mp pMem with inFront | inBack
      · exact inFront
      · rcases mem_cons.mp inBack with same | later
        · exact absurd (same ▸ smaller) (lt_asymm behind)
        · exact absurd (least p later) (not_le.mpr smaller)
    have taken : key k ≤ key v := h.least front k back split v hv available
    have greater : key v < key k := by
      rw [hchain] at behind earlier
      refine key_lt_of_blockingChain_lt ranked _ nodes k v le_rfl kMem (backMem v hv) ?_ behind
      intro a _ ancestor
      exact earlier a (h.ancestor_front ((ancestry a k).mp ancestor) front back split)
    exact absurd taken (not_le.mpr greater)

/-- `x` is listed before `y`. -/
def Precedes (ordered : List κ) (x y : κ) : Prop := ∃ front back, ordered = front ++ x :: back ∧ y ∈ back

theorem Greedy.precedes_iff {x y : κ} (hx : x ∈ nodes) (hy : y ∈ nodes) : Precedes ordered x y ↔
      blockingChain key below nodes.length nodes x < blockingChain key below nodes.length nodes y := by
  have sorted := h.sorted within ancestry injective
  constructor
  · rintro ⟨front, back, split, later⟩
    exact sorted front x back split y later
  · intro less
    obtain ⟨front, back, split⟩ := append_of_mem ((h.mem x).mpr hx)
    have listed := (h.mem y).mpr hy
    rw [split] at listed
    rcases mem_append.mp listed with before | rest
    · obtain ⟨front', rest, hfront⟩ := append_of_mem before
      have greater := sorted front' y (rest ++ x :: back)
        (by rw [split, hfront, append_assoc]; rfl) x (by simp)
      exact absurd less (lt_asymm greater)
    · rcases mem_cons.mp rest with same | later
      · subst same
        exact absurd less (lt_irrefl _)
      · exact ⟨front, back, split, later⟩

end

end Topological

/-! ## The counting algorithm -/

namespace Topological

open Ordered

variable {κ ρ : Type} [LinearOrder κ] [LinearOrder ρ]

inductive KahnError where
  | missing
  | cycle
deriving DecidableEq

/-- One child against the node just listed: its count of open predecessors falls by one, and a child
without any becomes available. -/
def relaxChild (parents : κ → List κ) (key : κ → ρ) (k : κ) (state : OrdMap κ Nat × OrdSet ρ) (child : κ) :
    Except KahnError (OrdMap κ Nat × OrdSet ρ) :=
  if k ∈ parents child then
    match state.1.get? child with
    | none => .error .missing
    | some 0 => .error .cycle
    | some (n + 1) => .ok (state.1.insert child n, if n = 0 then state.2.insert (key child) else state.2)
  else .ok state

/-- Takes the least available node until none is left; every round lists a new node, so as many
rounds as nodes are enough. -/
def kahn (nodes : List κ) (parents : κ → List κ) (key : κ → ρ) (node : ρ → κ) :
    Nat → OrdMap κ Nat × OrdSet ρ → List κ → Except KahnError (List κ)
  | 0, _, ordered => .ok ordered
  | fuel + 1, state, ordered =>
    match state.2.popFirst? with
    | none => .ok ordered
    | some (r, ready) => do
      let next ← nodes.foldlM (relaxChild parents key (node r)) (state.1, ready)
      kahn nodes parents key node fuel next (ordered ++ [node r])

variable (nodes : List κ)

/-- The counts and the available nodes before anything is listed. -/
def kahnStart (count : κ → Nat) (key : κ → ρ) : OrdMap κ Nat × OrdSet ρ :=
  (nodes.foldl (fun unresolved c => unresolved.insert c (count c)) ∅,
    OrdSet.ofList ((nodes.filter fun c => decide (count c = 0)).map key))

/-- The open predecessors of `c`: those among the nodes that are not listed. -/
def openParents (parents : κ → List κ) (ordered : List κ) (c : κ) : List κ :=
  (parents c).filter fun p => decide (p ∈ nodes) && !decide (p ∈ ordered)

/-- `c` is not listed and all its predecessors are. -/
def Available (parents : κ → List κ) (ordered : List κ) (c : κ) : Prop :=
  c ∈ nodes ∧ c ∉ ordered ∧ ∀ p ∈ parents c, p ∈ nodes → p ∈ ordered

/-- The counts and the available nodes belong to the nodes listed so far. -/
structure KahnInv (nodes : List κ) (parents : κ → List κ) (key : κ → ρ)
    (state : OrdMap κ Nat × OrdSet ρ) (ordered : List κ) : Prop where
  nodup : ordered.Nodup
  subset : ∀ k ∈ ordered, k ∈ nodes
  counts : ∀ c ∈ nodes, state.1.get? c = some (openParents nodes parents ordered c).length
  ready : ∀ r, r ∈ state.2 ↔ ∃ c, Available nodes parents ordered c ∧ r = key c
  taken : ∀ front k back, ordered = front ++ k :: back → Available nodes parents front k ∧
    ∀ w, Available nodes parents front w → key k ≤ key w

variable {nodes : List κ} {parents : κ → List κ} {key : κ → ρ}

theorem relaxChild_ok {child : κ} {state next : OrdMap κ Nat × OrdSet ρ}
    (h : relaxChild parents key k state child = .ok next) :
    (k ∉ parents child ∧ next = state) ∨ (k ∈ parents child ∧ ∃ n, state.1.get? child = some (n + 1) ∧
      next = (state.1.insert child n, if n = 0 then state.2.insert (key child) else state.2)) := by
  unfold relaxChild at h
  split at h
  · rename_i mem
    split at h
    · cases h
    · cases h
    · rename_i n count
      exact .inr ⟨mem, n, count, (Except.ok.inj h).symm⟩
  · rename_i absent
    exact .inl ⟨absent, (Except.ok.inj h).symm⟩

theorem foldlM_relaxChild : ∀ (children : List κ) (state next : OrdMap κ Nat × OrdSet ρ),
    children.Nodup → children.foldlM (relaxChild parents key k) state = .ok next →
    (∀ c, c ∈ children → k ∈ parents c → ∃ n, state.1.get? c = some (n + 1) ∧ next.1.get? c = some n) ∧
    (∀ c, (c ∉ children ∨ k ∉ parents c) → next.1.get? c = state.1.get? c) ∧
    ∀ r, r ∈ next.2 ↔ r ∈ state.2 ∨ ∃ c ∈ children, k ∈ parents c ∧ state.1.get? c = some 1 ∧ r = key c := by
  intro children
  induction children with
  | nil =>
    intro state next _ h
    cases h
    exact ⟨nofun, fun _ _ => rfl, by simp⟩
  | cons child rest ih =>
    intro state next nodup h
    obtain ⟨fresh, nodup⟩ := nodup_cons.mp nodup
    rw [foldlM_cons] at h
    obtain ⟨middle, first, h⟩ := bind_eq_ok.mp h
    obtain ⟨falls, keeps, ready⟩ := ih middle next nodup h
    have outside : ∀ c, (c ∉ child :: rest ∨ k ∉ parents c) → c ∉ rest ∨ k ∉ parents c :=
      fun c => Or.imp_left fun notMem hc => notMem (mem_cons_of_mem _ hc)
    rcases relaxChild_ok first with ⟨absent, same⟩ | ⟨mem, n, count, step⟩
    · subst same
      refine ⟨?_, fun c out => keeps c (outside c out), fun r => ?_⟩
      · exact forall_mem_cons.mpr ⟨fun parent => absurd parent absent, falls⟩
      · rw [ready, exists_mem_cons_iff]
        exact or_congr_right (or_iff_right (absent ·.1)).symm
    · subst step
      have other : ∀ c, c ≠ child → (state.1.insert child n).get? c = state.1.get? c :=
        fun c hc => OrdMap.get?_insert_ne _ _ hc
      have unequal : ∀ c ∈ rest, c ≠ child := fun c hc same => fresh (same ▸ hc)
      refine ⟨forall_mem_cons.mpr ⟨fun _ => ⟨n, count, ?_⟩, fun c hc parent => ?_⟩,
        fun c out => ?_, fun r => ?_⟩
      · rw [keeps child (.inl fresh), OrdMap.get?_insert, if_pos rfl]
      · obtain ⟨m, before, after⟩ := falls c hc parent
        exact ⟨m, by rw [← other c (unequal c hc)]; exact before, after⟩
      · rw [keeps c (outside c out), other]
        rintro rfl
        exact out.elim (· mem_cons_self) (· mem)
      · have head : r ∈ (if n = 0 then state.2.insert (key child) else state.2) ↔
            r ∈ state.2 ∨ (state.1.get? child = some 1 ∧ r = key child) := by
          rw [count]
          by_cases zero : n = 0
          · rw [if_pos zero, OrdSet.mem_insert]
            simp [zero, or_comm]
          · rw [if_neg zero]
            simp [zero]
        have later : ∀ c ∈ rest, (state.1.insert child n).get? c = state.1.get? c :=
          fun c hc => other c (unequal c hc)
        rw [ready, head, exists_mem_cons_iff, or_assoc]
        refine or_congr_right (or_congr (by simp [mem]) (exists_congr fun c => ?_))
        exact and_congr_right fun hc => by rw [later c hc]

theorem mem_openParents {p : κ} :
    p ∈ openParents nodes parents ordered c ↔ p ∈ parents c ∧ p ∈ nodes ∧ p ∉ ordered := by
  simp [openParents]

theorem openParents_nil_iff :
    openParents nodes parents ordered c = [] ↔ ∀ p ∈ parents c, p ∈ nodes → p ∈ ordered := by
  rw [eq_nil_iff_forall_not_mem]
  simp only [mem_openParents]
  constructor
  · intro none_ p hp hn
    by_contra unlisted
    exact none_ p ⟨hp, hn, unlisted⟩
  · rintro all p ⟨hp, hn, unlisted⟩
    exact unlisted (all p hp hn)

theorem openParents_snoc (k c : κ) : openParents nodes parents (ordered ++ [k]) c =
      (openParents nodes parents ordered c).filter fun p => decide (p ≠ k) := by
  unfold openParents
  rw [filter_filter]
  apply filter_congr
  intro p _
  by_cases same : p = k <;> by_cases listed : p ∈ ordered <;> simp [same, listed]

theorem length_openParents_snoc (nodup : (parents c).Nodup)
    (open_ : k ∈ openParents nodes parents ordered c) : (openParents nodes parents ordered c).length =
      (openParents nodes parents (ordered ++ [k]) c).length + 1 := by
  have distinct : (openParents nodes parents ordered c).Nodup := nodup.filter _
  rw [openParents_snoc, ← length_erase_add_one open_]
  congr 2
  rw [distinct.erase_eq_filter]
  apply filter_congr
  intro p _
  by_cases same : p = k <;> simp [same]

variable {node : ρ → κ} {state next : OrdMap κ Nat × OrdSet ρ} {ordered : List κ} {ready : OrdSet ρ} {r : ρ}

theorem KahnInv.parent_listed (h : KahnInv nodes parents key state ordered) {p : κ}
    (listed : c ∈ ordered) (parent : p ∈ parents c) (hp : p ∈ nodes) : p ∈ ordered := by
  obtain ⟨front, back, split⟩ := append_of_mem listed
  have before := (h.taken front c back split).1.2.2 p parent hp
  rw [split]
  exact mem_append_left _ before

/-- Listing the least available node keeps the invariant. -/
theorem KahnInv.list (h : KahnInv nodes parents key state ordered)
    (distinct : ∀ c ∈ nodes, (parents c).Nodup) (injective : ∀ a b, key a = key b → a = b)
    (available : Available nodes parents ordered k)
    (least : ∀ w, Available nodes parents ordered w → key k ≤ key w)
    (popped : ∀ s, s ∈ ready ↔ s ∈ state.2 ∧ s ≠ key k) (nodesNodup : nodes.Nodup)
    (relaxed : nodes.foldlM (relaxChild parents key k) (state.1, ready) = .ok next) :
    KahnInv nodes parents key next (ordered ++ [k]) := by
  obtain ⟨falls, keeps, fresh⟩ := foldlM_relaxChild nodes (state.1, ready) next nodesNodup relaxed
  have opened : ∀ c ∈ nodes, k ∈ parents c → _ := fun c hc parent =>
    length_openParents_snoc (distinct c hc) (mem_openParents.mpr ⟨parent, available.1, available.2.1⟩)
  refine ⟨by simpa using h.nodup.concat available.2.1,
    forall_mem_append.mpr ⟨h.subset, forall_mem_singleton.mpr available.1⟩, ?_, ?_, ?_⟩
  · intro c hc
    by_cases parent : k ∈ parents c
    · obtain ⟨n, before, after⟩ := falls c hc parent
      rw [h.counts c hc, opened c hc parent, Option.some.injEq] at before
      rw [after, Nat.succ.inj before]
    · rw [keeps c (.inr parent), h.counts c hc, openParents_snoc, filter_eq_self.mpr]
      intro p hp
      have := (mem_openParents.mp hp).1
      simp only [ne_eq, decide_eq_true_eq]
      rintro rfl
      exact parent this
  · intro s
    rw [fresh, popped, h.ready]
    constructor
    · rintro (⟨⟨c, ⟨hc, unlisted, listedParents⟩, rfl⟩, apart⟩ | ⟨c, hc, parent, one, rfl⟩)
      · refine ⟨c, ⟨hc, ?_, fun p hp hn => mem_append_left _ (listedParents p hp hn)⟩, rfl⟩
        intro mem
        rcases mem_snoc.mp mem with old | rfl
        · exact unlisted old
        · exact apart rfl
      · rw [h.counts c hc, opened c hc parent, Option.some.injEq] at one
        have closed : openParents nodes parents (ordered ++ [k]) c = [] :=
          length_eq_zero_iff.mp (Nat.succ.inj one)
        refine ⟨c, ⟨hc, ?_, openParents_nil_iff.mp closed⟩, rfl⟩
        intro mem
        rcases mem_snoc.mp mem with old | rfl
        · exact available.2.1 (h.parent_listed old parent available.1)
        · exact available.2.1 (available.2.2 _ parent available.1)
    · rintro ⟨c, ⟨hc, unlisted, listedParents⟩, rfl⟩
      have apart : c ≠ k := by
        rintro rfl
        exact unlisted (by simp)
      have notOld : c ∉ ordered := fun old => unlisted (mem_append_left _ old)
      by_cases parent : k ∈ parents c
      · refine .inr ⟨c, hc, parent, ?_, rfl⟩
        rw [h.counts c hc, opened c hc parent, openParents_nil_iff.mpr listedParents]
        rfl
      · left
        refine ⟨⟨c, ⟨hc, notOld, ?_⟩, rfl⟩, fun same => apart (injective _ _ same)⟩
        intro p hp hn
        rcases mem_snoc.mp (listedParents p hp hn) with old | rfl
        · exact old
        · exact absurd hp parent
  · intro front c back split
    rcases eq_nil_or_concat back with empty | ⟨back', last, hback⟩
    · subst empty
      obtain ⟨same, last⟩ := append_inj' split rfl
      cases singleton_inj.mp last
      subst same
      exact ⟨available, least⟩
    · rw [hback, concat_eq_append, ← cons_append, ← append_assoc] at split
      obtain ⟨same, _⟩ := append_inj' split rfl
      exact h.taken front c back' same

theorem kahnInv_start {count : κ → Nat}
    (counts : ∀ c ∈ nodes, count c = (openParents nodes parents [] c).length) :
    KahnInv nodes parents key (kahnStart nodes count key) [] where
  nodup := nodup_nil
  subset := nofun
  counts := by
    intro c hc
    rw [kahnStart, OrdMap.get?_foldl_insert, if_pos hc, counts c hc]
  ready := by
    intro s
    have zero : ∀ c ∈ nodes, count c = 0 ↔ ∀ p ∈ parents c, p ∈ nodes → p ∈ ([] : List κ) := fun c hc => by
      rw [counts c hc, length_eq_zero_iff, openParents_nil_iff]
    simp only [kahnStart, OrdSet.mem_ofList, mem_map, mem_filter, decide_eq_true_eq]
    refine exists_congr fun c => and_congr (and_congr_right fun hc => ?_) eq_comm
    exact (zero c hc).trans (and_iff_right not_mem_nil).symm
  taken := by
    intro front k back split
    cases front <;> cases split

/-- A complete result of the counting algorithm is greedy. -/
theorem kahn_greedy (distinct : ∀ c ∈ nodes, (parents c).Nodup) (injective : ∀ a b, key a = key b → a = b)
    (named : ∀ c, node (key c) = c) (nodesNodup : nodes.Nodup) : ∀ (fuel : Nat)
    (state : OrdMap κ Nat × OrdSet ρ) (ordered result : List κ), KahnInv nodes parents key state ordered →
    kahn nodes parents key node fuel state ordered = .ok result → result.length = nodes.length →
      Greedy nodes (fun p c => p ∈ nodes ∧ c ∈ nodes ∧ p ∈ parents c) key result := by
  intro fuel
  -- the loop ends in a state with the invariant
  have finished : ∀ (state : OrdMap κ Nat × OrdSet ρ) (result : List κ),
      KahnInv nodes parents key state result → result.length = nodes.length →
        Greedy nodes (fun p c => p ∈ nodes ∧ c ∈ nodes ∧ p ∈ parents c) key result := by
    intro state result h complete
    have all : ∀ k ∈ nodes, k ∈ result := by
      have sub : result.Subperm nodes := subperm_of_subset h.nodup h.subset
      have perm : result.Perm nodes := sub.perm_of_length_le complete.ge
      exact fun k hk => perm.mem_iff.mpr hk
    refine ⟨h.nodup, fun k => ⟨h.subset k, all k⟩, ?_, ?_⟩
    · rintro front k back split p ⟨hp, _, parent⟩
      exact (h.taken front k back split).1.2.2 p parent hp
    · intro front k back split w hw predecessors
      have hwNodes : w ∈ nodes := h.subset w (by rw [split]; simp [hw])
      refine (h.taken front k back split).2 w ⟨hwNodes, ?_, fun p hp hn => predecessors p ⟨hn, hwNodes, hp⟩⟩
      have nodup := h.nodup
      rw [split, nodup_append] at nodup
      intro inFront
      exact nodup.2.2 w inFront w (mem_cons_of_mem _ hw) rfl
  induction fuel with
  | zero =>
    intro state ordered result h computed complete
    cases computed
    exact finished state _ h complete
  | succ fuel ih =>
    intro state ordered result h computed complete
    rw [kahn] at computed
    split at computed
    · cases computed
      exact finished state _ h complete
    · rename_i r ready pop
      obtain ⟨next, relaxed, computed⟩ := bind_eq_ok.mp computed
      obtain ⟨present, others, smallest⟩ := OrdSet.popFirst?_some pop
      obtain ⟨k, available, rfl⟩ := (h.ready _).mp present
      rw [named] at relaxed computed
      refine ih next (ordered ++ [k]) result ?_ computed complete
      exact h.list distinct injective available
        (fun w hw => smallest _ ((h.ready _).mpr ⟨w, hw, rfl⟩)) others nodesNodup relaxed

end Topological

end MeshSpan
