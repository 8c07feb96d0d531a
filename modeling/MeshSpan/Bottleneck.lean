import Mathlib

/- Widest chains: the best that can reach a node when every edge has a capacity.

   A chain of edges carries the smallest capacity on it, and a node is worth the
   best of the chains that reach it. The search keeps one label per node and a
   queue of nodes whose label has risen; it gives up when it has labelled more
   than a given number of nodes.

   PROVED
     Reach               what a chain of edges carries
     widest_sound        every label is carried by a chain
     widest_complete     no chain carries more than the label of its end
     widest_isSome       the search gives up exactly on more nodes than the limit
     mem_groupMax        the best value of each key is one of its values …
     le_groupMax         … and none of its values is better
     length_groupMax     one row for each key -/

namespace MeshSpan.Bottleneck

open List

structure Edge (α β : Type) where
  (source target : α)
  capacity : β

section Labels

variable {α β : Type} [DecidableEq α]

/-! ## Labels -/

/-- The best value known for a node. -/
def label : List (α × β) → α → Option β
  | [], _ => none
  | row :: rest, node => if row.1 = node then some row.2 else label rest node

/-- `insert` into a map: the row of the node is replaced, or appended. -/
def insert : List (α × β) → α → β → List (α × β)
  | [], node, value => [(node, value)]
  | row :: rest, node, value =>
    if row.1 = node then (node, value) :: rest else row :: insert rest node value

theorem label_insert (labels : List (α × β)) (node : α) (value : β) (other : α) :
    label (insert labels node value) other =
      if node = other then some value else label labels other := by
  induction labels with
  | nil => rfl
  | cons row rest ih =>
    unfold insert
    by_cases same : row.1 = node
    · rw [if_pos same]
      simp only [label, same]
      split <;> rfl
    · rw [if_neg same]
      simp only [label, ih]
      by_cases here : row.1 = other
      · have apart : node ≠ other := fun h => same (here.trans h.symm)
        simp [here, apart]
      · simp [here]

variable {labels rows : List (α × β)} {edge : Edge α β} {state : List (α × β) × List α}
  {queue : List α} {limit : Nat}

theorem label_eq_none {node : α} : label labels node = none ↔ node ∉ labels.map Prod.fst := by
  induction labels with
  | nil => simp [label]
  | cons row rest ih =>
    by_cases same : row.1 = node
    · simp [label, same]
    · have apart : node ≠ row.1 := Ne.symm same
      simp [label, same, ih, apart]

theorem keys_insert (labels : List (α × β)) (node : α) (value : β) :
    (insert labels node value).map Prod.fst =
      if node ∈ labels.map Prod.fst then labels.map Prod.fst else labels.map Prod.fst ++ [node] := by
  induction labels with
  | nil => rfl
  | cons row rest ih =>
    unfold insert
    by_cases same : row.1 = node
    · simp [same]
    rw [if_neg same, map_cons, ih]
    by_cases mem : node ∈ rest.map Prod.fst
    · simp [mem]
    · simp [mem, Ne.symm same]

theorem nodup_insert (nodup : (labels.map Prod.fst).Nodup) (node : α) (value : β) :
    ((insert labels node value).map Prod.fst).Nodup := by
  rw [keys_insert]
  split
  · exact nodup
  rename_i fresh
  exact nodup_append.mpr ⟨nodup, nodup_singleton _, by
    intro a mem b isNode same
    exact fresh (mem_singleton.mp isNode ▸ same ▸ mem)⟩

end Labels

variable {α β : Type} [LinearOrder β]

section Chains

variable [OrderTop β]

/-- A chain of edges from the start reaches the node and carries the value. -/
inductive Reach (edges : List (Edge α β)) (start : α) : α → β → Prop
  | start : Reach edges start start ⊤
  | step {value : β} {edge : Edge α β} (before : Reach edges start edge.source value)
    (mem : edge ∈ edges) : Reach edges start edge.target (min value edge.capacity)

theorem Reach.mem_values {edges : List (Edge α β)} {start node : α} {value : β}
    (h : Reach edges start node value) : value ∈ ⊤ :: edges.map Edge.capacity := by
  induction h with
  | start => exact mem_cons_self
  | @step value edge _ mem ih =>
    rcases min_choice value edge.capacity with same | same
    · rw [same]
      exact ih
    · rw [same]
      exact mem_cons_of_mem _ (mem_map_of_mem mem)

end Chains

variable [DecidableEq α]

/-! ## The search -/

/-- A candidate replaces no label, or a smaller one. -/
def improves : Option β → β → Bool
  | none, _ => true
  | some old, new => old < new

variable (value : β)

/-- One edge out of a node that is worth `value`. -/
def relax (state : List (α × β) × List α) (edge : Edge α β) : List (α × β) × List α :=
  if improves (label state.1 edge.target) (min value edge.capacity) then
    (insert state.1 edge.target (min value edge.capacity), state.2 ++ [edge.target])
  else state

def visit [OrderTop β] (edges : List (Edge α β)) (labels : List (α × β)) (queue : List α) (node : α) :
    List (α × β) × List α :=
  (edges.filter fun edge => edge.source = node).foldl (relax ((label labels node).getD ⊤))
    (labels, queue)

/-- Visit queued nodes until none is left; `none` when more than `limit` nodes are labelled. -/
def search [OrderTop β] (edges : List (Edge α β)) (limit : Nat) :
    Nat → List (α × β) → List α → Option (List (α × β))
  | _, labels, [] => some labels
  | 0, _, _ :: _ => none
  | fuel + 1, labels, node :: queue =>
    if limit < (visit edges labels queue node).1.length then none
    else search edges limit fuel (visit edges labels queue node).1 (visit edges labels queue node).2

/-- The labels of every node that the start reaches. Each edge can raise its target's label once
for each value a chain can carry, so the search ends within the given number of visits. -/
def widest [OrderTop β] (edges : List (Edge α β)) (limit : Nat) (start : α) : Option (List (α × β)) :=
  search edges limit (edges.length * (edges.length + 1) + 1) [(start, ⊤)] [start]

/-! ## The best value of each key -/

/-- `MAX(value) … GROUP BY key`: one row per key, with the best of its values. -/
def groupMax (rows : List (α × β)) : List (α × β) :=
  rows.foldl (fun best row =>
    if improves (label best row.1) row.2 then insert best row.1 row.2 else best) []

/-- What the fold over some rows has: the best values of exactly these rows. -/
structure Summarises (rows best : List (α × β)) : Prop where
  nodup : (best.map Prod.fst).Nodup
  keys : ∀ key, key ∈ best.map Prod.fst ↔ key ∈ rows.map Prod.fst
  mem : ∀ {key value}, label best key = some value → (key, value) ∈ rows
  le : ∀ {key value}, (key, value) ∈ rows → ∃ worth, label best key = some worth ∧ value ≤ worth

theorem Summarises.add {best : List (α × β)} (h : Summarises rows best) (row : α × β) :
    Summarises (rows ++ [row])
      (if improves (label best row.1) row.2 then insert best row.1 row.2 else best) := by
  have onlyRow : ∀ {key value}, (key, value) ∈ rows ++ [row] →
      (key, value) ∈ rows ∨ (key, value) = row := by
    intro key value mem
    rcases mem_append.mp mem with old | new
    · exact .inl old
    · exact .inr (mem_singleton.mp new)
  split
  · rename_i better
    refine ⟨nodup_insert h.nodup _ _, ?_, ?_, ?_⟩
    · intro key
      rw [keys_insert]
      split
      · rename_i known
        rw [h.keys key, map_append, mem_append]
        refine ⟨.inl, ?_⟩
        rintro (old | new)
        · exact old
        · exact (mem_singleton.mp new) ▸ (h.keys row.1).mp known
      · simp [h.keys key]
    · intro key value isValue
      rw [label_insert] at isValue
      split at isValue
      · rename_i here
        cases isValue
        exact mem_append_right _ (mem_singleton.mpr (by rw [← here]))
      · exact mem_append_left _ (h.mem isValue)
    · intro key value mem
      rw [label_insert]
      rcases onlyRow mem with old | rfl
      · obtain ⟨worth, isWorth, le⟩ := h.le old
        split
        · rename_i here
          rw [here, isWorth] at better
          exact ⟨row.2, rfl, le.trans (of_decide_eq_true better).le⟩
        · exact ⟨worth, isWorth, le⟩
      · exact ⟨value, if_pos rfl, le_rfl⟩
  · rename_i worse
    obtain ⟨worth, isWorth, above⟩ : ∃ worth, label best row.1 = some worth ∧ row.2 ≤ worth := by
      cases isLabel : label best row.1 with
      | none =>
        rw [isLabel] at worse
        exact absurd rfl worse
      | some old =>
        rw [isLabel] at worse
        exact ⟨old, rfl, not_lt.mp fun lt => worse (decide_eq_true lt)⟩
    refine ⟨h.nodup, ?_, fun isValue => mem_append_left _ (h.mem isValue), ?_⟩
    · intro key
      rw [h.keys key, map_append, mem_append]
      refine ⟨.inl, ?_⟩
      rintro (old | new)
      · exact old
      · rw [mem_singleton.mp new]
        exact mem_map.mpr ⟨_, h.mem isWorth, rfl⟩
    · intro key value mem
      rcases onlyRow mem with old | rfl
      · exact h.le old
      · exact ⟨worth, isWorth, above⟩

theorem summarises_groupMax (rows : List (α × β)) : Summarises rows (groupMax rows) := by
  have fold : ∀ (rest done best : List (α × β)), Summarises done best →
      Summarises (done ++ rest) (rest.foldl (fun best row =>
        if improves (label best row.1) row.2 then insert best row.1 row.2 else best) best) := by
    intro rest
    induction rest with
    | nil =>
      intro done best h
      rwa [append_nil]
    | cons row rest ih =>
      intro done best h
      have next := ih (done ++ [row]) _ (h.add row)
      rwa [append_assoc] at next
  exact fold rows [] [] ⟨nodup_nil, fun _ => Iff.rfl, nofun, nofun⟩

theorem mem_groupMax {key : α} {value : β} (h : label (groupMax rows) key = some value) :
    (key, value) ∈ rows :=
  (summarises_groupMax rows).mem h

theorem le_groupMax {key : α} {value : β} (mem : (key, value) ∈ rows) :
    ∃ worth, label (groupMax rows) key = some worth ∧ value ≤ worth :=
  (summarises_groupMax rows).le mem

theorem length_groupMax (rows : List (α × β)) :
    (groupMax rows).length = (rows.map Prod.fst).dedup.length := by
  have summarises := summarises_groupMax rows
  have perm : List.Perm ((groupMax rows).map Prod.fst) (rows.map Prod.fst).dedup := by
    refine (perm_ext_iff_of_nodup summarises.nodup (nodup_dedup _)).mpr fun key => ?_
    rw [mem_dedup]
    exact summarises.keys key
  have same := perm.length_eq
  rwa [length_map] at same

/-! ## What relaxing changes -/

/-- Labels only rise, and a node whose label rose or is new is queued. -/
structure Grows (before after : List (α × β) × List α) : Prop where
  kept : ∀ {node value}, label before.1 node = some value → label after.1 node = some value ∨
    (node ∈ after.2 ∧ ∃ more, label after.1 node = some more ∧ value < more)
  new : ∀ {node value}, label before.1 node = none → label after.1 node = some value →
    node ∈ after.2
  queue : ∀ {node}, node ∈ before.2 → node ∈ after.2

theorem Grows.refl (state : List (α × β) × List α) : Grows state state where
  kept h := .inl h
  new absent present := absurd (absent.symm.trans present) nofun
  queue h := h

theorem Grows.trans {a b c : List (α × β) × List α} (ab : Grows a b) (bc : Grows b c) : Grows a c where
  kept h := by
    rcases ab.kept h with same | ⟨queued, more, isMore, lt⟩
    · exact bc.kept same
    · rcases bc.kept isMore with same | ⟨queued', most, isMost, lt'⟩
      · exact .inr ⟨bc.queue queued, more, same, lt⟩
      · exact .inr ⟨queued', most, isMost, lt.trans lt'⟩
  new := by
    intro node value absent present
    cases mid : label b.1 node with
    | none => exact bc.new mid present
    | some value' => exact bc.queue (ab.new absent mid)
  queue h := bc.queue (ab.queue h)

variable {after before : List (α × β) × List α} {old : Option β}

theorem Grows.le (grows : Grows before after) {node : α} {value : β}
    (h : label before.1 node = some value) :
    ∃ later, label after.1 node = some later ∧ value ≤ later := by
  rcases grows.kept h with same | ⟨-, more, isMore, lt⟩
  · exact ⟨value, same, le_rfl⟩
  · exact ⟨more, isMore, lt.le⟩

theorem relax_grows (state : List (α × β) × List α) (edge : Edge α β) :
    Grows state (relax value state edge) := by
  unfold relax
  split
  · rename_i better
    refine ⟨?_, ?_, fun h => mem_append_left _ h⟩
    · intro node old isOld
      by_cases here : edge.target = node
      · subst here
        rw [isOld] at better
        refine .inr ⟨mem_append_right _ (mem_singleton.mpr rfl), _, ?_,
          of_decide_eq_true better⟩
        simp [label_insert]
      · left
        simp [label_insert, here, isOld]
    · intro node new absent present
      by_cases here : edge.target = node
      · exact here ▸ mem_append_right _ (mem_singleton.mpr rfl)
      · rw [label_insert, if_neg here, absent] at present
        cases present
  · exact Grows.refl state

theorem relax_covers (state : List (α × β) × List α) (edge : Edge α β) :
    ∃ worth, label (relax value state edge).1 edge.target = some worth ∧
      min value edge.capacity ≤ worth := by
  unfold relax
  split
  · exact ⟨_, by simp [label_insert], le_rfl⟩
  rename_i worse
  cases isLabel : label state.1 edge.target with
  | none =>
    rw [isLabel] at worse
    exact absurd rfl worse
  | some old =>
    rw [isLabel] at worse
    exact ⟨old, rfl, not_lt.mp fun lt => worse (decide_eq_true lt)⟩

theorem relax_self {value : β} {node : α} (h : label state.1 node = some value) :
    label (relax value state edge).1 node = some value := by
  unfold relax
  split
  · rename_i better
    by_cases here : edge.target = node
    · rw [here, h] at better
      exact absurd (of_decide_eq_true better) (not_lt.mpr (min_le_left _ _))
    · simp [label_insert, here, h]
  · exact h

/-- The edge's target is worth what the edge brings from a node worth `value`. -/
def Covers (labels : List (α × β)) (value : β) (edge : Edge α β) : Prop :=
  ∃ worth, label labels edge.target = some worth ∧ min value edge.capacity ≤ worth

theorem Covers.mono (grows : Grows before after) {value : β} (h : Covers before.1 value edge) :
    Covers after.1 value edge := by
  obtain ⟨worth, isWorth, le⟩ := h
  obtain ⟨later, isLater, le'⟩ := grows.le isWorth
  exact ⟨later, isLater, le.trans le'⟩

variable {new : β}

omit [DecidableEq α] in
theorem improves_trans {mid : β} (first : improves old mid)
    (second : improves (some mid) new) : improves old new = true := by
  cases old with
  | none => rfl
  | some value =>
    exact decide_eq_true ((of_decide_eq_true first).trans (of_decide_eq_true second))

/-- A raised label leaves fewer values that would raise it again. -/
theorem filter_improves_lt {values : List β} (mem : new ∈ values) (better : improves old new) :
    (values.filter (improves (some new))).length < (values.filter (improves old)).length := by
  induction values with
  | nil => cases mem
  | cons value rest ih =>
    have le : (rest.filter (improves (some new))).length ≤ (rest.filter (improves old)).length := by
      refine (monotone_filter_right rest fun v h => ?_).length_le
      exact improves_trans better h
    rcases mem_cons.mp mem with rfl | inRest
    · have self : ¬ improves (some new) new = true := by simp [improves]
      rw [filter_cons_of_neg self, filter_cons_of_pos better, length_cons]
      exact Nat.lt_succ_of_le le
    · have lt := ih inRest
      by_cases second : improves (some new) value = true
      · rw [filter_cons_of_pos second, filter_cons_of_pos (improves_trans better second),
          length_cons, length_cons]
        exact Nat.succ_lt_succ lt
      · rw [filter_cons_of_neg second]
        by_cases first : improves old value = true
        · rw [filter_cons_of_pos first, length_cons]
          exact Nat.lt_succ_of_lt lt
        · rw [filter_cons_of_neg first]
          exact lt

/-! ## The invariant of the search -/

variable [OrderTop β]

/-- Labels are carried by chains, one per node, and queued nodes are labelled. -/
structure Sound (edges : List (Edge α β)) (start : α) (state : List (α × β) × List α) : Prop where
  nodup : (state.1.map Prod.fst).Nodup
  carried : ∀ {node value}, label state.1 node = some value → Reach edges start node value
  start : label state.1 start = some ⊤
  queued : ∀ node ∈ state.2, label state.1 node ≠ none

theorem Sound.relax {edges : List (Edge α β)} {start : α} (sound : Sound edges start state) {value : β}
    (mem : edge ∈ edges) (carried : Reach edges start edge.source value) :
    Sound edges start (relax value state edge) := by
  have grows := relax_grows value state edge
  refine ⟨?_, ?_, ?_, ?_⟩
  · unfold Bottleneck.relax
    split
    · exact nodup_insert sound.nodup _ _
    · exact sound.nodup
  · intro node worth isWorth
    unfold Bottleneck.relax at isWorth
    split at isWorth
    · rw [label_insert] at isWorth
      split at isWorth
      · rename_i here
        cases isWorth
        exact here ▸ .step carried mem
      · exact sound.carried isWorth
    · exact sound.carried isWorth
  · obtain ⟨later, isLater, le⟩ := grows.le sound.start
    rw [isLater, top_le_iff.mp le]
  · intro node queued
    unfold Bottleneck.relax at queued ⊢
    split at queued
    · rename_i better
      rw [if_pos better, label_insert]
      rcases mem_append.mp queued with old | new
      · split
        · nofun
        · exact sound.queued node old
      · rw [if_pos (mem_singleton.mp new).symm]
        nofun
    · rename_i worse
      rw [if_neg worse]
      exact sound.queued node queued

/-- What the labels can still rise by. -/
def slack (edges : List (Edge α β)) (labels : List (α × β)) : Nat :=
  (edges.map fun edge => ((⊤ :: edges.map Edge.capacity).filter
    (improves (label labels edge.target))).length).sum

theorem slack_insert {edges : List (Edge α β)} (mem : edge ∈ edges)
    (isValue : new ∈ ⊤ :: edges.map Edge.capacity)
    (better : improves (label labels edge.target) new) :
    slack edges (insert labels edge.target new) < slack edges labels := by
  refine sum_lt_sum _ _ (fun other _ => ?_) ⟨edge, mem, ?_⟩
  · rw [label_insert]
    split
    · rename_i here
      rw [← here]
      exact (filter_improves_lt isValue better).le
    · exact le_rfl
  · rw [label_insert, if_pos rfl]
    exact filter_improves_lt isValue better

/-- Slack and the visits that are due. -/
def weight (edges : List (Edge α β)) (state : List (α × β) × List α) : Nat :=
  slack edges state.1 + state.2.length

/-- Relaxing an edge never adds weight: a queued node is paid for by its raised label. -/
theorem weight_relax {edges : List (Edge α β)} {start : α} {value : β} (mem : edge ∈ edges)
    (carried : Reach edges start edge.source value) :
    weight edges (relax value state edge) ≤ weight edges state := by
  unfold relax
  split
  · rename_i better
    have less := slack_insert mem (Reach.step carried mem).mem_values better
    show slack edges (insert state.1 edge.target _) + (state.2 ++ [edge.target]).length ≤
      slack edges state.1 + state.2.length
    rw [length_append, length_singleton]
    omega
  · exact le_rfl

/-- What visiting the edges out of a node worth `value` gives. -/
structure Visited (edges : List (Edge α β)) (start node : α) (value : β) (out : List (Edge α β))
    (before after : List (α × β) × List α) : Prop where
  grows : Grows before after
  sound : Sound edges start after
  itself : label after.1 node = some value
  covers : ∀ edge ∈ out, Covers after.1 value edge
  weight : weight edges after ≤ weight edges before

theorem foldl_relax {edges : List (Edge α β)} {start node : α} {value : β} (out : List (Edge α β))
    (isOut : ∀ edge ∈ out, edge ∈ edges ∧ edge.source = node) (state : List (α × β) × List α)
    (sound : Sound edges start state) (isLabel : label state.1 node = some value) :
    Visited edges start node value out state (out.foldl (relax value) state) := by
  induction out generalizing state with
  | nil => exact ⟨Grows.refl state, sound, isLabel, nofun, le_rfl⟩
  | cons edge rest ih =>
    obtain ⟨mem, isSource⟩ := isOut edge mem_cons_self
    have carried : Reach edges start edge.source value := isSource ▸ sound.carried isLabel
    have first := relax_grows value state edge
    have done := ih (fun e h => isOut e (mem_cons_of_mem _ h)) (relax value state edge)
      (sound.relax mem carried) (relax_self isLabel)
    refine ⟨first.trans done.grows, done.sound, done.itself, ?_, ?_⟩
    · intro e h
      rcases mem_cons.mp h with rfl | inRest
      · exact Covers.mono done.grows (relax_covers value state e)
      · exact done.covers e inRest
    · exact done.weight.trans (weight_relax mem carried)

/-- The whole invariant: a labelled node is queued or all its edges are covered. -/
structure Inv (edges : List (Edge α β)) (start : α) (state : List (α × β) × List α) : Prop where
  sound : Sound edges start state
  covered : ∀ {node value}, label state.1 node = some value → node ∈ state.2 ∨
    ∀ edge ∈ edges, edge.source = node → Covers state.1 value edge

theorem Inv.visit {edges : List (Edge α β)} {start node : α}
    (inv : Inv edges start (labels, node :: queue)) : Inv edges start (visit edges labels queue node) ∧
      weight edges (visit edges labels queue node) < weight edges (labels, node :: queue) := by
  obtain ⟨value, isLabel⟩ : ∃ value, label labels node = some value :=
    Option.ne_none_iff_exists'.mp (inv.sound.queued node mem_cons_self)
  have sound : Sound edges start (labels, queue) := ⟨inv.sound.nodup, inv.sound.carried,
    inv.sound.start, fun n h => inv.sound.queued n (mem_cons_of_mem _ h)⟩
  have done := foldl_relax (edges.filter fun edge => edge.source = node)
    (fun e h => ⟨mem_of_mem_filter h, by simpa using (mem_filter.mp h).2⟩)
    (labels, queue) sound isLabel
  have isVisit : Bottleneck.visit edges labels queue node =
      (edges.filter fun edge => edge.source = node).foldl (relax value) (labels, queue) := by
    unfold Bottleneck.visit
    rw [isLabel]
    rfl
  rw [isVisit]
  refine ⟨⟨done.sound, ?_⟩, ?_⟩
  · intro other worth isWorth
    by_cases here : other = node
    · -- the visited node: its edges have just been relaxed
      rw [here, done.itself] at isWorth
      obtain rfl := Option.some.inj isWorth
      right
      intro edge mem isSource
      exact done.covers edge (mem_filter.mpr ⟨mem, by simpa using isSource.trans here⟩)
    · cases old : label labels other with
      | none => exact .inl (done.grows.new old isWorth)
      | some oldWorth =>
        rcases done.grows.kept old with same | ⟨queued, -⟩
        · rcases inv.covered old with queued | covered
          · rcases mem_cons.mp queued with isNode | inQueue
            · exact absurd isNode here
            · exact .inl (done.grows.queue inQueue)
          · obtain rfl := Option.some.inj (same.symm.trans isWorth)
            exact .inr fun edge mem isSource =>
              Covers.mono done.grows (covered edge mem isSource)
        · exact .inl queued
  · have le := done.weight
    unfold weight at le ⊢
    simp only [length_cons] at le ⊢
    omega

/-- The search ends with every edge covered, or on more labels than the limit. -/
theorem search_spec {edges : List (Edge α β)} {start : α} (limit fuel : Nat)
    (inv : Inv edges start (labels, queue)) (enough : weight edges (labels, queue) ≤ fuel) :
    match search edges limit fuel labels queue with
    | some final => Inv edges start (final, [])
    | none => ∃ final queue', Inv edges start (final, queue') ∧ limit < final.length := by
  induction fuel generalizing labels queue with
  | zero =>
    cases queue with
    | nil => exact inv
    | cons node rest => exact absurd enough (by simp [weight])
  | succ fuel ih =>
    cases queue with
    | nil => exact inv
    | cons node rest =>
      obtain ⟨visited, less⟩ := inv.visit
      unfold search
      split_ifs with large
      · exact ⟨_, _, visited, large⟩
      · exact ih visited (Nat.le_of_lt_succ (less.trans_le enough))

/-! ## The finished labels -/

theorem inv_start (edges : List (Edge α β)) (start : α) : Inv edges start ([(start, ⊤)], [start]) where
  sound := by
    refine ⟨by simp, ?_, by simp [label], by simp [label]⟩
    intro node value isLabel
    simp only [label] at isLabel
    split at isLabel
    · rename_i here
      cases isLabel
      exact here ▸ .start
    · cases isLabel
  covered := by
    intro node value isLabel
    simp only [label] at isLabel
    split at isLabel
    · rename_i here
      exact .inl (mem_singleton.mpr here.symm)
    · cases isLabel

theorem weight_start (edges : List (Edge α β)) (start : α) :
    weight edges ([(start, ⊤)], [start]) ≤ edges.length * (edges.length + 1) + 1 := by
  refine add_le_add ?_ le_rfl
  calc (edges.map fun edge => ((⊤ :: edges.map Edge.capacity).filter
          (improves (label [(start, ⊤)] edge.target))).length).sum
      ≤ (edges.map fun _ => edges.length + 1).sum := by
        refine sum_le_sum fun edge _ => ?_
        refine (length_filter_le _ _).trans ?_
        simp
    _ = edges.length * (edges.length + 1) := by simp

/-- Every label is carried by a chain. -/
theorem widest_sound {edges : List (Edge α β)} {start : α} (h : widest edges limit start = some labels)
    {node : α} {value : β} (isLabel : label labels node = some value) : Reach edges start node value := by
  have spec := search_spec limit _ (inv_start edges start) (weight_start edges start)
  unfold widest at h
  rw [h] at spec
  exact spec.sound.carried isLabel

/-- No chain carries more than the label of the node it reaches. -/
theorem widest_complete {edges : List (Edge α β)} {start : α}
    (h : widest edges limit start = some labels) {node : α} {value : β}
    (reach : Reach edges start node value) :
    ∃ worth, label labels node = some worth ∧ value ≤ worth := by
  have spec := search_spec limit _ (inv_start edges start) (weight_start edges start)
  unfold widest at h
  rw [h] at spec
  induction reach with
  | start => exact ⟨⊤, spec.sound.start, le_rfl⟩
  | @step value edge before mem ih =>
    obtain ⟨worth, isWorth, le⟩ := ih
    rcases spec.covered isWorth with queued | covered
    · cases queued
    · obtain ⟨more, isMore, le'⟩ := covered edge mem rfl
      exact ⟨more, isMore, (min_le_min_right _ le).trans le'⟩

theorem search_length {edges : List (Edge α β)} {fuel : Nat} {final : List (α × β)}
    (h : search edges limit fuel labels queue = some final) :
    final = labels ∨ final.length ≤ limit := by
  induction fuel generalizing labels queue with
  | zero =>
    cases queue with
    | nil => exact .inl (Option.some.inj h).symm
    | cons node rest => cases h
  | succ fuel ih =>
    cases queue with
    | nil => exact .inl (Option.some.inj h).symm
    | cons node rest =>
      unfold search at h
      split_ifs at h with large
      right
      rcases ih h with same | within
      · exact same ▸ not_lt.mp large
      · exact within

/-- The search gives up exactly when more nodes than the limit can be reached. -/
theorem widest_isSome {edges : List (Edge α β)} (positive : 1 ≤ limit) {start : α} :
    (∃ labels, widest edges limit start = some labels) ↔ ∀ nodes : List α, nodes.Nodup →
      (∀ node ∈ nodes, ∃ value, Reach edges start node value) → nodes.length ≤ limit := by
  constructor
  · rintro ⟨labels, h⟩ nodes nodup reached
    have within : labels.length ≤ limit := by
      rcases search_length h with rfl | within
      · exact positive
      · exact within
    have sub : nodes ⊆ labels.map Prod.fst := by
      intro node mem
      obtain ⟨value, reach⟩ := reached node mem
      obtain ⟨worth, isWorth, -⟩ := widest_complete h reach
      by_contra absent
      rw [label_eq_none.mpr absent] at isWorth
      cases isWorth
    calc nodes.length ≤ (labels.map Prod.fst).length := (subperm_of_subset nodup sub).length_le
      _ = labels.length := length_map _
      _ ≤ limit := within
  · intro few
    cases result : widest edges limit start with
    | some labels => exact ⟨labels, rfl⟩
    | none =>
      have spec := search_spec limit _ (inv_start edges start) (weight_start edges start)
      unfold widest at result
      rw [result] at spec
      obtain ⟨labels, queue, inv, large⟩ := spec
      have le := few (labels.map Prod.fst) inv.sound.nodup fun node mem => by
        cases isLabel : label labels node with
        | none => exact absurd mem (label_eq_none.mp isLabel)
        | some value => exact ⟨value, inv.sound.carried isLabel⟩
      rw [length_map] at le
      exact absurd large (not_lt.mpr le)

end MeshSpan.Bottleneck
