import MeshSpan.Cleanup.Effects

/- The invariants of the cleanup tables.

   `Grows` says what no command takes back: a decided proposal keeps its decision, a
   sealed inventory stays as it is, and the rows of the other tables are only added
   to. The three groups

     `Proposals`    proposals and their participants
     `Listed`       inventories and their items
     `Permits`      the attempts of each item

   are kept by every effect. -/

namespace MeshSpan.Cleanup

open Rows Repository List

/-! ## What stays -/

def SealedAt (s : Store) (c : OperationId) (index : Nat) : Prop :=
  ∃ inventory mark, inventory? s c = some inventory ∧ inventory.sealed = some mark ∧
    index < inventory.expectedItemCount

def AuthorisedIn (s : Store) (c : OperationId) : Prop :=
  ∃ intent op rev at', intent? s c = some intent ∧ intent.state = .authorised op rev at'

structure Grows (s s' : Store) : Prop where
  decided : ∀ c intent, intent? s c = some intent → intent.state ≠ .pending → intent? s' c = some intent
  kept : ∀ c intent, intent? s c = some intent →
    ∃ state, intent? s' c = some { intent with state := state }
  sealed : ∀ c inventory, inventory? s c = some inventory → inventory.sealed.isSome →
    inventory? s' c = some inventory
  items : s.items <+: s'.items
  attempts : s.attempts <+: s'.attempts
  completions : s.completions <+: s'.completions

theorem Grows.refl (s : Store) : Grows s s where
  decided _ _ found _ := found
  kept _ intent found := ⟨intent.state, found⟩
  sealed _ _ found _ := found
  items := prefix_rfl
  attempts := prefix_rfl
  completions := prefix_rfl

variable {s : Store}

theorem Grows.trans {t u : Store} (first : Grows s t) (second : Grows t u) : Grows s u where
  decided c intent found done := second.decided c intent (first.decided c intent found done) done
  kept c intent found := by
    obtain ⟨state, found⟩ := first.kept c intent found
    obtain ⟨state, found⟩ := second.kept c _ found
    exact ⟨state, found⟩
  sealed c inventory found done := second.sealed c inventory (first.sealed c inventory found done) done
  items := first.items.trans second.items
  attempts := first.attempts.trans second.attempts
  completions := first.completions.trans second.completions

variable {s' : Store} {c : OperationId} {index : Nat}

theorem Grows.sealedAt (grows : Grows s s') (h : SealedAt s c index) : SealedAt s' c index := by
  obtain ⟨inventory, mark, found, isSealed, inside⟩ := h
  exact ⟨inventory, mark, grows.sealed c inventory found (by simp [isSealed]), isSealed, inside⟩

theorem Grows.authorisedIn (grows : Grows s s') (h : AuthorisedIn s c) : AuthorisedIn s' c := by
  obtain ⟨intent, op, rev, at', found, state⟩ := h
  exact ⟨intent, op, rev, at', grows.decided c intent found (by simp [state]), state⟩

theorem intent?_terminate (s : Store) (command : TerminalCommand) (state : IntentState)
    (c : OperationId) : intent? (terminate s command state) c = (intent? s c).map fun intent =>
      if intent.cleanupOperationId == command.cleanupOperationId &&
          intent.revision == command.cleanupRevision &&
          intent.reachabilitySubjectDigest == command.reachabilitySubjectDigest &&
          intent.state == .pending
        then { intent with state := state } else intent := by
  apply get_amend
  exact fun _ => rfl

theorem grows_terminate (s : Store) (command : TerminalCommand) (state : IntentState) :
    Grows s (terminate s command state) where
  decided c intent found done := by
    rw [intent?_terminate, found, Option.map_some]
    simp [done]
  kept c intent found := by
    rw [intent?_terminate, found, Option.map_some]
    split
    · exact ⟨state, rfl⟩
    · exact ⟨intent.state, rfl⟩
  sealed _ _ found _ := found
  items := prefix_rfl
  attempts := prefix_rfl
  completions := prefix_rfl

theorem appendItems_ok {c : OperationId} {revision : Revision} {page : List ItemPlacement} :
    ∀ {index : Nat} {digest digest' : Digest} {rows items : List Item},
      appendItems c revision index digest rows page = .ok (digest', items) →
      items = rows ++ (page.zipIdx index).map (fun p => itemOf c p.2 revision p.1) ∧
      (rows.Pairwise (fun old new => itemsConflict new old = false) →
        items.Pairwise fun old new => itemsConflict new old = false) := by
  induction page with
  | nil =>
    intro index digest digest' rows items h
    cases h
    exact ⟨(append_nil _).symm, id⟩
  | cons first rest ih =>
    intro index digest digest' rows items h
    obtain ⟨next, inserted, h⟩ := bind_eq_ok.mp h
    obtain ⟨rfl, free⟩ := insertUnique_ok inserted
    obtain ⟨shape, apart⟩ := ih h
    refine ⟨by simp [shape, zipIdx_cons], fun before => apart ?_⟩
    refine pairwise_append.mpr ⟨before, pairwise_singleton _ _, fun old mem new isNew => ?_⟩
    rw [mem_singleton.mp isNew]
    exact free old mem

variable {command : AppendVersionCleanupItems} {manifest : Digest} {revision : Revision}
  {current : Inventory} {inventories : List Inventory}

section

variable (h : openInventory s command manifest revision = .ok (current, inventories))

include h

theorem openInventory_ok :
    (inventory? s command.cleanupOperationId = some current ∧ inventories = s.inventories) ∨
      (inventory? s command.cleanupOperationId = none ∧
        current = newInventory command manifest revision ∧ inventories = s.inventories ++ [current]) := by
  unfold openInventory at h
  split at h
  · rename_i inventory found
    cases h
    exact .inl ⟨found, rfl⟩
  · rename_i none
    replace h := passed h
    cases h
    exact .inr ⟨none, rfl, rfl⟩

theorem get_opened (c : OperationId) :
    get Inventory.cleanupOperationId c inventories =
      if c = command.cleanupOperationId then some current else inventory? s c := by
  rcases openInventory_ok h with ⟨found, rfl⟩ | ⟨absent, rfl, rfl⟩
  · split
    · rename_i same
      rw [same]
      exact found
    · rfl
  · rw [get_append]
    unfold inventory? at absent ⊢
    split
    · rename_i row found
      split
      · rename_i same
        rw [same, absent] at found
        cases found
      · exact found.symm
    · rename_i none
      simp only [newInventory, eq_comm]
      split
      · rfl
      · rw [none]

end

variable {digest : Digest} {items : List Item} {f : Participant → Participant}
  {p : Participant → Bool}

theorem inventory?_appended
    (opened : openInventory s command manifest revision = .ok (current, inventories))
    (continues : validateCurrent command current) (c : OperationId) : inventory? { s with
      items := items
      inventories := amend (fun row => row.cleanupOperationId == command.cleanupOperationId &&
          row.sealed.isNone && row.itemCount == command.startIndex)
        (fun row => { row with
          itemCount := command.startIndex + command.items.length
          rollingDigest := digest
          lastAppendRevision := revision }) inventories } c =
      if c = command.cleanupOperationId then
        some { current with
          itemCount := command.startIndex + command.items.length
          rollingDigest := digest
          lastAppendRevision := revision }
      else inventory? s c := by
  have read := get_opened opened c
  show Rows.get Inventory.cleanupOperationId c (amend _ _ inventories) = _
  rw [get_amend (by exact fun _ => rfl), read]
  simp only [validateCurrent, Bool.and_eq_true, beq_iff_eq] at continues
  split
  · rename_i same
    have key : current.cleanupOperationId = command.cleanupOperationId := by
      rw [if_pos same] at read
      exact (get_mem read).2.trans same
    have isOpen : current.sealed = none := Option.isNone_iff_eq_none.mp continues.2
    simp [key, isOpen, continues.1.2]
  · rename_i other
    cases found : inventory? s c with
    | none => rfl
    | some inventory =>
      have key : inventory.cleanupOperationId = c := (get_mem found).2
      simp [key, other]

theorem inventory?_sealed (s : Store) (command : SealVersionCleanupInventory) (revision : Revision)
    (mark : Seal) (c : OperationId) : inventory? { s with
      inventories := amend (sealable command revision)
        (fun row => { row with sealed := some mark }) s.inventories } c =
      (inventory? s c).map fun row =>
        if sealable command revision row then { row with sealed := some mark } else row := by
  apply get_amend
  exact fun _ => rfl

variable {scheme : SignatureScheme} {context : CommandContext}

theorem Grows.congr (intents : s'.intents = s.intents) (inventories : s'.inventories = s.inventories)
    (items : s.items <+: s'.items) (attempts : s.attempts <+: s'.attempts)
    (completions : s.completions <+: s'.completions) : Grows s s' := by
  refine ⟨fun c i => ?_, fun c i => ?_, fun c i => ?_, items, attempts, completions⟩
  · unfold intent?
    rw [intents]
    exact fun h _ => h
  · unfold intent?
    rw [intents]
    exact fun h => ⟨i.state, h⟩
  · unfold inventory?
    rw [inventories]
    exact fun h _ => h

theorem grows_of_effect {command : Command} (h : Effect scheme s context revision command s') :
    Grows s s' := by
  cases h with
  | proposed command fresh roots =>
    exact ⟨fun _ _ h _ => get_of_grown (prefix_append _ _) h,
      fun _ i h => ⟨i.state, get_of_grown (prefix_append _ _) h⟩, fun _ _ h _ => h,
      prefix_rfl, prefix_rfl, prefix_rfl⟩
  | authorised command intent pending authority => exact grows_terminate s command _
  | cancelled command intent pending => exact grows_terminate s command _
  | appended command manifest digest current inventories items opened continues fits listed =>
    refine ⟨fun _ _ h _ => h, fun _ i h => ⟨i.state, h⟩, fun c inventory found done => ?_, ?_,
      prefix_rfl, prefix_rfl⟩
    · -- the page's own inventory is not sealed, so a sealed one is another's
      rw [inventory?_appended opened continues]
      split
      · rename_i same
        rcases openInventory_ok opened with ⟨isCurrent, _⟩ | ⟨absent, _⟩
        · rw [same, isCurrent] at found
          cases found
          simp only [validateCurrent, Bool.and_eq_true] at continues
          rw [Option.isNone_iff_eq_none.mp continues.2] at done
          cases done
        · rw [same, absent] at found
          cases found
      · exact found
    · rw [(appendItems_ok listed).1]
      exact prefix_append _ _
  | «sealed» command nonempty =>
    refine ⟨fun _ _ h _ => h, fun _ i h => ⟨i.state, h⟩, fun c inventory found done => ?_,
      prefix_rfl, prefix_rfl, prefix_rfl⟩
    rw [inventory?_sealed, found, Option.map_some]
    have closed : sealable command revision inventory = false := by
      cases isSealed : inventory.sealed with
      | none =>
        rw [isSealed] at done
        cases done
      | some mark => simp [sealable, isSealed]
    simp [closed]
  | issued command sealed open' sealedItem follows permit lasting =>
    exact .congr rfl rfl prefix_rfl (prefix_append _ _) prefix_rfl
  | completed _ _ _ _ _ _ _ _ _ summed =>
    obtain ⟨_, rfl⟩ := completeSummaryIfReady_frame summed
    exact .congr rfl rfl prefix_rfl prefix_rfl (prefix_append _ _)
  | confirmed _ _ _ _ _ _ summed =>
    obtain ⟨_, rfl⟩ := reclaimSummaryIfReady_frame summed
    exact .congr rfl rfl prefix_rfl prefix_rfl prefix_rfl
  | _ => exact .congr rfl rfl prefix_rfl prefix_rfl prefix_rfl

/-! ## Proposals and participants -/

def participantsOf (s : Store) (c : OperationId) : List Participant :=
  s.participants.filter (·.cleanupOperationId == c)

/-- Each gateway of a proposal has one participant row, and nothing else has. -/
structure Proposals (s : Store) : Prop where
  keyed : Keyed Intent.cleanupOperationId s.intents
  participants : Keyed (fun row => (row.cleanupOperationId, row.nodeId)) s.participants
  owned : ∀ row ∈ s.participants, ∃ intent ∈ s.intents,
    intent.cleanupOperationId = row.cleanupOperationId
  counted : ∀ intent ∈ s.intents,
    (participantsOf s intent.cleanupOperationId).length = intent.requiredAttestationCount

theorem Proposals.congr (h : Proposals s) (intents : s'.intents = s.intents)
    (participants : s'.participants = s.participants) : Proposals s' where
  keyed := by
    rw [intents]
    exact h.keyed
  participants := by
    rw [participants]
    exact h.participants
  owned := by
    rw [intents, participants]
    exact h.owned
  counted := by
    unfold participantsOf
    rw [intents, participants]
    exact h.counted

theorem Proposals.proposed (h : Proposals s) {intent : Intent} (isNew : intent.cleanupOperationId = c)
    (required : intent.requiredAttestationCount = currentParticipantCount s.env)
    (fresh : ∀ old ∈ s.intents, old.cleanupOperationId ≠ c) : Proposals { s with
      intents := s.intents ++ [intent]
      participants := s.participants ++ (gateways s.env).map fun node =>
        ⟨c, node.nodeId, node.currentIncarnation, none, revision⟩ } := by
  -- no participant of an earlier proposal carries the new id
  have apart : ∀ row ∈ s.participants, row.cleanupOperationId ≠ c := by
    intro row mem same
    obtain ⟨old, isIntent, owner⟩ := h.owned row mem
    exact fresh old isIntent (owner.trans same)
  refine ⟨keyed_append h.keyed fun old mem => isNew ▸ fresh old mem, ?_, ?_, ?_⟩
  · unfold Keyed
    rw [map_append, map_map]
    refine nodup_append.mpr ⟨h.participants, ?_, ?_⟩
    · have nodes : (gateways s.env).map Node.nodeId |>.Nodup :=
        s.env.nodesKeyed.sublist (filter_sublist.map _)
      have paired : (((gateways s.env).map Node.nodeId).map fun node => (c, node)).Nodup :=
        nodes.map fun a b same => (Prod.mk.inj same).2
      rw [map_map] at paired
      exact paired
    · intro a ha b hb same
      obtain ⟨row, mem, rfl⟩ := mem_map.mp ha
      obtain ⟨node, _, rfl⟩ := mem_map.mp hb
      exact apart row mem (Prod.mk.inj same).1
  · intro row mem
    rcases mem_append.mp mem with old | new
    · obtain ⟨intent', isIntent, owner⟩ := h.owned row old
      exact ⟨intent', mem_append_left _ isIntent, owner⟩
    · obtain ⟨node, _, rfl⟩ := mem_map.mp new
      exact ⟨intent, mem_append_right _ mem_cons_self, isNew⟩
  · intro intent' mem
    unfold participantsOf
    rw [filter_append, length_append, filter_map, length_map]
    rcases mem_append.mp mem with old | new
    · have differs : c ≠ intent'.cleanupOperationId := (fresh intent' old).symm
      have none : (gateways s.env).filter ((fun row : Participant =>
          row.cleanupOperationId == intent'.cleanupOperationId) ∘ fun node =>
            ⟨c, node.nodeId, node.currentIncarnation, none, revision⟩) = [] := by
        refine filter_eq_nil_iff.mpr fun node _ => ?_
        simpa using differs
      rw [none]
      exact h.counted intent' old
    · rw [mem_singleton.mp new, isNew]
      have empty : s.participants.filter (·.cleanupOperationId == c) = [] :=
        filter_eq_nil_iff.mpr fun row mem => by simpa using apart row mem
      have all : (gateways s.env).filter ((fun row : Participant => row.cleanupOperationId == c) ∘
          fun node => ⟨c, node.nodeId, node.currentIncarnation, none, revision⟩) = gateways s.env :=
        filter_eq_self.mpr fun node _ => by simp
      rw [empty, all, required]
      exact zero_add _

theorem participantsOf_amend {rows : List Participant}
    (keeps : ∀ row, (f row).cleanupOperationId = row.cleanupOperationId) (c : OperationId) :
    ((amend p f rows).filter (·.cleanupOperationId == c)).length =
      (rows.filter (·.cleanupOperationId == c)).length := by
  unfold amend
  rw [filter_map, length_map]
  refine congrArg length (filter_congr fun row _ => ?_)
  show ((if p row then f row else row).cleanupOperationId == c) = _
  split
  · rw [keeps]
  · rfl

theorem Proposals.attested (h : Proposals s)
    (cleanup : ∀ row, (f row).cleanupOperationId = row.cleanupOperationId)
    (node : ∀ row, (f row).nodeId = row.nodeId) :
    Proposals { s with participants := amend p f s.participants } where
  keyed := h.keyed
  participants := keyed_amend (fun row => by rw [cleanup, node]) h.participants
  owned row mem := by
    obtain ⟨old, isOld, rfl⟩ := mem_amend.mp mem
    obtain ⟨intent, isIntent, owner⟩ := h.owned old isOld
    refine ⟨intent, isIntent, owner.trans ?_⟩
    split
    · exact (cleanup old).symm
    · rfl
  counted intent mem := (participantsOf_amend cleanup _).trans (h.counted intent mem)

theorem Proposals.terminate (h : Proposals s) (command : TerminalCommand)
    (state : IntentState) : Proposals (terminate s command state) where
  keyed := by
    refine keyed_amend ?_ h.keyed
    exact fun _ => rfl
  participants := h.participants
  owned row mem := by
    obtain ⟨intent, isIntent, owner⟩ := h.owned row mem
    refine ⟨_, mem_amend.mpr ⟨intent, isIntent, rfl⟩, ?_⟩
    split <;> exact owner
  counted intent mem := by
    obtain ⟨old, isOld, rfl⟩ := mem_amend.mp mem
    have counted := h.counted old isOld
    split <;> exact counted

theorem Proposals.effect {command : Command} (h : Proposals s)
    (done : Effect scheme s context revision command s') : Proposals s' := by
  cases done with
  | proposed command fresh roots => exact h.proposed rfl rfl fresh
  | attested a => exact h.attested (fun _ => rfl) fun _ => rfl
  | authorised command intent pending authority => exact h.terminate command _
  | cancelled command intent pending => exact h.terminate command _
  | completed _ _ _ _ _ _ _ _ _ summed =>
    obtain ⟨_, rfl⟩ := completeSummaryIfReady_frame summed
    exact h.congr rfl rfl
  | confirmed _ _ _ _ _ _ summed =>
    obtain ⟨_, rfl⟩ := reclaimSummaryIfReady_frame summed
    exact h.congr rfl rfl
  | _ => exact h.congr rfl rfl

/-! ## Inventories and items -/

def itemCountOf (s : Store) (c : OperationId) : Nat := (inventory? s c).elim 0 Inventory.itemCount

/-- The items of a cleanup are numbered from zero to the count of its inventory, no two share a
place, and a sealed inventory is complete. -/
structure Listed (s : Store) : Prop where
  numbered : ∀ c, (itemsOf s c).map Item.itemIndex = range (itemCountOf s c)
  apart : s.items.Pairwise fun old new => itemsConflict new old = false
  full : ∀ c inventory, inventory? s c = some inventory → inventory.sealed.isSome →
    inventory.itemCount = inventory.expectedItemCount ∧ inventory.expectedItemCount ≠ 0

theorem Listed.congr (h : Listed s) (items : s'.items = s.items)
    (inventories : s'.inventories = s.inventories) : Listed s' where
  numbered := by
    unfold itemsOf itemCountOf inventory?
    rw [items, inventories]
    exact h.numbered
  apart := by
    rw [items]
    exact h.apart
  full := by
    unfold inventory?
    rw [inventories]
    exact h.full

theorem itemsOf_page (c other : OperationId) (revision : Revision) (page : List ItemPlacement)
    (index : Nat) : (((page.zipIdx index).map fun p => itemOf c p.2 revision p.1).filter fun item =>
      item.cleanupOperationId == other).map Item.itemIndex =
      if other = c then range' index page.length else [] := by
  split
  · rename_i same
    have all : ((page.zipIdx index).map fun p => itemOf c p.2 revision p.1).filter (fun item =>
        item.cleanupOperationId == other) =
        (page.zipIdx index).map fun p => itemOf c p.2 revision p.1 := by
      refine filter_eq_self.mpr fun item mem => ?_
      obtain ⟨p, _, rfl⟩ := mem_map.mp mem
      simp [itemOf, same]
    rw [all, map_map]
    exact zipIdx_map_snd index page
  · rename_i differs
    have none : ((page.zipIdx index).map fun p => itemOf c p.2 revision p.1).filter (fun item =>
        item.cleanupOperationId == other) = [] := by
      refine filter_eq_nil_iff.mpr fun item mem => ?_
      obtain ⟨p, _, rfl⟩ := mem_map.mp mem
      simpa [itemOf] using (differs ·.symm)
    rw [none]
    rfl

theorem Listed.appended (h : Listed s)
    (opened : openInventory s command manifest revision = .ok (current, inventories))
    (continues : validateCurrent command current)
    (listed : appendItems command.cleanupOperationId revision command.startIndex
      current.rollingDigest s.items command.items = .ok (digest, items)) :
    Listed { s with
      items := items
      inventories := amend (fun row => row.cleanupOperationId == command.cleanupOperationId &&
          row.sealed.isNone && row.itemCount == command.startIndex)
        (fun row => { row with
          itemCount := command.startIndex + command.items.length
          rollingDigest := digest
          lastAppendRevision := revision }) inventories } := by
  obtain ⟨rows, apart⟩ := appendItems_ok listed
  have valid := continues
  simp only [validateCurrent, Bool.and_eq_true, beq_iff_eq] at valid
  -- before the page the cleanup has as many items as the page's start says
  have before : itemCountOf s command.cleanupOperationId = command.startIndex := by
    rcases openInventory_ok opened with ⟨found, _⟩ | ⟨absent, rfl, _⟩
    · rw [itemCountOf, found]
      exact valid.1.2
    · rw [itemCountOf, absent]
      exact valid.1.2
  refine ⟨fun c => ?_, apart h.apart, fun c inventory found done => ?_⟩
  · show (items.filter (·.cleanupOperationId == c)).map Item.itemIndex = _
    rw [itemCountOf, inventory?_appended opened continues, rows, filter_append, map_append,
      itemsOf_page]
    have old : (s.items.filter (·.cleanupOperationId == c)).map Item.itemIndex =
      range (itemCountOf s c) := h.numbered c
    rw [old]
    by_cases same : c = command.cleanupOperationId
    · have joined : range command.startIndex ++
          range' command.startIndex command.items.length =
          range (command.startIndex + command.items.length) := by
        rw [range_eq_range', range_eq_range', ← range'_append_1, zero_add]
      rw [if_pos same, if_pos same, same, before]
      exact joined
    · rw [if_neg same, if_neg same, append_nil]
      rfl
  · rw [inventory?_appended opened continues] at found
    split at found
    · cases found
      rw [Option.isNone_iff_eq_none.mp valid.2] at done
      cases done
    · exact h.full c inventory found done

theorem Listed.sealed (h : Listed s) {command : SealVersionCleanupInventory}
    {mark : Seal} (nonempty : command.expectedItemCount ≠ 0) : Listed { s with
      inventories := amend (sealable command revision)
        (fun row => { row with sealed := some mark }) s.inventories } := by
  refine ⟨fun c => ?_, h.apart, fun c inventory found done => ?_⟩
  · rw [itemCountOf, inventory?_sealed]
    have old : (itemsOf s c).map Item.itemIndex = range (itemCountOf s c) := h.numbered c
    refine old.trans (congrArg range ?_)
    unfold itemCountOf
    cases inventory? s c with
    | none => rfl
    | some row =>
      show row.itemCount = Inventory.itemCount (if _ then _ else _)
      split <;> rfl
  · rw [inventory?_sealed] at found
    obtain ⟨row, read, rfl⟩ := Option.map_eq_some_iff.mp found
    split
    · rename_i ready
      simp only [sealable, Bool.and_eq_true, beq_iff_eq] at ready
      exact ⟨ready.1.1.1.2, ready.1.1.1.1.2 ▸ nonempty⟩
    · rename_i other
      rw [if_neg other] at done
      exact h.full c row read done

theorem Listed.effect {command : Command} (h : Listed s)
    (done : Effect scheme s context revision command s') : Listed s' := by
  cases done with
  | appended command manifest digest current inventories items opened continues fits listed =>
    exact h.appended opened continues listed
  | «sealed» command nonempty => exact h.sealed nonempty
  | completed _ _ _ _ _ _ _ _ _ summed =>
    obtain ⟨_, rfl⟩ := completeSummaryIfReady_frame summed
    exact h.congr rfl rfl
  | confirmed _ _ _ _ _ _ summed =>
    obtain ⟨_, rfl⟩ := reclaimSummaryIfReady_frame summed
    exact h.congr rfl rfl
  | _ => exact h.congr rfl rfl

/-! ## Attempts -/

/-- A later permit has no smaller epoch, and in the same epoch it starts after the earlier ends. -/
def Precedes (earlier later : Attempt) : Prop :=
  earlier.authorityEpoch ≤ later.authorityEpoch ∧
  (later.authorityEpoch = earlier.authorityEpoch → earlier.expiresAt ≤ later.issuedAt)

theorem Precedes.trans {a b c : Attempt} (first : Precedes a b) (second : Precedes b c)
    (lasting : b.issuedAt < b.expiresAt) : Precedes a c := by
  refine ⟨le_trans first.1 second.1, fun same => ?_⟩
  have low := first.1
  have high := second.1
  have ends := first.2 (by omega)
  have starts := second.2 (by omega)
  exact ends.trans (lasting.le.trans starts)

/-- The attempts of an item are numbered from one and follow each other; each belongs to an
authorised cleanup with a sealed inventory. -/
structure Permits (s : Store) : Prop where
  numbered : ∀ c index, (attemptsOf s c index).map Attempt.attemptSequence =
    range' 1 (attemptsOf s c index).length
  ordered : ∀ c index, (attemptsOf s c index).Pairwise Precedes
  lasting : ∀ attempt ∈ s.attempts, attempt.issuedAt < attempt.expiresAt
  sealed : ∀ attempt ∈ s.attempts, SealedAt s attempt.cleanupOperationId attempt.itemIndex
  authorised : ∀ attempt ∈ s.attempts, AuthorisedIn s attempt.cleanupOperationId

theorem Permits.congr (h : Permits s) (attempts : s'.attempts = s.attempts)
    (grows : Grows s s') : Permits s' where
  numbered := by
    unfold attemptsOf
    rw [attempts]
    exact h.numbered
  ordered := by
    unfold attemptsOf
    rw [attempts]
    exact h.ordered
  lasting := by
    rw [attempts]
    exact h.lasting
  sealed := by
    rw [attempts]
    exact fun attempt mem => grows.sealedAt (h.sealed attempt mem)
  authorised := by
    rw [attempts]
    exact fun attempt mem => grows.authorisedIn (h.authorised attempt mem)

theorem Permits.last_sequence (h : Permits s) {last : Attempt}
    (isLast : (attemptsOf s c index).getLast? = some last) :
    last.attemptSequence = (attemptsOf s c index).length := by
  have mapped : ((attemptsOf s c index).map Attempt.attemptSequence).getLast? =
      some last.attemptSequence := by
    rw [getLast?_map, isLast]
    rfl
  rw [h.numbered, getLast?_range'] at mapped
  split at mapped
  · cases mapped
  · have value := Option.some.inj mapped
    omega

theorem attemptsOf_issued (s : Store) (attempt : Attempt) (c : OperationId) (index : Nat) :
    attemptsOf { s with attempts := s.attempts ++ [attempt] } c index =
      if attempt.cleanupOperationId = c ∧ attempt.itemIndex = index
        then attemptsOf s c index ++ [attempt] else attemptsOf s c index := by
  unfold attemptsOf
  rw [filter_append, filter_singleton]
  split
  · rename_i same
    simp [same]
  · rename_i differs
    have out : (attempt.cleanupOperationId == c && attempt.itemIndex == index) = false := by
      simpa using differs
    simp [out]

theorem Permits.issued (h : Permits s) {command : IssueVersionCleanupPermit} {sealed : SealedItem}
    (sealedItem : SealedItemOf s command.cleanupOperationId command.itemIndex sealed)
    (follows : Follows s context command) (lasting : context.occurredAt < command.permit.expiresAt) :
    Permits { s with attempts := s.attempts ++ [attemptOf context command revision] } where
  numbered c index := by
    rw [attemptsOf_issued]
    split
    · rename_i same
      obtain ⟨rfl, rfl⟩ := same
      rw [map_append, h.numbered, length_append, length_singleton, range'_1_concat]
      refine congrArg _ (congrArg (fun n => [n]) ?_)
      show command.attemptSequence = _
      cases last : (attemptsOf s command.cleanupOperationId command.itemIndex).getLast? with
      | none =>
        rw [follows.first last]
        have empty := getLast?_eq_none_iff.mp last
        rw [show attemptsOf s (attemptOf context command revision).cleanupOperationId
          (attemptOf context command revision).itemIndex = [] from empty]
        rfl
      | some previous =>
        rw [(follows.next previous last).1, h.last_sequence last, add_comm]
        rfl
    · exact h.numbered c index
  ordered c index := by
    rw [attemptsOf_issued]
    split
    · rename_i same
      obtain ⟨rfl, rfl⟩ := same
      refine pairwise_append.mpr ⟨h.ordered _ _, pairwise_singleton _ _, ?_⟩
      intro earlier mem later isNew
      rw [mem_singleton.mp isNew]
      -- the new attempt follows the last one, and the last one every other
      have listed : earlier ∈ attemptsOf s command.cleanupOperationId command.itemIndex := mem
      have pairs := h.ordered command.cleanupOperationId command.itemIndex
      obtain ⟨front, last, split⟩ :=
        (eq_nil_or_concat' _).resolve_left (ne_nil_of_mem listed)
      have isLast : (attemptsOf s command.cleanupOperationId command.itemIndex).getLast? = some last := by
        rw [split, getLast?_concat]
      have next : Precedes last (attemptOf context command revision) := (follows.next last isLast).2
      have stored : last ∈ s.attempts := (mem_filter.mp (mem_of_getLast? isLast)).1
      rw [split] at listed pairs
      rcases mem_snoc.mp listed with inFront | rfl
      · have before := (pairwise_append.mp pairs).2.2 earlier inFront last mem_cons_self
        exact before.trans next (h.lasting last stored)
      · exact next
    · exact h.ordered c index
  lasting := forall_mem_append.mpr ⟨h.lasting, forall_mem_singleton.mpr lasting⟩
  sealed := forall_mem_append.mpr ⟨h.sealed, forall_mem_singleton.mpr sealedItem.inventory⟩
  authorised :=
    forall_mem_append.mpr ⟨h.authorised, forall_mem_singleton.mpr sealedItem.authorised⟩

theorem Permits.effect {command : Command} (h : Permits s)
    (done : Effect scheme s context revision command s') : Permits s' := by
  have grows := grows_of_effect done
  cases done with
  | issued command sealed open' sealedItem follows permit lasting =>
    exact h.issued sealedItem follows lasting
  | completed _ _ _ _ _ _ _ _ _ summed =>
    obtain ⟨_, rfl⟩ := completeSummaryIfReady_frame summed
    exact h.congr rfl grows
  | confirmed _ _ _ _ _ _ summed =>
    obtain ⟨_, rfl⟩ := reclaimSummaryIfReady_frame summed
    exact h.congr rfl grows
  | _ => exact h.congr rfl grows

end MeshSpan.Cleanup
