import MeshSpan.Cleanup.Outcomes

/- Removal authority over whole histories.

   The code compares the retained roots by a digest and the participants by their
   number. `setDigest_inj` and `gateways_attested` say what these comparisons mean:
   the root sets are equal, and exactly the present gateways have attested. Over a
   history, `Provenance` finds the entries that proposed and authorised a cleanup and
   the one that issued a permit.

   ── PROVED ──────────────────────────────────────────────────────────────────
     `removal_authority_exact`: in every history, every recorded permit has that
     authority, names one item of a sealed inventory, and follows the permits before
     it; completions, reclamations and summaries are exactly what they stand for.

   Digests are the free term algebra: distinct inputs have distinct digests. -/

namespace MeshSpan.Cleanup

open Rows Repository List Option

/-! ## Equal digests -/

theorem chained_snoc (parts : List Digest) (last : Digest) :
    chained (parts ++ [last]) = .join (chained parts) last := by
  unfold chained
  rw [foldl_append]
  rfl

theorem chained_inj : ∀ {xs ys : List Digest}, chained xs = chained ys → xs = ys := by
  intro xs
  induction xs using reverseRecOn with
  | nil =>
    intro ys h
    rcases eq_nil_or_concat' ys with rfl | ⟨front, last, rfl⟩
    · rfl
    · rw [chained_snoc] at h
      cases h
  | append_singleton xs x ih =>
    intro ys h
    rcases eq_nil_or_concat' ys with rfl | ⟨front, last, rfl⟩
    · rw [chained_snoc] at h
      cases h
    · rw [chained_snoc, chained_snoc] at h
      obtain ⟨fronts, lasts⟩ := Digest.join.inj h
      rw [ih fronts, lasts]

theorem retainedRootRecordDigest_injective : Function.Injective retainedRootRecordDigest := by
  rintro ⟨source, commit, root⟩ ⟨source', commit', root'⟩ h
  have fields := (Digest.framed.inj h).2
  cases source <;> cases source' <;> simp [RootSource.fields] at fields ⊢ <;> exact_mod_cast fields

theorem setDigest_inj {env env' : Environment} {volume : VolumeId} {revision revision' : Revision}
    (h : (rootSummary env volume revision).setDigest = (rootSummary env' volume revision').setDigest) :
    retainedRoots env volume = retainedRoots env' volume := by
  have inner := (Digest.over.inj h).2.1
  exact map_injective_iff.mpr retainedRootRecordDigest_injective (chained_inj inner)

/-! ## Gateways and participants -/

/-- The node has attested the subject of the cleanup under its current incarnation, with a
signature that an active key of it accepts. -/
def AttestedBy (scheme : SignatureScheme) (s : Store) (intent : Intent) (node : NodeId) : Prop :=
  ∃ row ∈ s.participants, ∃ scan, ∃ present ∈ s.env.nodes, ∃ key ∈ s.keys,
    row.cleanupOperationId = intent.cleanupOperationId ∧ row.nodeId = node ∧ row.attested = some scan ∧
    scan.reachabilitySubjectDigest = intent.reachabilitySubjectDigest ∧
    present.nodeId = node ∧ present.currentIncarnation = row.nodeIncarnation ∧
    key.nodeId = node ∧ key.generation = scan.keyGeneration ∧ key.active = true ∧
    scheme.verify key.verifyingKey (storedAttestation intent.revision row scan).signingDigest
      scan.signature = true

variable {c : OperationId} {s : Store} {intent : Intent} {scheme : SignatureScheme}

theorem mem_currentAttestations {row : Participant} {scan : SignedScan} {key : AttestationKey}
    (mem : (row, scan, key) ∈ currentAttestations s c) :
    row ∈ participantsOf s c ∧ row.attested = some scan ∧
      (∃ node ∈ gateways s.env, node.nodeId = row.nodeId ∧ node.currentIncarnation = row.nodeIncarnation) ∧
      key ∈ s.keys ∧ key.nodeId = row.nodeId ∧ key.generation = scan.keyGeneration ∧ key.active = true := by
  obtain ⟨stored, isRow, joined⟩ := mem_filterMap.mp mem
  obtain ⟨scan', attested, joined⟩ := bind_eq_some_iff.mp joined
  obtain ⟨node, present, joined⟩ := bind_eq_some_iff.mp joined
  obtain ⟨key', active, same⟩ := map_eq_some_iff.mp joined
  cases same
  obtain ⟨found, checks⟩ := filter_eq_some_iff.mp present
  have checks : node.currentIncarnation = row.nodeIncarnation ∧ isGateway s.env node = true := by
    simpa using checks
  obtain ⟨isNode, nodeKey⟩ := get_mem found
  have keyFacts : (key.nodeId = row.nodeId ∧ key.generation = scan.keyGeneration) ∧ key.active = true := by
    simpa using find?_some active
  exact ⟨isRow, attested, ⟨node, mem_filter.mpr ⟨isNode, checks.2⟩, nodeKey, checks.1⟩,
    mem_of_find?_eq_some active, keyFacts.1.1, keyFacts.1.2, keyFacts.2⟩

theorem currentAttestations_sublist (s : Store) (c : OperationId) :
    ((currentAttestations s c).map Prod.fst).Sublist (participantsOf s c) := by
  show ((filterMap _ (participantsOf s c)).map Prod.fst).Sublist (participantsOf s c)
  induction participantsOf s c with
  | nil => exact Sublist.refl _
  | cons row rest ih =>
    rw [filterMap_cons]
    split
    · exact ih.cons row
    rename_i joined found
    obtain ⟨scan, _, found⟩ := bind_eq_some_iff.mp found
    obtain ⟨node, _, found⟩ := bind_eq_some_iff.mp found
    obtain ⟨key, _, rfl⟩ := map_eq_some_iff.mp found
    exact ih.cons_cons row

/-- The participants of an authorised cleanup are the gateways at that instant: as many rows
as gateways have passed the join, and the join gives one row to each. -/
theorem gateways_attested {command : TerminalCommand} (proposals : Proposals s)
    (pending : Pending s command intent) (authority : Authority scheme s command intent) (node : NodeId) :
    (∃ row ∈ gateways s.env, row.nodeId = node) ↔ AttestedBy scheme s intent node := by
  obtain ⟨isIntent, key⟩ := get_mem pending.found
  have rows := currentAttestations_sublist s command.cleanupOperationId
  have counted : (participantsOf s command.cleanupOperationId).length = intent.requiredAttestationCount :=
    key ▸ proposals.counted intent isIntent
  have nodup : (((currentAttestations s command.cleanupOperationId).map Prod.fst).map
      Participant.nodeId).Nodup :=
    (nodup_second proposals.participants command.cleanupOperationId).sublist (rows.map _)
  have attested : ∀ row scan key, (row, scan, key) ∈ currentAttestations s command.cleanupOperationId →
      AttestedBy scheme s intent row.nodeId := by
    intro row scan key' mem
    obtain ⟨isRow, isScan, ⟨present, isNode, nodeKey, current⟩, isKey, owner, generation, active⟩ :=
      mem_currentAttestations mem
    obtain ⟨stored, cleanup⟩ := mem_filter.mp isRow
    have cleanup : row.cleanupOperationId = command.cleanupOperationId := by simpa using cleanup
    have checks := authority.checked row scan key' mem
    exact ⟨row, stored, scan, present, (mem_filter.mp isNode).1, key', isKey, cleanup.trans key.symm,
      rfl, isScan, checks.subject.trans pending.subject.symm, nodeKey, current, owner, generation, active,
      pending.revision ▸ checks.signed⟩
  constructor
  · rintro ⟨present, isGateway, rfl⟩
    -- every gateway is the node of a joined row, since these are as many and distinct
    have sub : ∀ id ∈ ((currentAttestations s command.cleanupOperationId).map Prod.fst).map
        Participant.nodeId, id ∈ (gateways s.env).map Node.nodeId := by
      intro id mem
      obtain ⟨row, inRows, rfl⟩ := mem_map.mp mem
      obtain ⟨⟨row, scan, key'⟩, joined, rfl⟩ := mem_map.mp inRows
      obtain ⟨_, _, ⟨present, isNode, nodeKey, _⟩, _⟩ := mem_currentAttestations joined
      exact mem_map.mpr ⟨present, isNode, nodeKey⟩
    have length : ((gateways s.env).map Node.nodeId).length ≤
        (((currentAttestations s command.cleanupOperationId).map Prod.fst).map
          Participant.nodeId).length := by
      rw [length_map, length_map, length_map, authority.counted, ← authority.gateways]
      exact le_refl _
    have listed := mem_of_nodup_of_length nodup sub length present.nodeId (mem_map_of_mem isGateway)
    obtain ⟨row, inRows, same⟩ := mem_map.mp listed
    obtain ⟨⟨row, scan, key'⟩, joined, rfl⟩ := mem_map.mp inRows
    exact same ▸ attested row scan key' joined
  · rintro ⟨row, stored, scan, present, isNode, key', isKey, cleanup, rfl, facts⟩
    -- every participant is a joined row, since the join keeps them all
    have all : (currentAttestations s command.cleanupOperationId).map Prod.fst =
        participantsOf s command.cleanupOperationId := by
      refine rows.eq_of_length ?_
      rw [length_map, authority.counted, counted]
    have isRow : row ∈ participantsOf s command.cleanupOperationId :=
      mem_filter.mpr ⟨stored, by simp [cleanup, key]⟩
    rw [← all] at isRow
    obtain ⟨⟨row, scan', key''⟩, joined, rfl⟩ := mem_map.mp isRow
    obtain ⟨_, _, ⟨present', isGateway, nodeKey, _⟩, _⟩ := mem_currentAttestations joined
    exact ⟨present', isGateway, nodeKey⟩

/-! ## Proposals and authorisations in a history -/

/-- The entry proposes the cleanup: before it there is no such proposal. -/
def Proposes (scheme : SignatureScheme) (before : List Entry) (entry : Entry) (c : OperationId) : Prop :=
  intent? (run scheme before) c = none ∧ (intent? (run scheme (before ++ [entry])) c).isSome

/-- The entry authorises the cleanup: it finds the proposal pending. -/
def Authorises (scheme : SignatureScheme) (before : List Entry) (entry : Entry) (c : OperationId)
    (intent : Intent) : Prop :=
  intent? (run scheme before) c = some intent ∧ intent.state = .pending ∧ ∃ op rev at',
    intent? (run scheme (before ++ [entry])) c = some { intent with state := .authorised op rev at' }

/-- Between its proposal and its authorisation the retained roots of the volume have not changed,
and at the authorisation exactly the gateways have attested. -/
def FairlyAuthorised (scheme : SignatureScheme) (history : List Entry) (c : OperationId) : Prop :=
  ∃ proposal proposes authorisation authorises intent,
    proposal ++ [proposes] <+: authorisation ∧ authorisation ++ [authorises] <+: history ∧
    Proposes scheme proposal proposes c ∧ Authorises scheme authorisation authorises c intent ∧
    retainedRoots (run scheme proposal).env intent.volumeId =
      retainedRoots (run scheme authorisation).env intent.volumeId ∧
    ∀ node, (∃ row ∈ gateways (run scheme authorisation).env, row.nodeId = node) ↔
      AttestedBy scheme (run scheme authorisation) intent node

/-- The recorded attempt is the permit of an issued command, for a stored item. -/
def IssuedFor (scheme : SignatureScheme) (history : List Entry) (attempt : Attempt) (item : Item) : Prop :=
  item ∈ (run scheme history).items ∧ item.cleanupOperationId = attempt.cleanupOperationId ∧
  item.itemIndex = attempt.itemIndex ∧ ∃ before entry command,
    before ++ [entry] <+: history ∧ entry.command = .issue command ∧ command.permit = attempt.permit item

structure Provenance (scheme : SignatureScheme) (history : List Entry) : Prop where
  proposed : ∀ c intent, intent? (run scheme history) c = some intent → ∃ before entry,
    before ++ [entry] <+: history ∧ Proposes scheme before entry c ∧
    (rootSummary (run scheme before).env intent.volumeId 0).setDigest = intent.retainedRootSetDigest
  authorised : ∀ c, AuthorisedIn (run scheme history) c → FairlyAuthorised scheme history c
  issued : ∀ attempt ∈ (run scheme history).attempts, ∃ item, IssuedFor scheme history attempt item

section

variable {scheme : SignatureScheme} {s s' : Store} {context : CommandContext} {revision : Revision}
  {command : Command}

section

variable (done : Effect scheme s context revision command s')

include done

/-- Only a proposal brings a new intent, and its set digest is that of the present roots. -/
theorem digest_of_new (absent : intent? s c = none) (found : intent? s' c = some intent) :
    (rootSummary s.env intent.volumeId 0).setDigest = intent.retainedRootSetDigest := by
  have unchanged : s'.intents = s.intents →
      (rootSummary s.env intent.volumeId 0).setDigest = intent.retainedRootSetDigest := by
    intro same
    unfold intent? at absent found
    rw [same, absent] at found
    cases found
  cases done with
  | proposed command fresh roots =>
    unfold intent? at absent found
    rw [get_append, absent] at found
    dsimp only at found
    split at found
    · cases found
      exact roots
    · cases found
  | authorised command pendingIntent pending authority =>
    rw [intent?_terminate, absent] at found
    cases found
  | cancelled command pendingIntent pending =>
    rw [intent?_terminate, absent] at found
    cases found
  | completed _ _ _ _ _ _ _ _ _ summed =>
    obtain ⟨_, rfl⟩ := completeSummaryIfReady_frame summed
    exact unchanged rfl
  | confirmed _ _ _ _ _ _ summed =>
    obtain ⟨_, rfl⟩ := reclaimSummaryIfReady_frame summed
    exact unchanged rfl
  | _ => exact unchanged rfl

/-- Only an authorisation makes a cleanup authorised, and it finds it pending. -/
theorem authority_of_new (before : ¬ AuthorisedIn s c) (after : AuthorisedIn s' c) :
    ∃ terminal intent, terminal.cleanupOperationId = c ∧ Pending s terminal intent ∧
      Authority scheme s terminal intent ∧
      ∃ op rev at', intent? s' c = some { intent with state := .authorised op rev at' } := by
  obtain ⟨intent, op, rev, at', found, state⟩ := after
  have unchanged : s'.intents = s.intents → False := by
    intro same
    unfold intent? at found
    rw [same] at found
    exact before ⟨intent, op, rev, at', found, state⟩
  cases done with
  | proposed command fresh roots =>
    unfold intent? at found
    rw [get_append] at found
    split at found
    · rename_i old isOld
      cases found
      exact absurd ⟨intent, op, rev, at', isOld, state⟩ before
    · split at found
      · cases found
        cases state
      · cases found
  | authorised command pendingIntent pending authority =>
    have read := found
    rw [intent?_terminate] at found
    obtain ⟨old, isOld, same⟩ := map_eq_some_iff.mp found
    split at same
    · rename_i named
      simp only [Bool.and_eq_true, beq_iff_eq] at named
      have isC : command.cleanupOperationId = c := named.1.1.1.symm.trans (get_mem isOld).2
      have isPending : old = pendingIntent := by
        have other := pending.found
        rw [isC, isOld] at other
        exact some.inj other
      subst isPending same
      exact ⟨command, old, isC, pending, authority, _, _, _, read⟩
    · subst same
      exact absurd ⟨old, op, rev, at', isOld, state⟩ before
  | cancelled command pendingIntent pending =>
    rw [intent?_terminate] at found
    obtain ⟨old, isOld, same⟩ := map_eq_some_iff.mp found
    split at same
    · subst same
      cases state
    · subst same
      exact absurd ⟨old, op, rev, at', isOld, state⟩ before
  | completed _ _ _ _ _ _ _ _ _ summed =>
    obtain ⟨_, rfl⟩ := completeSummaryIfReady_frame summed
    exact (unchanged rfl).elim
  | confirmed _ _ _ _ _ _ summed =>
    obtain ⟨_, rfl⟩ := reclaimSummaryIfReady_frame summed
    exact (unchanged rfl).elim
  | _ => exact (unchanged rfl).elim

/-- A new attempt is the permit of the command, for an item that has not completed. -/
theorem permit_of_new {attempt : Attempt} (mem : attempt ∈ s'.attempts) (new : attempt ∉ s.attempts) :
    ∃ issue item, command = .issue issue ∧ item ∈ s.items ∧
      item.cleanupOperationId = attempt.cleanupOperationId ∧ item.itemIndex = attempt.itemIndex ∧
      issue.permit = attempt.permit item := by
  cases done with
  | issued command sealed open' sealedItem follows permit lasting =>
    rcases mem_snoc.mp mem with old | rfl
    · exact absurd old new
    · exact ⟨command, sealed.item, rfl, sealedItem.mem, sealedItem.cleanup, sealedItem.at', permit⟩
  | completed _ _ _ _ _ _ _ _ _ summed =>
    obtain ⟨_, rfl⟩ := completeSummaryIfReady_frame summed
    exact absurd mem new
  | confirmed _ _ _ _ _ _ summed =>
    obtain ⟨_, rfl⟩ := reclaimSummaryIfReady_frame summed
    exact absurd mem new
  | _ => exact absurd mem new

end

end

theorem FairlyAuthorised.extend {history longer : List Entry} (h : FairlyAuthorised scheme history c)
    (more : history <+: longer) : FairlyAuthorised scheme longer c := by
  obtain ⟨proposal, proposes, authorisation, authorises, intent, first, second, facts⟩ := h
  exact ⟨proposal, proposes, authorisation, authorises, intent, first, second.trans more, facts⟩

theorem provenance_run (scheme : SignatureScheme) (history : List Entry) : Provenance scheme history := by
  induction history using reverseRecOn with
  | nil =>
    refine ⟨nofun, fun _ h => ?_, nofun⟩
    obtain ⟨_, _, _, _, found, _⟩ := h
    cases found
  | append_singleton history entry ih =>
    have more : history <+: history ++ [entry] := prefix_append _ _
    have stored := run_snoc scheme history entry
    have grows := grows_step scheme (run scheme history) entry
    rw [← stored] at grows
    have taken := step_cases scheme (run scheme history) entry
    -- an intent, an authority or an attempt that is not new is the hypothesis'
    refine ⟨fun c intent found => ?_, fun c after => ?_, fun attempt mem => ?_⟩
    · cases old : intent? (run scheme history) c with
      | some before =>
        obtain ⟨state, found'⟩ := grows.kept c before old
        rw [found] at found'
        obtain ⟨earlier, proposes, inHistory, facts⟩ := ih.proposed c before old
        cases found'
        exact ⟨earlier, proposes, inHistory.trans more, facts⟩
      | none =>
        refine ⟨history, entry, prefix_rfl, ⟨old, by simp [found]⟩, ?_⟩
        rw [stored] at found
        obtain ⟨next, done, same⟩ := taken.resolve_left fun same => by
          simp [same, old] at found
        rw [same] at found
        exact digest_of_new done old found
    · by_cases before : AuthorisedIn (run scheme history) c
      · exact (ih.authorised c before).extend more
      rw [stored] at after
      obtain ⟨next, done, same⟩ := taken.resolve_left fun same => before (same ▸ after)
      rw [same] at after stored
      obtain ⟨terminal, intent, rfl, pending, authority, op, rev, at', found⟩ :=
        authority_of_new done before after
      obtain ⟨proposal, proposes, inHistory, isProposal, digest⟩ := ih.proposed _ intent pending.found
      obtain ⟨current, roots⟩ := authority.roots
      refine ⟨proposal, proposes, history, entry, intent, inHistory, prefix_rfl, isProposal,
        ⟨pending.found, pending.pending, op, rev, at', ?_⟩, setDigest_inj (digest.trans roots.symm),
        gateways_attested (consistent_run scheme history).proposals pending authority⟩
      rw [stored]
      exact found
    · by_cases old : attempt ∈ (run scheme history).attempts
      · obtain ⟨item, isItem, cleanup, index, before, issuing, command, inHistory, facts⟩ :=
          ih.issued attempt old
        exact ⟨item, grows.items.subset isItem, cleanup, index, before, issuing, command,
          inHistory.trans more, facts⟩
      · rw [stored] at mem
        obtain ⟨next, done, same⟩ := taken.resolve_left fun same => old (same ▸ mem)
        rw [same] at mem
        obtain ⟨command, item, isIssue, isItem, cleanup, index, permit⟩ := permit_of_new done mem old
        exact ⟨item, grows.items.subset isItem, cleanup, index, history, entry, command,
          prefix_rfl, isIssue, permit⟩

/-! ## No permit after completion -/

theorem attemptsOf_effect {s' : Store} {context : CommandContext} {revision : Revision}
    {command : Command} (done : Effect scheme s context revision command s') {index : Nat}
    (past : completed s c index) : attemptsOf s' c index = attemptsOf s c index := by
  cases done with
  | issued command sealed open' sealedItem follows permit lasting =>
    rw [attemptsOf_issued]
    split
    · rename_i same
      obtain ⟨rfl, rfl⟩ := same
      have past : completed s command.cleanupOperationId command.itemIndex = true := past
      rw [past] at open'
      cases open'
    · rfl
  | completed _ _ _ _ _ _ _ _ _ summed =>
    obtain ⟨_, rfl⟩ := completeSummaryIfReady_frame summed
    rfl
  | confirmed _ _ _ _ _ _ summed =>
    obtain ⟨_, rfl⟩ := reclaimSummaryIfReady_frame summed
    rfl
  | _ => rfl

theorem completed_grows {s' : Store} (grows : Grows s s') {index : Nat}
    (past : completed s c index) : completed s' c index = true := by
  obtain ⟨row, mem, isRow⟩ := any_eq_true.mp past
  exact any_eq_true.mpr ⟨row, grows.completions.subset mem, isRow⟩

/-- A completed item gets no further permit. -/
theorem attemptsOf_run (scheme : SignatureScheme) (before after : List Entry) {index : Nat}
    (past : completed (run scheme before) c index) :
    attemptsOf (run scheme (before ++ after)) c index = attemptsOf (run scheme before) c index := by
  induction after using reverseRecOn with
  | nil => rw [append_nil]
  | append_singleton after entry ih =>
    rw [← append_assoc, run_snoc, ← ih]
    rcases step_cases scheme (run scheme (before ++ after)) entry with same | ⟨next, done, same⟩
    · rw [same]
    · rw [same]
      exact attemptsOf_effect done (completed_grows (grows_run scheme before after) past)

/-! ## Items and permits -/

instance : Std.Symm fun old new : Item => itemsConflict new old = false where
  symm a b h := by
    simp only [itemsConflict, Bool.or_eq_false_iff, Bool.and_eq_false_iff, beq_eq_false_iff_ne, ne_eq] at h ⊢
    simp only [eq_comm] at h ⊢
    exact h

theorem Listed.eq_of_conflict (h : Listed s) {a b : Item} (ha : a ∈ s.items) (hb : b ∈ s.items)
    (conflict : itemsConflict a b) : a = b := by
  by_contra differs
  rw [h.apart.forall hb ha (differs ·.symm)] at conflict
  cases conflict

/-- All items of a sealed inventory satisfy `p` exactly when the rows that witness `p`, one for
each index, are as many as the inventory has items. -/
theorem counts_iff_every (h : Listed s) {indexes : List Nat} (nodup : indexes.Nodup)
    (inside : ∀ index ∈ indexes, SealedAt s c index) : Counts s c indexes.length ↔
      (∃ inventory, inventory? s c = some inventory ∧ inventory.sealed.isSome) ∧
        ∀ item ∈ itemsOf s c, item.itemIndex ∈ indexes := by
  have numbered := h.numbered c
  constructor
  · rintro ⟨inventory, found, isSealed, full⟩
    have count : itemCountOf s c = indexes.length := by
      rw [itemCountOf, found]
      exact (h.full c inventory found isSealed).1.trans full
    refine ⟨⟨inventory, found, isSealed⟩, fun item mem => ?_⟩
    have sub : ∀ index ∈ indexes, index ∈ range indexes.length := by
      intro index isIndex
      exact mem_range.mpr (Counts.bounds ⟨inventory, found, isSealed, full⟩ (inside index isIndex))
    refine mem_of_nodup_of_length nodup sub (by rw [length_range]) item.itemIndex ?_
    rw [← count, ← numbered]
    exact mem_map_of_mem mem
  · rintro ⟨⟨inventory, found, isSealed⟩, every⟩
    refine ⟨inventory, found, isSealed, ?_⟩
    have count : itemCountOf s c = inventory.expectedItemCount := by
      rw [itemCountOf, found]
      exact (h.full c inventory found isSealed).1
    rw [count] at numbered
    have low : (range inventory.expectedItemCount).length ≤ indexes.length := by
      refine length_le_of_nodup nodup_range fun index mem => ?_
      rw [← numbered] at mem
      obtain ⟨item, isItem, rfl⟩ := mem_map.mp mem
      exact every item isItem
    have high : indexes.length ≤ (range inventory.expectedItemCount).length := by
      refine length_le_of_nodup nodup fun index mem => ?_
      exact mem_range.mpr (Counts.bounds ⟨inventory, found, isSealed, rfl⟩ (inside index mem))
    rw [length_range] at low high
    omega

/-! ## Exactness -/

/-- The permit may be used from its issue until it expires. -/
def ValidAt (attempt : Attempt) (instant : UnixMicros) : Prop :=
  attempt.issuedAt ≤ instant ∧ instant < attempt.expiresAt

/-- The inventory of the cleanup is sealed and each of its items is in the state asked for. -/
def EverySealed (s : Store) (c : OperationId) (done : Item → Prop) : Prop :=
  (∃ inventory, inventory? s c = some inventory ∧ inventory.sealed.isSome) ∧
    ∀ item ∈ itemsOf s c, done item

structure Exact (scheme : SignatureScheme) (history : List Entry) : Prop where
  /-- Every permit belongs to a cleanup that was authorised, over unchanged roots and by exactly
  the gateways. -/
  authorised : ∀ attempt ∈ (run scheme history).attempts,
    FairlyAuthorised scheme history attempt.cleanupOperationId
  /-- The cleanup is never cancelled. -/
  uncancelled : ∀ attempt ∈ (run scheme history).attempts, ∀ before, before <+: history →
    ∀ intent ∈ (run scheme before).intents, intent.cleanupOperationId = attempt.cleanupOperationId →
    ∀ op rev at', intent.state ≠ .cancelled op rev at'
  /-- The permit names exactly one item, by its index and by its place, of a sealed inventory. -/
  named : ∀ attempt ∈ (run scheme history).attempts,
    (∃ inventory, inventory? (run scheme history) attempt.cleanupOperationId = some inventory ∧
      inventory.sealed.isSome) ∧
    ∃ item, IssuedFor scheme history attempt item ∧
      ∀ other ∈ itemsOf (run scheme history) attempt.cleanupOperationId,
        (other.itemIndex = attempt.itemIndex ∨ (other.targetId = item.targetId ∧
          other.targetGeneration = item.targetGeneration ∧ other.shard = item.shard)) → other = item
  /-- The attempts of an item are numbered 1, 2, 3, …, -/
  numbered : ∀ c index, (attemptsOf (run scheme history) c index).map Attempt.attemptSequence =
    range' 1 (attemptsOf (run scheme history) c index).length
  /-- their epochs never decrease, -/
  epochs : ∀ c index, (attemptsOf (run scheme history) c index).Pairwise fun earlier later =>
    earlier.authorityEpoch ≤ later.authorityEpoch
  /-- two of one epoch are never valid together, -/
  disjoint : ∀ c index, (attemptsOf (run scheme history) c index).Pairwise fun earlier later =>
    earlier.authorityEpoch = later.authorityEpoch →
    ∀ instant, ¬ (ValidAt earlier instant ∧ ValidAt later instant)
  /-- and none is added once the item has completed. -/
  closed : ∀ before after, history = before ++ after → ∀ c index,
    completed (run scheme before) c index = true →
    attemptsOf (run scheme history) c index = attemptsOf (run scheme before) c index
  /-- An item completes at most once, and by an issued permit. -/
  oneCompletion : Keyed (fun row => (row.cleanupOperationId, row.itemIndex)) (run scheme history).completions
  completionPermitted : ∀ row ∈ (run scheme history).completions,
    AnswersPermit (run scheme history) row.cleanupOperationId row.itemIndex row.permitAttemptSequence
      row.receipt
  /-- An item is reclaimed at most once, and with the receipt of an issued permit. -/
  oneReclamation : Keyed (fun row => (row.cleanupOperationId, row.itemIndex))
    (run scheme history).reclamations
  reclamationPermitted : ∀ row ∈ (run scheme history).reclamations, ∃ sequence,
    AnswersPermit (run scheme history) row.cleanupOperationId row.itemIndex sequence row.receipt.tombstone
  /-- The completion summary is there exactly when every sealed item is complete, -/
  completionSummary : ∀ c, (∃ row ∈ (run scheme history).completionSummaries, row.cleanupOperationId = c) ↔
    EverySealed (run scheme history) c fun item => completed (run scheme history) c item.itemIndex = true
  /-- and the reclamation summary exactly when every one is reclaimed. -/
  reclamationSummary : ∀ c,
    (∃ row ∈ (run scheme history).reclamationSummaries, row.cleanupOperationId = c) ↔
    EverySealed (run scheme history) c fun item =>
      ∃ row ∈ (run scheme history).reclamations,
        row.cleanupOperationId = c ∧ row.itemIndex = item.itemIndex

section

variable {scheme : SignatureScheme} {s : Store}

theorem intent?_of_prefix {before history : List Entry} (isPrefix : before <+: history)
    (mem : intent ∈ (run scheme before).intents) (decided : intent.state ≠ .pending) :
    intent? (run scheme history) intent.cleanupOperationId = some intent := by
  obtain ⟨after, rfl⟩ := isPrefix
  refine (grows_run scheme before after).decided _ _ ?_ decided
  exact get_of_mem (consistent_run scheme before).proposals.keyed mem

theorem Precedes.disjoint {earlier later : Attempt} (h : Precedes earlier later)
    (same : earlier.authorityEpoch = later.authorityEpoch) (instant : UnixMicros) :
    ¬ (ValidAt earlier instant ∧ ValidAt later instant) := by
  rintro ⟨first, second⟩
  have order := h.2 same.symm
  exact absurd (first.2.trans_le order) (not_lt.mpr second.1)

theorem everySealed_completed (h : Outcomes s) (listed : Listed s) (c : OperationId) :
    (∃ row ∈ s.completionSummaries, row.cleanupOperationId = c) ↔
      EverySealed s c fun item => completed s c item.itemIndex = true := by
  have counts := counts_iff_every listed (nodup_second h.completions c) fun index mem => by
    obtain ⟨row, stored, key, rfl⟩ := mem_second.mp mem
    exact key ▸ h.sealed row stored
  rw [length_map] at counts
  refine (h.summed c).trans (counts.trans (and_congr_right fun _ => forall₂_congr fun item _ => ?_))
  simp [completed, and_assoc]

theorem everySealed_reclaimed (h : Outcomes s) (listed : Listed s) (c : OperationId) :
    (∃ row ∈ s.reclamationSummaries, row.cleanupOperationId = c) ↔
      EverySealed s c fun item => ∃ row ∈ s.reclamations,
        row.cleanupOperationId = c ∧ row.itemIndex = item.itemIndex := by
  have counts := counts_iff_every listed (nodup_second h.reclamations c) fun index mem => by
    obtain ⟨row, stored, key, rfl⟩ := mem_second.mp mem
    obtain ⟨completion, isStored, cleanup, same, _⟩ := h.tombstoned row stored
    exact same ▸ key ▸ cleanup ▸ h.sealed completion isStored
  rw [length_map] at counts
  refine (h.reclaimed c).trans (counts.trans (and_congr_right fun _ => forall₂_congr fun item _ => ?_))
  simp [and_assoc]

end

/-- Removal authority is exact after every sequence of committed entries. -/
theorem removal_authority_exact (scheme : SignatureScheme) (history : List Entry) :
    Exact scheme history := by
  have consistent := consistent_run scheme history
  have origin := provenance_run scheme history
  exact {
    authorised := fun attempt mem =>
      origin.authorised _ (consistent.permits.authorised attempt mem)
    uncancelled := by
      intro attempt mem before isPrefix intent isIntent cleanup op rev at' cancelled
      have kept := intent?_of_prefix isPrefix isIntent (by simp [cancelled])
      obtain ⟨present, _, _, _, found, authorised⟩ := consistent.permits.authorised attempt mem
      rw [cleanup, found] at kept
      cases kept
      rw [authorised] at cancelled
      cases cancelled
    named := by
      intro attempt mem
      obtain ⟨inventory, mark, found, isSealed, _⟩ := consistent.permits.sealed attempt mem
      obtain ⟨item, issued⟩ := origin.issued attempt mem
      refine ⟨⟨inventory, found, by simp [isSealed]⟩, item, issued, fun other isOther same => ?_⟩
      obtain ⟨stored, key⟩ := mem_filter.mp isOther
      have key : other.cleanupOperationId = attempt.cleanupOperationId := by simpa using key
      refine consistent.listed.eq_of_conflict stored issued.1 ?_
      rcases same with index | ⟨target, generation, shard⟩
      · simp [itemsConflict, key, issued.2.1, index, issued.2.2.1]
      · simp [itemsConflict, key, issued.2.1, target, generation, shard]
    numbered := consistent.permits.numbered
    epochs := fun c index => (consistent.permits.ordered c index).imp (·.1)
    disjoint := fun c index => (consistent.permits.ordered c index).imp (·.disjoint)
    closed := by
      rintro before after rfl c index past
      exact attemptsOf_run scheme before after past
    oneCompletion := consistent.outcomes.completions
    completionPermitted := consistent.outcomes.permitted
    oneReclamation := consistent.outcomes.reclamations
    reclamationPermitted := by
      intro row mem
      obtain ⟨completion, stored, cleanup, index, receipt⟩ := consistent.outcomes.tombstoned row mem
      have permitted := consistent.outcomes.permitted completion stored
      rw [cleanup, index, ← receipt] at permitted
      exact ⟨_, permitted⟩
    completionSummary := everySealed_completed consistent.outcomes consistent.listed
    reclamationSummary := everySealed_reclaimed consistent.outcomes consistent.listed }

end MeshSpan.Cleanup
