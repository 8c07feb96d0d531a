import MeshSpan.Cleanup.Commands

/- What an accepted command has changed, and which of its checks later proofs need.

   `Effect` has one constructor for each way a command can succeed. Each names the new
   store and keeps the facts that the command has verified; `effect_of_execute` shows
   that nothing else can happen. The invariants look only at `Effect`. -/

namespace MeshSpan.Cleanup

open Rows Repository List Except

/-! ## Reads -/

variable {s : Store} {c : OperationId}

theorem loadAuthorisedManifest_ok {cr ar : Revision} {manifest : Digest}
    (h : loadAuthorisedManifest s c cr ar = .ok manifest) :
    ∃ intent op at', intent? s c = some intent ∧ intent.state = .authorised op ar at' := by
  unfold loadAuthorisedManifest at h
  split at h
  · cases h
  rename_i intent found
  split at h
  · rename_i op revision at' state
    obtain ⟨same, h⟩ := admit_ok.mp h
    have equal : revision = ar := by simpa using (Bool.and_eq_true_iff.mp same).2
    exact ⟨intent, op, at', found, equal ▸ state⟩
  · cases h

/-- What `sealed_item` returns: an item of an inventory that is sealed and complete. -/
structure SealedItemOf (s : Store) (c : OperationId) (index : Nat) (sealed : SealedItem) : Prop where
  inventory : ∃ inventory mark, inventory? s c = some inventory ∧ inventory.sealed = some mark ∧
    index < inventory.expectedItemCount
  authorised : ∃ intent op rev at', intent? s c = some intent ∧ intent.state = .authorised op rev at'
  mem : sealed.item ∈ s.items
  cleanup : sealed.item.cleanupOperationId = c
  at' : sealed.item.itemIndex = index

variable {index : Nat}

theorem sealedItem_ok {sealed : SealedItem}
    (h : sealedItem s c index = .ok sealed) : SealedItemOf s c index sealed := by
  unfold sealedItem at h
  split at h
  · cases h
  rename_i inventory found
  split at h
  · cases h
  rename_i mark isSealed
  obtain ⟨manifest, loaded, _, counted, h⟩ := bind₂_eq_ok.mp h
  split at h
  · cases h
  rename_i item read
  replace h := passed h
  cases h
  have listed := mem_filter.mp (mem_of_find?_eq_some read)
  obtain ⟨intent, op, at', isIntent, state⟩ := loadAuthorisedManifest_ok loaded
  have inside := (Bool.and_eq_true_iff.mp (require_ok.mp counted)).2
  exact {
    inventory := ⟨inventory, mark, found, isSealed, of_decide_eq_true inside⟩
    authorised := ⟨intent, op, _, at', isIntent, state⟩
    mem := listed.1
    cleanup := by simpa using listed.2
    at' := by simpa using find?_some read }

theorem validateAttempt_ok {attempt found : Attempt} (h : validateAttempt attempt = .ok found) :
    found = attempt := by
  replace h := passed h
  exact (ok.inj h).symm

theorem exactAttempt_ok {sequence : Nat} {attempt : Attempt}
    {item : Item} (h : exactAttempt s c index sequence = .ok (attempt, item)) :
    attempt ∈ s.attempts ∧ attempt.cleanupOperationId = c ∧ attempt.itemIndex = index ∧
      attempt.attemptSequence = sequence ∧ item ∈ s.items ∧ item.cleanupOperationId = c ∧
      item.itemIndex = index := by
  obtain ⟨sealed, read, h⟩ := bind_eq_ok.mp h
  have facts := sealedItem_ok read
  split at h
  · cases h
  rename_i stored found
  obtain ⟨checked, valid, h⟩ := bind_eq_ok.mp h
  cases h
  rw [validateAttempt_ok valid]
  have listed := mem_filter.mp (mem_of_find?_eq_some found)
  have keys : stored.cleanupOperationId = c ∧ stored.itemIndex = index := by simpa using listed.2
  exact ⟨listed.1, keys.1, keys.2, by simpa using find?_some found, facts.mem, facts.cleanup,
    facts.at'⟩

theorem checkCompletion_ok {row found : Completion} (h : checkCompletion s row = .ok found) :
    found = row := by
  obtain ⟨-, -, _, _, -, -, h⟩ := bind₃_eq_ok.mp h
  exact (ok.inj h).symm

theorem checkReclamation_ok {row found : Reclamation}
    (h : checkReclamation s row = .ok found) : found = row := by
  obtain ⟨-, -, completion, _, h⟩ := bind₂_eq_ok.mp h
  cases completion with
  | none => cases h
  | some completion =>
    replace h := passed h
    exact (ok.inj h).symm

theorem loadCompletion_ok {found : Option Completion}
    (h : loadCompletion s c index = .ok found) : found = completion? s c index := by
  unfold loadCompletion at h
  split at h
  · rename_i none
    rw [none]
    exact (ok.inj h).symm
  · rename_i row read
    obtain ⟨checked, ok, h⟩ := bind_eq_ok.mp h
    rw [read, ← checkCompletion_ok ok]
    exact (Except.ok.inj h).symm

theorem loadReclamation_ok {found : Option Reclamation}
    (h : loadReclamation s c index = .ok found) : found = reclamation? s c index := by
  unfold loadReclamation at h
  split at h
  · rename_i none
    rw [none]
    exact (ok.inj h).symm
  · rename_i row read
    obtain ⟨checked, ok, h⟩ := bind_eq_ok.mp h
    rw [read, ← checkReclamation_ok ok]
    exact (Except.ok.inj h).symm

/-! ## Summaries -/

variable {s' : Store} {context : CommandContext} {revision : Revision} {t : Store}
  {command : TerminalCommand}

/-- Nothing is written before the last completion; the summary is written with it. -/
theorem completeSummaryIfReady_ok (h : completeSummaryIfReady t context c revision = .ok s') :
    ∃ inventory mark, inventory? t c = some inventory ∧ inventory.sealed = some mark ∧
      (((completionsOf t c).length < inventory.expectedItemCount ∧ s' = t) ∨
        ((completionsOf t c).length = inventory.expectedItemCount ∧ ∃ row : Summary,
          row.cleanupOperationId = c ∧ row.itemCount = inventory.expectedItemCount ∧
          (∀ old ∈ t.completionSummaries, old.cleanupOperationId ≠ c) ∧
          s' = { t with completionSummaries := t.completionSummaries ++ [row] })) := by
  unfold completeSummaryIfReady at h
  split at h
  · cases h
  rename_i inventory found
  split at h
  · cases h
  rename_i mark isSealed
  refine ⟨inventory, mark, found, isSealed, ?_⟩
  obtain ⟨⟨count, digest⟩, counted, h⟩ := bind_eq_ok.mp h
  obtain ⟨rows, checked, counted⟩ := bind_eq_ok.mp counted
  cases mapM_check (fun _ _ => checkCompletion_ok) checked
  cases counted
  dsimp only at h
  split at h
  · rename_i short
    cases h
    exact .inl ⟨short, rfl⟩
  · obtain ⟨_, full, summaries, inserted, h⟩ := bind₂_eq_ok.mp h
    cases h
    obtain ⟨rfl, free⟩ := insertUnique_ok inserted
    have full : (completionsOf t c).length = inventory.expectedItemCount := by simpa using full
    refine .inr ⟨full, _, rfl, full, fun old mem same => ?_, rfl⟩
    have apart := free old mem
    simp [summaryConflict, same] at apart

theorem reclaimSummaryIfReady_ok (h : reclaimSummaryIfReady t context c revision = .ok s') :
    (get Summary.cleanupOperationId c t.completionSummaries = none ∧ s' = t) ∨
      ∃ terminal, get Summary.cleanupOperationId c t.completionSummaries = some terminal ∧
        (((reclamationsOf t c).length < terminal.itemCount ∧ s' = t) ∨
          ((reclamationsOf t c).length = terminal.itemCount ∧ ∃ row : Summary,
            row.cleanupOperationId = c ∧
            s' = { t with reclamationSummaries := t.reclamationSummaries ++ [row] })) := by
  unfold reclaimSummaryIfReady at h
  split at h
  · rename_i none
    cases h
    exact .inl ⟨none, rfl⟩
  · rename_i terminal found
    refine .inr ⟨terminal, found, ?_⟩
    obtain ⟨⟨count, bytes, digest⟩, counted, h⟩ := bind_eq_ok.mp h
    obtain ⟨rows, checked, counted⟩ := bind_eq_ok.mp counted
    cases mapM_check (fun _ _ => checkReclamation_ok) checked
    replace counted := passed counted
    cases counted
    dsimp only at h
    split at h
    · rename_i short
      cases h
      exact .inl ⟨short, rfl⟩
    · obtain ⟨_, full, -, -, summaries, inserted, h⟩ := bind₃_eq_ok.mp h
      cases h
      obtain ⟨rfl, _⟩ := insertUnique_ok inserted
      exact .inr ⟨by simpa using full, _, rfl, rfl⟩

/-- A completion summary is all that summing up completions writes, -/
theorem completeSummaryIfReady_frame (h : completeSummaryIfReady t context c revision = .ok s') :
    ∃ rows, s' = { t with completionSummaries := rows } := by
  obtain ⟨_, _, _, _, ⟨_, rfl⟩ | ⟨_, row, _, _, _, rfl⟩⟩ := completeSummaryIfReady_ok h
  · exact ⟨s'.completionSummaries, rfl⟩
  · exact ⟨_, rfl⟩

/-- and a reclamation summary all that summing up reclamations writes. -/
theorem reclaimSummaryIfReady_frame (h : reclaimSummaryIfReady t context c revision = .ok s') :
    ∃ rows, s' = { t with reclamationSummaries := rows } := by
  rcases reclaimSummaryIfReady_ok h with ⟨_, rfl⟩ | ⟨_, _, ⟨_, rfl⟩ | ⟨_, row, _, rfl⟩⟩
  · exact ⟨s'.reclamationSummaries, rfl⟩
  · exact ⟨s'.reclamationSummaries, rfl⟩
  · exact ⟨_, rfl⟩

/-! ## Effects -/

/-- A stored attestation that has passed its second check: it is for the subject, its scan
result is the digest of the scan, and the active key accepts its signature. -/
structure Attests (scheme : SignatureScheme) (command : TerminalCommand) (row : Participant)
    (scan : SignedScan) (key : AttestationKey) : Prop where
  subject : scan.reachabilitySubjectDigest = command.reachabilitySubjectDigest
  result : reachabilityResultDigest scan.scanOperationId scan.scanRequestDigest scan.localRootsDigest =
    scan.scanResultDigest
  signed : scheme.verify key.verifyingKey
    (storedAttestation command.cleanupRevision row scan).signingDigest scan.signature = true

variable {scheme : SignatureScheme}

theorem validateStoredAttestation_ok {row : Participant} {scan : SignedScan} {key : AttestationKey}
    (h : validateStoredAttestation scheme command (row, scan, key) = .ok ()) :
    Attests scheme command row scan key := by
  obtain ⟨_, subject, _, result, _, _, signed⟩ := bind₃_eq_ok.mp h
  exact ⟨by simpa using subject, eq_of_beq (require_ok.mp result), require_ok.mp signed⟩

structure Pending (s : Store) (command : TerminalCommand) (intent : Intent) : Prop where
  found : intent? s command.cleanupOperationId = some intent
  revision : intent.revision = command.cleanupRevision
  subject : intent.reachabilitySubjectDigest = command.reachabilitySubjectDigest
  pending : intent.state = .pending

theorem loadPendingAuthority_ok {intent : Intent} (h : loadPendingAuthority s command = .ok intent) :
    Pending s command intent := by
  unfold loadPendingAuthority at h
  split at h
  · cases h
  rename_i found read
  cases h
  obtain ⟨found, checks⟩ := Option.filter_eq_some_iff.mp read
  have checks : (intent.revision = command.cleanupRevision ∧
      intent.reachabilitySubjectDigest = command.reachabilitySubjectDigest) ∧
      intent.state = .pending := by simpa using checks
  exact ⟨found, checks.1.1, checks.1.2, checks.2⟩

structure Authority (scheme : SignatureScheme) (s : Store) (command : TerminalCommand)
    (intent : Intent) : Prop where
  roots : ∃ current, (rootSummary s.env intent.volumeId current).setDigest = intent.retainedRootSetDigest
  gateways : currentParticipantCount s.env = intent.requiredAttestationCount
  checked : ∀ row scan key, (row, scan, key) ∈ currentAttestations s command.cleanupOperationId →
    Attests scheme command row scan key
  counted : (currentAttestations s command.cleanupOperationId).length = intent.requiredAttestationCount

/-- The latest attempt, if any, precedes the one that a permit command asks for. -/
structure Follows (s : Store) (context : CommandContext) (command : IssueVersionCleanupPermit) : Prop where
  first : (attemptsOf s command.cleanupOperationId command.itemIndex).getLast? = none →
    command.attemptSequence = 1
  next : ∀ previous,
    (attemptsOf s command.cleanupOperationId command.itemIndex).getLast? = some previous →
    command.attemptSequence = previous.attemptSequence + 1 ∧
    previous.authorityEpoch ≤ command.permit.authorityEpoch ∧
    (command.permit.authorityEpoch = previous.authorityEpoch → previous.expiresAt ≤ context.occurredAt)

inductive Effect (scheme : SignatureScheme) (s : Store) (context : CommandContext)
    (revision : Revision) : Command → Store → Prop where
  | keys (command : RegisterCleanupAttestationKey) (keys : List AttestationKey) :
    Effect scheme s context revision (.registerKey command) { s with keys := keys }
  | environment (env : Environment) :
    Effect scheme s context revision (.other env) { s with env := env }
  | proposed (command : ProposeVersionCleanup)
    (fresh : ∀ old ∈ s.intents, old.cleanupOperationId ≠ context.operationId)
    (roots : (rootSummary s.env command.volumeId command.reachabilityRevision).setDigest =
      command.retainedRootSetDigest) :
    Effect scheme s context revision (.propose command) { s with
      intents := s.intents ++
        [intentOf context command (currentParticipantCount s.env) revision]
      participants := s.participants ++ (gateways s.env).map fun node =>
        ⟨context.operationId, node.nodeId, node.currentIncarnation, none, revision⟩ }
  | attested (a : VersionCleanupAttestation) :
    Effect scheme s context revision (.attest a) { s with
      participants := amend (fun row => row.cleanupOperationId == a.cleanupOperationId &&
          row.nodeId == a.nodeId && row.nodeIncarnation == a.nodeIncarnation && row.attested.isNone)
        (fun row => { row with attested := some (signedScan context a), revision := revision })
        s.participants }
  | authorised (command : TerminalCommand) (intent : Intent) (pending : Pending s command intent)
    (authority : Authority scheme s command intent) :
    Effect scheme s context revision (.authorise command)
      (terminate s command (.authorised context.operationId revision context.occurredAt))
  | cancelled (command : TerminalCommand) (intent : Intent) (pending : Pending s command intent) :
    Effect scheme s context revision (.cancel command)
      (terminate s command (.cancelled context.operationId revision context.occurredAt))
  | appended (command : AppendVersionCleanupItems) (manifest digest : Digest) (current : Inventory)
    (inventories : List Inventory) (items : List Item)
    (opened : openInventory s command manifest revision = .ok (current, inventories))
    (continues : validateCurrent command current = true)
    (fits : command.startIndex + command.items.length ≤ command.expectedItemCount)
    (listed : appendItems command.cleanupOperationId revision command.startIndex
      current.rollingDigest s.items command.items = .ok (digest, items)) :
    Effect scheme s context revision (.append command) { s with
      items := items
      inventories := amend (fun row => row.cleanupOperationId == command.cleanupOperationId &&
          row.sealed.isNone && row.itemCount == command.startIndex)
        (fun row => { row with
          itemCount := command.startIndex + command.items.length
          rollingDigest := digest
          lastAppendRevision := revision }) inventories }
  | sealed (command : SealVersionCleanupInventory) (nonempty : command.expectedItemCount ≠ 0) :
    Effect scheme s context revision (.sealInventory command) { s with
      inventories := amend (sealable command revision)
        (fun row => { row with sealed := some ⟨context.operationId, context.occurredAt, revision⟩ })
        s.inventories }
  | issued (command : IssueVersionCleanupPermit) (sealed : SealedItem)
    (open' : completed s command.cleanupOperationId command.itemIndex = false)
    (sealedItem : SealedItemOf s command.cleanupOperationId command.itemIndex sealed)
    (follows : Follows s context command)
    (permit : command.permit = (attemptOf context command revision).permit sealed.item)
    (lasting : context.occurredAt < command.permit.expiresAt) :
    Effect scheme s context revision (.issue command)
      { s with attempts := s.attempts ++ [attemptOf context command revision] }
  | completed (command : CompleteVersionCleanupItem) (sealed : SealedItem) (attempt : Attempt)
    (item : Item) (s' : Store)
    (sealedItem : SealedItemOf s command.cleanupOperationId command.itemIndex sealed)
    (absent : completion? s command.cleanupOperationId command.itemIndex = none)
    (exact' : exactAttempt s command.cleanupOperationId command.itemIndex
      command.permitAttemptSequence = .ok (attempt, item))
    (receipt : receiptMatches command.receipt (attempt.permit item) = true)
    (summed : completeSummaryIfReady
      { s with completions := s.completions ++ [completionOf context command revision] } context
      command.cleanupOperationId revision = .ok s') :
    Effect scheme s context revision (.complete command) s'
  | confirmed (command : ConfirmVersionCleanupReclamation) (completion : Completion) (s' : Store)
    (found : completion? s command.cleanupOperationId command.itemIndex = some completion)
    (receipt : reclamationMatches command.receipt completion.receipt = true)
    (absent : reclamation? s command.cleanupOperationId command.itemIndex = none)
    (summed : reclaimSummaryIfReady
      { s with reclamations := s.reclamations ++ [reclamationOf context command revision] } context
      command.cleanupOperationId revision = .ok s') :
    Effect scheme s context revision (.confirm command) s'

section

variable {scheme : SignatureScheme} {s s' : Store} {context : CommandContext} {revision : Revision}

theorem effect_of_registerKey {command : RegisterCleanupAttestationKey}
    (h : registerKey scheme s command = .ok s') :
    Effect scheme s context revision (.registerKey command) s' := by
  obtain ⟨-, -, -, -, -, -, h⟩ := bind₃_eq_ok.mp h
  obtain ⟨-, -, keys, _, h⟩ := bind₂_eq_ok.mp h
  cases h
  exact .keys command keys

theorem retainedRootSummary_ok {volume : VolumeId} {current : Revision} {summary : RetainedRootSummary}
    (h : retainedRootSummary s volume current = .ok summary) :
    summary = rootSummary s.env volume current := by
  obtain ⟨-, -, -, -, h⟩ := bind₂_eq_ok.mp h
  exact (ok.inj h).symm

theorem effect_of_propose {command : ProposeVersionCleanup}
    (h : propose s context command revision = .ok s') :
    Effect scheme s context revision (.propose command) s' := by
  obtain ⟨-, -, -, -, summary, read, _, matched, h⟩ := bind₄_eq_ok.mp h
  obtain ⟨-, -, -, -, intents, inserted, h⟩ := bind₃_eq_ok.mp h
  cases h
  obtain ⟨rfl, free⟩ := insertUnique_ok inserted
  have matched := (Bool.and_eq_true_iff.mp (require_ok.mp matched)).2
  rw [retainedRootSummary_ok read] at matched
  refine .proposed command (fun old mem same => ?_) (by simpa using matched)
  have apart := free old mem
  simp [intentOf, same] at apart

theorem effect_of_attest {a : VersionCleanupAttestation} (h : attest scheme s context a revision = .ok s') :
    Effect scheme s context revision (.attest a) s' := by
  obtain ⟨-, -, -, -, -, -, -, -, h⟩ := bind₄_eq_ok.mp h
  cases h
  exact .attested a

theorem effect_of_authorise (h : authorise scheme s context command revision = .ok s') :
    Effect scheme s context revision (.authorise command) s' := by
  obtain ⟨-, -, intent, pending, -, -, h⟩ := bind₃_eq_ok.mp h
  split at h
  · cases h
  rename_i current _
  obtain ⟨summary, read, _, matched, _, valid, h⟩ := bind₃_eq_ok.mp h
  cases h
  have matched := (Bool.and_eq_true_iff.mp (require_ok.mp matched)).2
  rw [retainedRootSummary_ok read] at matched
  obtain ⟨-, -, _, present, _, checked, counted⟩ := bind₃_eq_ok.mp valid
  exact .authorised command intent (loadPendingAuthority_ok pending) {
    roots := ⟨current, by simpa using matched⟩
    gateways := by simpa using present
    checked := fun row scan key mem => validateStoredAttestation_ok (forM_ok checked _ mem)
    counted := by simpa using counted }

theorem effect_of_cancel (h : cancel s context command revision = .ok s') :
    Effect scheme s context revision (.cancel command) s' := by
  obtain ⟨-, -, intent, pending, h⟩ := bind₂_eq_ok.mp h
  cases h
  exact .cancelled command intent (loadPendingAuthority_ok pending)

theorem effect_of_append {command : AppendVersionCleanupItems}
    (h : append s context command revision = .ok s') :
    Effect scheme s context revision (.append command) s' := by
  obtain ⟨-, -, manifest, _, -, -, h⟩ := bind₃_eq_ok.mp h
  obtain ⟨-, -, ⟨current, inventories⟩, opened, h⟩ := bind₂_eq_ok.mp h
  obtain ⟨_, continues, _, fits, ⟨digest, items⟩, listed, h⟩ := bind₃_eq_ok.mp h
  replace h := passed h
  cases h
  exact .appended command manifest digest current inventories items opened (require_ok.mp continues)
    (of_decide_eq_true (require_ok.mp fits)) listed

theorem effect_of_seal {command : SealVersionCleanupInventory}
    (h : sealInventory s context command revision = .ok s') :
    Effect scheme s context revision (.sealInventory command) s' := by
  obtain ⟨_, shape, _, _, -, -, h⟩ := bind₃_eq_ok.mp h
  cases h
  have shape := require_ok.mp shape
  simp only [Bool.and_eq_true, bne_iff_ne, ne_eq] at shape
  exact .sealed command shape.1.1.2

theorem loadLatest_ok {c : OperationId} {index : Nat} {previous : Option Attempt}
    (h : loadLatest s c index = .ok previous) : previous = (attemptsOf s c index).getLast? := by
  obtain ⟨_, _, h⟩ := bind_eq_ok.mp h
  split at h
  · rename_i none
    rw [none]
    exact (ok.inj h).symm
  · rename_i attempt last
    obtain ⟨checked, valid, h⟩ := bind_eq_ok.mp h
    rw [last, ← validateAttempt_ok valid]
    exact (ok.inj h).symm

theorem effect_of_issue {command : IssueVersionCleanupPermit}
    (h : issue s context command revision = .ok s') :
    Effect scheme s context revision (.issue command) s' := by
  obtain ⟨_, shape, authority, loaded, _, valid, h⟩ := bind₃_eq_ok.mp h
  obtain ⟨-, -, -, -, attempts, inserted, h⟩ := bind₃_eq_ok.mp h
  cases h
  obtain ⟨rfl, _⟩ := insertUnique_ok inserted
  obtain ⟨_, open', sealed, isSealed, previous, latest, loaded⟩ := bind₃_eq_ok.mp loaded
  cases loaded
  obtain ⟨-, -, _, follows, _⟩ := bind₂_eq_ok.mp valid
  have shape := require_ok.mp shape
  have follows := require_ok.mp follows
  simp only [validateIssueShape, lifetimeAllowed, Bool.and_eq_true, beq_iff_eq, decide_eq_true_eq]
    at shape
  simp only [permitFollows, Bool.and_eq_true, beq_iff_eq, decide_eq_true_eq, Bool.not_eq_true',
    Bool.and_eq_false_iff] at follows
  obtain ⟨⟨⟨⟨⟨⟨⟨⟨_, sequence⟩, _⟩, target⟩, generation⟩, shard⟩, _⟩, epoch⟩, expiry⟩ := follows
  refine .issued command sealed (by simpa using open') (sealedItem_ok isSealed) ⟨?_, ?_⟩ ?_ shape.1.1.2.1.1
  · intro none
    rw [← loadLatest_ok latest] at none
    rw [sequence, none]
    rfl
  · intro last found
    rw [← loadLatest_ok latest] at found
    rw [found] at sequence epoch expiry
    refine ⟨sequence, epoch, fun same => ?_⟩
    rcases expiry with differs | past
    · simp [same] at differs
    · simpa using past
  · have catalogue : command.permit.catalogueRevision = revision := shape.1.1.1.1.2
    unfold Attempt.permit attemptOf
    rw [← target, ← generation, ← shard]
    conv_rhs => rw [← catalogue]

theorem effect_of_complete {command : CompleteVersionCleanupItem}
    (h : complete s context command revision = .ok s') :
    Effect scheme s context revision (.complete command) s' := by
  obtain ⟨-, -, sealed, isSealed, -, -, -, -, h⟩ := bind₄_eq_ok.mp h
  obtain ⟨present, loaded, _, absent, ⟨attempt, item⟩, found, h⟩ := bind₃_eq_ok.mp h
  obtain ⟨_, receipt, -, -, completions, inserted, h⟩ := bind₃_eq_ok.mp h
  obtain ⟨rfl, _⟩ := insertUnique_ok inserted
  rw [loadCompletion_ok loaded] at absent
  exact .completed command sealed attempt item s' (sealedItem_ok isSealed)
    (Option.isNone_iff_eq_none.mp (require_ok.mp absent)) found (require_ok.mp receipt) h

theorem effect_of_confirm {command : ConfirmVersionCleanupReclamation}
    (h : confirm s context command revision = .ok s') :
    Effect scheme s context revision (.confirm command) s' := by
  obtain ⟨-, -, loaded, read, h⟩ := bind₂_eq_ok.mp h
  cases loaded with
  | none => cases h
  | some completion =>
    obtain ⟨_, receipt, -, -, -, -, present, loaded, h⟩ := bind₄_eq_ok.mp h
    obtain ⟨_, absent, -, -, reclamations, inserted, h⟩ := bind₃_eq_ok.mp h
    obtain ⟨rfl, _⟩ := insertUnique_ok inserted
    rw [loadReclamation_ok loaded] at absent
    exact .confirmed command completion s' (loadCompletion_ok read).symm (require_ok.mp receipt)
      (Option.isNone_iff_eq_none.mp (require_ok.mp absent)) h

theorem effect_of_execute {command : Command} (h : execute scheme s context revision command = .ok s') :
    Effect scheme s context revision command s' := by
  cases command with
  | registerKey command => exact effect_of_registerKey h
  | propose command => exact effect_of_propose h
  | attest a => exact effect_of_attest h
  | authorise command => exact effect_of_authorise h
  | cancel command => exact effect_of_cancel h
  | append command => exact effect_of_append h
  | sealInventory command => exact effect_of_seal h
  | issue command => exact effect_of_issue h
  | complete command => exact effect_of_complete h
  | confirm command => exact effect_of_confirm h
  | other env =>
    cases h
    exact .environment env

end

/-! ## Steps and runs -/

/-- The operation and the revision are recorded with what the command did. -/
def recorded (next : Store) (revision : Revision) (operations : List OperationId) : Store :=
  { next with revision := revision, operations := operations }

theorem apply_ok {entry : Entry} (h : apply scheme s entry = .ok s') :
    s' = s ∨ ∃ next, Effect scheme s entry.context (s.revision + 1) entry.command next ∧
      s' = recorded next (s.revision + 1) (s.operations ++ [entry.context.operationId]) := by
  unfold apply at h
  split at h
  · cases h
    exact Or.inl rfl
  split at h
  · cases h
  split at h
  · cases h
  obtain ⟨-, -, next, executed, h⟩ := bind₂_eq_ok.mp h
  exact Or.inr ⟨next, effect_of_execute executed, (ok.inj h).symm⟩

/-- An entry changes nothing, or it has one effect. -/
theorem step_cases (scheme : SignatureScheme) (s : Store) (entry : Entry) : step scheme s entry = s ∨
      ∃ next, Effect scheme s entry.context (s.revision + 1) entry.command next ∧
        step scheme s entry =
          recorded next (s.revision + 1) (s.operations ++ [entry.context.operationId]) := by
  cases h : apply scheme s entry with
  | error err =>
    have same : step scheme s entry = s := by
      unfold step
      rw [h]
    exact Or.inl same
  | ok s' =>
    have same : step scheme s entry = s' := by
      unfold step
      rw [h]
    rw [same]
    exact apply_ok h

theorem run_snoc (scheme : SignatureScheme) (history : List Entry) (entry : Entry) :
    run scheme (history ++ [entry]) = step scheme (run scheme history) entry := by
  unfold run
  rw [foldl_append]
  rfl

/-- What holds of a new partition and is kept by every effect holds after every history. -/
theorem run_induction {motive : Store → Prop} (start : motive emptyStore)
    (effect : ∀ s context revision command next, motive s →
      Effect scheme s context revision command next → motive next)
    (record : ∀ next revision operations, motive next → motive (recorded next revision operations))
    (history : List Entry) : motive (run scheme history) := by
  induction history using reverseRecOn with
  | nil => exact start
  | append_singleton history entry ih =>
    rw [run_snoc]
    rcases step_cases scheme (run scheme history) entry with same | ⟨next, done, same⟩
    · rw [same]
      exact ih
    · rw [same]
      exact record _ _ _ (effect _ _ _ _ _ ih done)

end MeshSpan.Cleanup
