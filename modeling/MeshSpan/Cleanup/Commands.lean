import MeshSpan.Cleanup.State

/- What each cleanup command checks and writes, and how a committed entry is applied.

   An entry is applied in one transaction: a repeated operation changes nothing, an
   operation id that an item or a permit has reserved is refused, the expected
   revision must be the present one, and a command that fails leaves no trace.

   Correspondence (Rust ↔ Lean)
     apply.rs                apply_transaction                    `apply`
     version_cleanup.rs      propose, authorise, cancel, load_pending_authority
     cleanup_attestation.rs  register_key, attest, validate_participant,
                             validate_complete, validate_stored_attestation
     cleanup_inventory.rs    append, seal, sealed_item, load_authorised_manifest
     cleanup_permit.rs       issue, validate_authority, load_authority, load_latest,
                             exact_attempt
     cleanup_completion.rs   complete, complete_summary_if_ready, load_item
     cleanup_reclamation.rs  confirm, complete_summary_if_ready, load_item

   `INSERT` fails where a primary key or a `UNIQUE` column is taken. The rights of
   the principal who submits a command are not part of this model: any may. -/

namespace MeshSpan.Cleanup

open Rows Repository

/-! ## Operations -/

variable (store : Store)

def isReservedOperation (operation : OperationId) : Bool :=
  store.items.any (·.removalOperationId == operation) ||
  store.attempts.any (·.permitOperationId == operation)

/-! ## Attestation keys -/

def latestGeneration (node : NodeId) : Nat :=
  (store.keys.filter (·.nodeId == node)).foldl (fun best key => max best key.generation) 0

variable (scheme : SignatureScheme)

def registerKey (store : Store)
    (command : RegisterCleanupAttestationKey) : Except RepositoryError Store := do
  require (command.generation != 0 && scheme.validKey command.verifyingKey) .invalidCommand
  require (store.env.nodes.any fun node => node.nodeId == command.nodeId && node.member) .invalidCommand
  require ((latestGeneration store command.nodeId < command.generation)) .invalidCommand
  checkedI64 command.generation
  let keys ← insertUnique (fun new old => new.nodeId == old.nodeId &&
      (new.generation == old.generation || new.verifyingKey == old.verifyingKey))
    (amend (fun key => key.nodeId == command.nodeId && key.active)
      (fun key => { key with active := false }) store.keys)
    ⟨command.nodeId, command.generation, command.verifyingKey, true⟩
  pure { store with keys := keys }

/-! ## Proposals -/

variable (context : CommandContext) (command : ProposeVersionCleanup)

def validateInput : Bool :=
  context.expectedRevision == some command.reachabilityRevision &&
  command.reachabilityRevision != 0 && command.retentionPolicySequence != 0 &&
  command.retainedRootCount != 0 && command.scanRequestDigest != zeroDigest &&
  command.manifestRootDigest != zeroDigest && command.reachabilitySubjectDigest != zeroDigest &&
  command.retainedRootDigest != zeroDigest && command.retainedRootSetDigest != zeroDigest &&
  command.localRootsDigest != zeroDigest && command.proofResultDigest != zeroDigest &&
  context.operationId != command.sourceScanOperationId

variable (env : Environment)

/-- The newest retention policy of the volume is the one named, and no sequence is missing. -/
def validatePolicy (volume : VolumeId) (sequence : Nat) : Except RepositoryError Unit := do
  require (env.policies.any (·.volumeId == volume)) .invalidCommand
  require (((env.policies.filter (·.volumeId == volume)).all fun policy =>
      (policy.policySequence ≤ sequence)) &&
    (env.policies.any fun policy => policy.volumeId == volume && policy.policySequence == sequence) &&
    (env.policies.filter (·.volumeId == volume)).length == sequence)
    .staleRetentionPolicy

/-- The retained roots at the present revision, which must be the one named. -/
def retainedRootSummary (volume : VolumeId) (revision : Revision) :
    Except RepositoryError RetainedRootSummary := do
  require (revision != 0 && store.revision == revision) .staleRevision
  require ((retainedRoots store.env volume).length != 0) .corruptState
  pure (rootSummary store.env volume revision)

def intentOf (required : Nat) (revision : Revision) : Intent where
  cleanupOperationId := context.operationId
  volumeId := command.volumeId
  versionId := command.versionId
  manifestId := command.manifestId
  manifestRootDigest := command.manifestRootDigest
  sourceScanOperationId := command.sourceScanOperationId
  scanRequestDigest := command.scanRequestDigest
  reachabilitySubjectDigest := command.reachabilitySubjectDigest
  retentionPolicySequence := command.retentionPolicySequence
  reachabilityRevision := command.reachabilityRevision
  retainedRootCount := command.retainedRootCount
  retainedRootDigest := command.retainedRootDigest
  retainedRootSetDigest := command.retainedRootSetDigest
  localRootsDigest := command.localRootsDigest
  proofResultDigest := command.proofResultDigest
  requiredAttestationCount := required
  proposedAt := context.occurredAt
  revision := revision
  state := .pending

def propose (context : CommandContext) (command : ProposeVersionCleanup)
    (revision : Revision) : Except RepositoryError Store := do
  require (validateInput context command) .invalidCommand
  validatePolicy store.env command.volumeId command.retentionPolicySequence
  let summary ← retainedRootSummary store command.volumeId command.reachabilityRevision
  require (summary.count == command.retainedRootCount &&
    summary.revisionDigest == command.retainedRootDigest &&
    summary.setDigest == command.retainedRootSetDigest) .staleRevision
  require (reachabilityResultDigest command.sourceScanOperationId command.scanRequestDigest
    command.localRootsDigest == command.proofResultDigest) .invalidCommand
  require (currentParticipantCount store.env != 0) .invalidCommand
  let intents ← insertUnique (fun new old => new.cleanupOperationId == old.cleanupOperationId ||
      new.versionId == old.versionId || new.sourceScanOperationId == old.sourceScanOperationId ||
      new.proofResultDigest == old.proofResultDigest || new.revision == old.revision)
    store.intents (intentOf context command (currentParticipantCount store.env) revision)
  pure { store with
    intents := intents
    participants := store.participants ++ (gateways store.env).map fun node =>
      ⟨context.operationId, node.nodeId, node.currentIncarnation, none, revision⟩ }

/-! ## Attestations -/

variable (a : VersionCleanupAttestation)

def validateAttestationInput : Bool :=
  a.cleanupRevision != 0 && a.nodeIncarnation != 0 && a.keyGeneration != 0 &&
  a.scanRequestDigest != zeroDigest && a.reachabilitySubjectDigest != zeroDigest &&
  a.localRootsDigest != zeroDigest && a.scanResultDigest != zeroDigest &&
  context.operationId != a.cleanupOperationId && context.operationId != a.scanOperationId &&
  a.cleanupOperationId != a.scanOperationId

def participant? (cleanup : OperationId) (node : NodeId) : Option Participant :=
  store.participants.find? fun row => row.cleanupOperationId == cleanup && row.nodeId == node

def intent? (cleanup : OperationId) : Option Intent :=
  get Intent.cleanupOperationId cleanup store.intents

def memberNode? (node : NodeId) : Option Node :=
  (get Node.nodeId node env.nodes).filter Node.member

/-- The participant, its proposal and its node as `validate_participant` joins them. -/
def validateParticipant (a : VersionCleanupAttestation) : Except RepositoryError Unit :=
  match participant? store a.cleanupOperationId a.nodeId, intent? store a.cleanupOperationId,
      memberNode? store.env a.nodeId with
  | some row, some intent, some node =>
    require (row.attested.isNone && intent.state == .pending &&
      row.nodeIncarnation == a.nodeIncarnation && node.currentIncarnation == a.nodeIncarnation &&
      intent.revision == a.cleanupRevision &&
      intent.reachabilitySubjectDigest == a.reachabilitySubjectDigest) .staleRevision
  | _, _, _ => .error .invalidCommand

def validateScanResult : Except RepositoryError Unit :=
  require (reachabilityResultDigest a.scanOperationId a.scanRequestDigest a.localRootsDigest ==
    a.scanResultDigest) .invalidCommand

def verifyWithKey (key : VerifyingKey) : Except RepositoryError Unit := do
  require (scheme.validKey key) .corruptState
  require (scheme.verify key a.signingDigest a.signature) .invalidCommand

def activeKey? (node : NodeId) (generation : Nat) : Option AttestationKey :=
  store.keys.find? fun key => key.nodeId == node && key.generation == generation && key.active

def verifySignature (store : Store) (a : VersionCleanupAttestation) : Except RepositoryError Unit :=
  match activeKey? store a.nodeId a.keyGeneration with
  | none => .error .invalidCommand
  | some key => verifyWithKey scheme a key.verifyingKey

def signedScan : SignedScan where
  attestationOperationId := context.operationId
  keyGeneration := a.keyGeneration
  scanOperationId := a.scanOperationId
  scanRequestDigest := a.scanRequestDigest
  reachabilitySubjectDigest := a.reachabilitySubjectDigest
  localRootsDigest := a.localRootsDigest
  scanResultDigest := a.scanResultDigest
  signature := a.signature
  attestedAt := context.occurredAt

def attest (store : Store) (context : CommandContext)
    (a : VersionCleanupAttestation) (revision : Revision) : Except RepositoryError Store := do
  require (validateAttestationInput context a) .invalidCommand
  validateParticipant store a
  validateScanResult a
  verifySignature scheme store a
  pure { store with
    participants := amend (fun row => row.cleanupOperationId == a.cleanupOperationId &&
        row.nodeId == a.nodeId && row.nodeIncarnation == a.nodeIncarnation && row.attested.isNone)
      (fun row => { row with attested := some (signedScan context a), revision := revision })
      store.participants }

/-! ## Authorisation and cancellation -/

variable (command : TerminalCommand)

def validateTerminalInput : Bool :=
  context.expectedRevision.isSome && command.cleanupRevision != 0 &&
  command.reachabilitySubjectDigest != zeroDigest &&
  context.operationId != command.cleanupOperationId

/-- The pending proposal of exactly this revision and subject. -/
def loadPendingAuthority : Except RepositoryError Intent :=
  match (intent? store command.cleanupOperationId).filter fun intent =>
      intent.revision == command.cleanupRevision &&
      intent.reachabilitySubjectDigest == command.reachabilitySubjectDigest &&
      intent.state == .pending with
  | none => .error .staleRevision
  | some intent => .ok intent

/-- The statement that a stored participant has signed, for a cleanup of the given revision. -/
def storedAttestation (cleanupRevision : Revision) (row : Participant) (scan : SignedScan) :
    VersionCleanupAttestation where
  cleanupOperationId := row.cleanupOperationId
  cleanupRevision := cleanupRevision
  nodeId := row.nodeId
  nodeIncarnation := row.nodeIncarnation
  keyGeneration := scan.keyGeneration
  scanOperationId := scan.scanOperationId
  scanRequestDigest := scan.scanRequestDigest
  reachabilitySubjectDigest := scan.reachabilitySubjectDigest
  localRootsDigest := scan.localRootsDigest
  scanResultDigest := scan.scanResultDigest
  signature := scan.signature

variable (cleanup : OperationId)

/-- The attested participants that are gateways now, under their present incarnation and with an
active key (the join of `validate_complete`). -/
def currentAttestations : List (Participant × SignedScan × AttestationKey) :=
  (store.participants.filter (·.cleanupOperationId == cleanup)).filterMap fun row =>
    row.attested.bind fun scan =>
      ((get Node.nodeId row.nodeId store.env.nodes).filter fun node =>
          node.currentIncarnation == row.nodeIncarnation && isGateway store.env node).bind fun _ =>
        (activeKey? store row.nodeId scan.keyGeneration).map fun key => (row, scan, key)

def validateStoredAttestation
    (stored : Participant × SignedScan × AttestationKey) : Except RepositoryError Unit := do
  require (stored.2.1.reachabilitySubjectDigest == command.reachabilitySubjectDigest) .corruptState
  validateScanResult (storedAttestation command.cleanupRevision stored.1 stored.2.1)
  verifyWithKey scheme (storedAttestation command.cleanupRevision stored.1 stored.2.1)
    stored.2.2.verifyingKey

/-- Exactly the present gateways have attested: the participants are compared by their number. -/
def validateComplete (store : Store) (command : TerminalCommand)
    (required : Nat) : Except RepositoryError Unit := do
  require (required != 0) .corruptState
  require (currentParticipantCount store.env == required) .staleRevision
  (currentAttestations store command.cleanupOperationId).forM (validateStoredAttestation scheme command)
  require ((currentAttestations store command.cleanupOperationId).length == required) .staleRevision

/-- `UPDATE version_cleanup_intents … WHERE state = 1`. -/
def terminate (state : IntentState) : Store :=
  { store with
    intents := amend (fun intent => intent.cleanupOperationId == command.cleanupOperationId &&
        intent.revision == command.cleanupRevision &&
        intent.reachabilitySubjectDigest == command.reachabilitySubjectDigest &&
        intent.state == .pending)
      (fun intent => { intent with state := state }) store.intents }

def authorise (store : Store) (context : CommandContext)
    (command : TerminalCommand) (revision : Revision) : Except RepositoryError Store := do
  require (validateTerminalInput context command) .invalidCommand
  let intent ← loadPendingAuthority store command
  validatePolicy store.env intent.volumeId intent.retentionPolicySequence
  match context.expectedRevision with
  | none => .error .invalidCommand
  | some current => do
    let summary ← retainedRootSummary store intent.volumeId current
    require (summary.count == intent.retainedRootCount &&
      summary.setDigest == intent.retainedRootSetDigest) .staleRevision
    validateComplete scheme store command intent.requiredAttestationCount
    pure (terminate store command (.authorised context.operationId revision context.occurredAt))

def cancel (context : CommandContext) (command : TerminalCommand)
    (revision : Revision) : Except RepositoryError Store := do
  require (validateTerminalInput context command) .invalidCommand
  let _ ← loadPendingAuthority store command
  pure (terminate store command (.cancelled context.operationId revision context.occurredAt))

/-! ## Inventory -/

def maximumAppendItems : Nat := 1000

/-- The manifest of a cleanup that was authorised at exactly this revision. -/
def loadAuthorisedManifest
    (cleanupRevision authorisationRevision : Revision) : Except RepositoryError Digest :=
  match intent? store cleanup with
  | none => .error .staleRevision
  | some intent =>
    match intent.state with
    | .authorised _ revision _ =>
      if intent.revision == cleanupRevision && revision == authorisationRevision then
        .ok intent.manifestRootDigest
      else .error .staleRevision
    | _ => .error .staleRevision

def inventory? : Option Inventory :=
  get Inventory.cleanupOperationId cleanup store.inventories

variable (command : AppendVersionCleanupItems)

def inventorySeed (manifest : Digest) : Digest :=
  .over "meshspan.version-cleanup-inventory.seed.v1" manifest
    [(command.cleanupOperationId : Int), command.cleanupRevision, command.authorisationRevision,
      command.expectedItemCount]

def extendDigest (prior : Digest) (index : Nat) (item : ItemPlacement) : Digest :=
  .over "meshspan.version-cleanup-inventory.item.v2" (.join prior item.shard.manifestDigest)
    [(index : Int), item.removalOperationId, item.shard.stripeIndex, item.shard.shardIndex,
      item.shard.generation, item.targetId, item.targetGeneration, item.storageNodeId]

/-- The items of one page name the manifest, fresh operations and present nodes. -/
def validateItems (context : CommandContext) (command : AppendVersionCleanupItems)
    (manifest : Digest) : Bool :=
  (command.items.map ItemPlacement.removalOperationId).Nodup &&
  command.items.all fun item =>
    item.shard.manifestDigest == manifest && item.shard.generation != 0 &&
    item.targetGeneration != 0 && item.removalOperationId != command.cleanupOperationId &&
    item.removalOperationId != context.operationId && (item.shard.stripeIndex ≤ i64Max) &&
    !(store.operations.contains item.removalOperationId) &&
    !(isReservedOperation store item.removalOperationId) &&
    store.env.nodes.any fun node => node.nodeId == item.storageNodeId && node.member

variable (index : Nat)

def itemOf (revision : Revision) (item : ItemPlacement) : Item where
  cleanupOperationId := cleanup
  itemIndex := index
  removalOperationId := item.removalOperationId
  shard := item.shard
  targetId := item.targetId
  targetGeneration := item.targetGeneration
  storageNodeId := item.storageNodeId
  revision := revision

/-- Two rows that `version_cleanup_items` cannot both hold. -/
def itemsConflict (new old : Item) : Bool :=
  (new.cleanupOperationId == old.cleanupOperationId &&
    (new.itemIndex == old.itemIndex || (new.targetId == old.targetId &&
      new.targetGeneration == old.targetGeneration && new.shard == old.shard))) ||
  new.removalOperationId == old.removalOperationId

def appendItems (cleanup : OperationId) (revision : Revision) :
    Nat → Digest → List Item → List ItemPlacement → Except RepositoryError (Digest × List Item)
  | _, digest, rows, [] => .ok (digest, rows)
  | index, digest, rows, item :: rest => do
    let rows ← insertUnique itemsConflict rows (itemOf cleanup index revision item)
    appendItems cleanup revision (index + 1) (extendDigest digest index item) rows rest

def validateAppend (command : AppendVersionCleanupItems) : Bool :=
  context.expectedRevision.isSome && command.cleanupRevision != 0 &&
  (command.cleanupRevision < command.authorisationRevision) &&
  command.expectedItemCount != 0 && !command.items.isEmpty &&
  (command.items.length ≤ maximumAppendItems) &&
  context.operationId != command.cleanupOperationId

def newInventory (manifest : Digest) (revision : Revision) : Inventory where
  cleanupOperationId := command.cleanupOperationId
  cleanupRevision := command.cleanupRevision
  authorisationRevision := command.authorisationRevision
  expectedItemCount := command.expectedItemCount
  itemCount := 0
  rollingDigest := inventorySeed command manifest
  lastAppendRevision := revision
  sealed := none

/-- The inventories with the row of this cleanup, which a first page creates. -/
def openInventory (command : AppendVersionCleanupItems) (manifest : Digest)
    (revision : Revision) : Except RepositoryError (Inventory × List Inventory) :=
  match inventory? store command.cleanupOperationId with
  | some inventory => .ok (inventory, store.inventories)
  | none => do
    require (command.startIndex == 0) .staleRevision
    pure (newInventory command manifest revision,
      store.inventories ++ [newInventory command manifest revision])

/-- The page continues the building inventory of the same cleanup. -/
def validateCurrent (current : Inventory) : Bool :=
  current.cleanupRevision == command.cleanupRevision &&
  current.authorisationRevision == command.authorisationRevision &&
  current.expectedItemCount == command.expectedItemCount && current.itemCount == command.startIndex &&
  current.sealed.isNone

def append (context : CommandContext) (command : AppendVersionCleanupItems)
    (revision : Revision) : Except RepositoryError Store := do
  require (validateAppend context command) .invalidCommand
  let manifest ← loadAuthorisedManifest store command.cleanupOperationId command.cleanupRevision
    command.authorisationRevision
  require (validateItems store context command manifest) .invalidCommand
  checkedI64 command.expectedItemCount
  let (current, inventories) ← openInventory store command manifest revision
  require (validateCurrent command current) .staleRevision
  require ((command.startIndex + command.items.length ≤ command.expectedItemCount)) .invalidCommand
  let (digest, items) ← appendItems command.cleanupOperationId revision command.startIndex
    current.rollingDigest store.items command.items
  require ((current.lastAppendRevision ≤ revision)) .staleRevision
  pure { store with
    items := items
    inventories := amend (fun row => row.cleanupOperationId == command.cleanupOperationId &&
        row.sealed.isNone && row.itemCount == command.startIndex)
      (fun row => { row with
        itemCount := command.startIndex + command.items.length
        rollingDigest := digest
        lastAppendRevision := revision }) inventories }

/-- The inventory that a seal command names, complete and still open. -/
def sealable (command : SealVersionCleanupInventory) (revision : Revision) (row : Inventory) : Bool :=
  row.cleanupOperationId == command.cleanupOperationId &&
  row.cleanupRevision == command.cleanupRevision &&
  row.authorisationRevision == command.authorisationRevision &&
  row.expectedItemCount == command.expectedItemCount && row.itemCount == row.expectedItemCount &&
  row.rollingDigest == command.inventoryDigest && row.sealed.isNone &&
  (row.lastAppendRevision < revision)

def sealInventory (context : CommandContext) (command : SealVersionCleanupInventory)
    (revision : Revision) : Except RepositoryError Store := do
  require (context.expectedRevision.isSome && command.cleanupRevision != 0 &&
    (command.cleanupRevision < command.authorisationRevision) &&
    command.expectedItemCount != 0 && command.inventoryDigest != zeroDigest &&
    context.operationId != command.cleanupOperationId) .invalidCommand
  let _ ← loadAuthorisedManifest store command.cleanupOperationId command.cleanupRevision
    command.authorisationRevision
  require (store.inventories.any (sealable command revision)) .staleRevision
  pure { store with
    inventories := amend (sealable command revision)
      (fun row => { row with sealed := some ⟨context.operationId, context.occurredAt, revision⟩ })
      store.inventories }

structure SealedItem where
  item : Item
  sealedRevision : Revision

def itemsOf : List Item :=
  store.items.filter (·.cleanupOperationId == cleanup)

def sealedItem : Except RepositoryError SealedItem :=
  match inventory? store cleanup with
  | none => .error .invalidCommand
  | some inventory =>
    match inventory.sealed with
    | none => .error .invalidCommand
    | some mark => do
      let manifest ← loadAuthorisedManifest store cleanup inventory.cleanupRevision
        inventory.authorisationRevision
      require ((itemsOf store cleanup).length == inventory.expectedItemCount &&
        (index < inventory.expectedItemCount)) .corruptState
      match (itemsOf store cleanup).find? fun item => item.itemIndex == index with
      | none => .error .corruptState
      | some item => do
        require (item.shard.manifestDigest == manifest) .corruptState
        pure ⟨item, mark.revision⟩

/-! ## Permits -/

/-- A day, in microseconds. -/
def maximumPermitLifetime : Nat := 86400000000

/-- A lifetime is positive, at most a day, and computed without overflow. -/
def lifetimeAllowed (issuedAt expiresAt : UnixMicros) : Bool :=
  (issuedAt < expiresAt) && (expiresAt - issuedAt ≤ i64Max) &&
  (expiresAt - issuedAt ≤ maximumPermitLifetime)

def validateIssueShape (command : IssueVersionCleanupPermit) (revision : Revision) : Bool :=
  context.expectedRevision.isSome && command.inventorySealedRevision != 0 &&
  command.attemptSequence != 0 && command.permit.authorityEpoch != 0 &&
  command.permit.catalogueRevision == revision && command.permit.permitDigest != zeroDigest &&
  lifetimeAllowed context.occurredAt command.permit.expiresAt &&
  command.permit.operationId != command.cleanupOperationId &&
  command.permit.operationId != context.operationId

def attemptsOf : List Attempt :=
  store.attempts.filter fun attempt => attempt.cleanupOperationId == cleanup && attempt.itemIndex == index

/-- A stored attempt that no command could have recorded is corrupt. -/
def validateAttempt (attempt : Attempt) : Except RepositoryError Attempt := do
  require (attempt.attemptSequence != 0 && attempt.authorityEpoch != 0 &&
    attempt.permitDigest != zeroDigest && lifetimeAllowed attempt.issuedAt attempt.expiresAt) .corruptState
  pure attempt

def loadLatest : Except RepositoryError (Option Attempt) := do
  let _ ← sealedItem store cleanup index
  match (attemptsOf store cleanup index).getLast? with
  | none => pure none
  | some attempt => do
    let attempt ← validateAttempt attempt
    pure (some attempt)

def exactAttempt (index sequence : Nat) : Except RepositoryError (Attempt × Item) := do
  let sealed ← sealedItem store cleanup index
  match (attemptsOf store cleanup index).find? fun attempt => attempt.attemptSequence == sequence with
  | none => .error .invalidCommand
  | some attempt => do
    let attempt ← validateAttempt attempt
    pure (attempt, sealed.item)

def completed : Bool :=
  store.completions.any fun row => row.cleanupOperationId == cleanup && row.itemIndex == index

/-- The next attempt number, and the epoch and expiry it follows. -/
structure PermitAuthority where
  sealed : SealedItem
  (attemptSequence previousAuthorityEpoch : Nat)
  previousExpiresAt : Option UnixMicros

def loadAuthority : Except RepositoryError PermitAuthority := do
  require (!completed store cleanup index) .staleRevision
  let sealed ← sealedItem store cleanup index
  let previous ← loadLatest store cleanup index
  pure {
    sealed := sealed
    attemptSequence := previous.elim 1 (·.attemptSequence + 1)
    previousAuthorityEpoch := previous.elim 0 Attempt.authorityEpoch
    previousExpiresAt := previous.map Attempt.expiresAt }

/-- The permit names the sealed item and follows the last attempt. -/
def permitFollows (context : CommandContext) (command : IssueVersionCleanupPermit)
    (authority : PermitAuthority) : Bool :=
  command.inventorySealedRevision == authority.sealed.sealedRevision &&
  command.attemptSequence == authority.attemptSequence &&
  store.env.meshes == [command.permit.meshId] &&
  command.permit.targetId == authority.sealed.item.targetId &&
  command.permit.targetGeneration == authority.sealed.item.targetGeneration &&
  command.permit.shard == authority.sealed.item.shard &&
  command.permit.catalogueRevision == store.revision + 1 &&
  (authority.previousAuthorityEpoch ≤ command.permit.authorityEpoch) &&
  !(command.permit.authorityEpoch == authority.previousAuthorityEpoch &&
    authority.previousExpiresAt.any fun expiresAt => context.occurredAt < expiresAt)

def validateAuthority (context : CommandContext) (command : IssueVersionCleanupPermit)
    (authority : PermitAuthority) : Except RepositoryError Unit := do
  require (store.env.meshes.length == 1) .corruptState
  require (permitFollows store context command authority) .staleRevision
  if command.attemptSequence = 1 then
    require (command.permit.operationId == authority.sealed.item.removalOperationId) .invalidCommand
  else
    require (!(store.operations.contains command.permit.operationId ||
      isReservedOperation store command.permit.operationId)) .operationConflict

def attemptOf (command : IssueVersionCleanupPermit) (revision : Revision) : Attempt where
  cleanupOperationId := command.cleanupOperationId
  itemIndex := command.itemIndex
  attemptSequence := command.attemptSequence
  permitOperationId := command.permit.operationId
  meshId := command.permit.meshId
  authorityEpoch := command.permit.authorityEpoch
  issuedAt := context.occurredAt
  expiresAt := command.permit.expiresAt
  permitDigest := command.permit.permitDigest
  issueOperationId := context.operationId
  revision := revision

def issue (context : CommandContext) (command : IssueVersionCleanupPermit)
    (revision : Revision) : Except RepositoryError Store := do
  require (validateIssueShape context command revision) .invalidCommand
  let authority ← loadAuthority store command.cleanupOperationId command.itemIndex
  validateAuthority store context command authority
  checkedI64 command.attemptSequence
  checkedI64 command.permit.authorityEpoch
  let attempts ← insertUnique (fun new old => new.permitOperationId == old.permitOperationId ||
      new.permitDigest == old.permitDigest || new.issueOperationId == old.issueOperationId ||
      new.revision == old.revision)
    store.attempts (attemptOf context command revision)
  pure { store with attempts := attempts }

/-! ## Completion -/

def tombstoneReceiptDigest (permit : RemovalPermit) : Digest :=
  .over "meshspan.storage.tombstone-receipt.v1" (.join permit.shard.manifestDigest permit.permitDigest)
    [(permit.operationId : Int), permit.shard.stripeIndex, permit.shard.shardIndex,
      permit.shard.generation, permit.targetId, permit.targetGeneration]

/-- The receipt is the provider's answer to exactly this permit. -/
def receiptMatches (receipt : TombstoneReceipt) (permit : RemovalPermit) : Bool :=
  receipt.operationId == permit.operationId && receipt.shard == permit.shard &&
  receipt.targetId == permit.targetId && receipt.targetGeneration == permit.targetGeneration &&
  receipt.permitDigest == permit.permitDigest && receipt.tombstoneDigest == tombstoneReceiptDigest permit

def validateReporter (node : NodeId) (incarnation : Nat) : Except RepositoryError Unit :=
  require ((memberNode? env node).any (·.currentIncarnation == incarnation)) .staleRevision

/-- A stored completion with its exact permit, checked again. -/
def checkCompletion (row : Completion) : Except RepositoryError Completion := do
  require (row.permitAttemptSequence != 0 && row.reporterIncarnation != 0 &&
    row.receipt.permitDigest != zeroDigest && row.receipt.tombstoneDigest != zeroDigest &&
    row.revision != 0) .corruptState
  let (attempt, item) ← exactAttempt store row.cleanupOperationId row.itemIndex row.permitAttemptSequence
  require (receiptMatches row.receipt (attempt.permit item)) .corruptState
  pure row

def completion? : Option Completion :=
  store.completions.find? fun row => row.cleanupOperationId == cleanup && row.itemIndex == index

def loadCompletion : Except RepositoryError (Option Completion) :=
  match completion? store cleanup index with
  | none => .ok none
  | some row => do
    let row ← checkCompletion store row
    pure (some row)

def Completion.digest (row : Completion) : Digest :=
  .over "" (chained [row.receipt.shard.manifestDigest, row.receipt.permitDigest, row.receipt.tombstoneDigest])
    [(row.itemIndex : Int), row.permitAttemptSequence, row.receipt.operationId, row.receipt.targetId,
      row.receipt.targetGeneration, row.receipt.shard.stripeIndex, row.receipt.shard.shardIndex,
      row.receipt.shard.generation, row.reporterNodeId, row.reporterIncarnation,
      row.completionOperationId, row.completedAt, row.revision]

def completionsOf : List Completion :=
  store.completions.filter (·.cleanupOperationId == cleanup)

/-- Every completion of a cleanup is checked again and hashed. -/
def orderedCompletionDigest (sealedRevision : Revision) : Except RepositoryError (Nat × Digest) := do
  let rows ← (completionsOf store cleanup).mapM (checkCompletion store)
  pure (rows.length, .over "meshspan.version-cleanup-completion.v1" (chained (rows.map Completion.digest))
    [(cleanup : Int), sealedRevision, rows.length])

def summaryConflict (new old : Summary) : Bool :=
  new.cleanupOperationId == old.cleanupOperationId || new.digest == old.digest ||
  new.operationId == old.operationId || new.revision == old.revision

/-- The completion summary is written with the last completion. -/
def completeSummaryIfReady (context : CommandContext) (cleanup : OperationId)
    (revision : Revision) : Except RepositoryError Store :=
  match inventory? store cleanup with
  | none => .error .sqlite
  | some inventory =>
    match inventory.sealed with
    | none => .error .sqlite
    | some mark => do
      let (count, digest) ← orderedCompletionDigest store cleanup mark.revision
      if count < inventory.expectedItemCount then pure store
      else do
        require (count == inventory.expectedItemCount) .corruptState
        let summaries ← insertUnique summaryConflict store.completionSummaries
          ⟨cleanup, count, 0, digest, context.operationId, context.occurredAt, revision⟩
        pure { store with completionSummaries := summaries }

def validateCompleteShape (command : CompleteVersionCleanupItem) : Bool :=
  context.expectedRevision.isSome && command.inventorySealedRevision != 0 &&
  command.permitAttemptSequence != 0 && command.reporterIncarnation != 0 &&
  command.receipt.permitDigest != zeroDigest && command.receipt.tombstoneDigest != zeroDigest &&
  context.operationId != command.cleanupOperationId && context.operationId != command.receipt.operationId

def completionOf (command : CompleteVersionCleanupItem) (revision : Revision) : Completion where
  cleanupOperationId := command.cleanupOperationId
  itemIndex := command.itemIndex
  permitAttemptSequence := command.permitAttemptSequence
  receipt := command.receipt
  reporterNodeId := command.reporterNodeId
  reporterIncarnation := command.reporterIncarnation
  completionOperationId := context.operationId
  completedAt := context.occurredAt
  revision := revision

def complete (context : CommandContext) (command : CompleteVersionCleanupItem)
    (revision : Revision) : Except RepositoryError Store := do
  require (validateCompleteShape context command) .invalidCommand
  let sealed ← sealedItem store command.cleanupOperationId command.itemIndex
  require (command.inventorySealedRevision == sealed.sealedRevision) .staleRevision
  require (command.reporterNodeId == sealed.item.storageNodeId) .invalidCommand
  let present ← loadCompletion store command.cleanupOperationId command.itemIndex
  require present.isNone .operationConflict
  let (attempt, item) ← exactAttempt store command.cleanupOperationId command.itemIndex
    command.permitAttemptSequence
  require (receiptMatches command.receipt (attempt.permit item)) .invalidCommand
  validateReporter store.env command.reporterNodeId command.reporterIncarnation
  let completions ← insertUnique (fun new old =>
      (new.cleanupOperationId == old.cleanupOperationId && new.itemIndex == old.itemIndex) ||
      new.receipt.operationId == old.receipt.operationId ||
      new.receipt.tombstoneDigest == old.receipt.tombstoneDigest ||
      new.completionOperationId == old.completionOperationId || new.revision == old.revision)
    store.completions (completionOf context command revision)
  completeSummaryIfReady { store with completions := completions } context command.cleanupOperationId
    revision

/-! ## Reclamation -/

def reclamationReceiptDigest (tombstone : TombstoneReceipt) (bytesUnlinkedAt : UnixMicros)
    (reclaimedBytes : Nat) : Digest :=
  .over "meshspan.storage.reclamation-receipt.v1"
    (chained [tombstone.shard.manifestDigest, tombstone.permitDigest, tombstone.tombstoneDigest])
    [(tombstone.operationId : Int), tombstone.shard.stripeIndex, tombstone.shard.shardIndex,
      tombstone.shard.generation, tombstone.targetId, tombstone.targetGeneration, bytesUnlinkedAt,
      reclaimedBytes]

def reclamationMatches (receipt : ReclamationReceipt) (tombstone : TombstoneReceipt) : Bool :=
  receipt.tombstone == tombstone && receipt.reclaimedBytes != 0 &&
  receipt.reclamationDigest ==
    reclamationReceiptDigest tombstone receipt.bytesUnlinkedAt receipt.reclaimedBytes

/-- A stored reclamation with its completion, checked again. -/
def checkReclamation (row : Reclamation) : Except RepositoryError Reclamation := do
  require (row.reporterIncarnation != 0 && row.receipt.reclaimedBytes != 0 &&
    row.receipt.reclamationDigest != zeroDigest &&
    (row.receipt.bytesUnlinkedAt ≤ row.reclaimedAt) && row.revision != 0) .corruptState
  let completion ← loadCompletion store row.cleanupOperationId row.itemIndex
  match completion with
  | none => .error .corruptState
  | some completion => do
    require (reclamationMatches row.receipt completion.receipt &&
      row.reporterNodeId == completion.reporterNodeId) .corruptState
    pure row

def reclamation? : Option Reclamation :=
  store.reclamations.find? fun row => row.cleanupOperationId == cleanup && row.itemIndex == index

def loadReclamation : Except RepositoryError (Option Reclamation) :=
  match reclamation? store cleanup index with
  | none => .ok none
  | some row => do
    let row ← checkReclamation store row
    pure (some row)

def Reclamation.digest (row : Reclamation) : Digest :=
  .over "" (.join row.receipt.tombstone.tombstoneDigest row.receipt.reclamationDigest)
    [(row.itemIndex : Int), row.receipt.bytesUnlinkedAt, row.receipt.reclaimedBytes,
      row.reporterNodeId, row.reporterIncarnation, row.reclamationOperationId, row.reclaimedAt,
      row.revision]

def reclamationsOf : List Reclamation :=
  store.reclamations.filter (·.cleanupOperationId == cleanup)

/-- Every reclamation of a cleanup is checked again, counted and hashed. -/
def orderedReclamationDigest (completionDigest : Digest) :
    Except RepositoryError (Nat × Nat × Digest) := do
  let rows ← (reclamationsOf store cleanup).mapM (checkReclamation store)
  let bytes := (rows.map (·.receipt.reclaimedBytes)).sum
  require ((bytes ≤ u64Max)) .capacityExceeded
  pure (rows.length, bytes, .over "meshspan.version-cleanup-reclamation.v1"
    (.join completionDigest (chained (rows.map Reclamation.digest)))
    [(cleanup : Int), rows.length, bytes])

/-- The reclamation summary is written with the last reclamation, if all items are complete. -/
def reclaimSummaryIfReady (context : CommandContext) (cleanup : OperationId)
    (revision : Revision) : Except RepositoryError Store :=
  match get Summary.cleanupOperationId cleanup store.completionSummaries with
  | none => .ok store
  | some terminal => do
    let (count, bytes, digest) ← orderedReclamationDigest store cleanup terminal.digest
    if count < terminal.itemCount then pure store
    else do
      require (count == terminal.itemCount) .corruptState
      checkedI64 bytes
      let summaries ← insertUnique summaryConflict store.reclamationSummaries
        ⟨cleanup, count, bytes, digest, context.operationId, context.occurredAt, revision⟩
      pure { store with reclamationSummaries := summaries }

def validateConfirmShape (command : ConfirmVersionCleanupReclamation) : Bool :=
  context.expectedRevision.isSome && command.reporterIncarnation != 0 &&
  command.receipt.reclaimedBytes != 0 && command.receipt.reclamationDigest != zeroDigest &&
  (command.receipt.bytesUnlinkedAt ≤ context.occurredAt) &&
  context.operationId != command.cleanupOperationId &&
  context.operationId != command.receipt.tombstone.operationId

def reclamationOf (command : ConfirmVersionCleanupReclamation) (revision : Revision) : Reclamation where
  cleanupOperationId := command.cleanupOperationId
  itemIndex := command.itemIndex
  receipt := command.receipt
  reporterNodeId := command.reporterNodeId
  reporterIncarnation := command.reporterIncarnation
  reclamationOperationId := context.operationId
  reclaimedAt := context.occurredAt
  revision := revision

def confirm (context : CommandContext) (command : ConfirmVersionCleanupReclamation)
    (revision : Revision) : Except RepositoryError Store := do
  require (validateConfirmShape context command) .invalidCommand
  let completion ← loadCompletion store command.cleanupOperationId command.itemIndex
  match completion with
  | none => .error .invalidCommand
  | some completion => do
    require (reclamationMatches command.receipt completion.receipt) .invalidCommand
    require (command.reporterNodeId == completion.reporterNodeId) .invalidCommand
    validateReporter store.env command.reporterNodeId command.reporterIncarnation
    let present ← loadReclamation store command.cleanupOperationId command.itemIndex
    require present.isNone .operationConflict
    checkedI64 command.receipt.reclaimedBytes
    let reclamations ← insertUnique (fun new old =>
        (new.cleanupOperationId == old.cleanupOperationId && new.itemIndex == old.itemIndex) ||
        new.receipt.reclamationDigest == old.receipt.reclamationDigest ||
        new.reclamationOperationId == old.reclamationOperationId || new.revision == old.revision)
      store.reclamations (reclamationOf context command revision)
    reclaimSummaryIfReady { store with reclamations := reclamations } context
      command.cleanupOperationId revision

/-! ## Committed entries -/

def execute (store : Store) (context : CommandContext) (revision : Revision) :
    Command → Except RepositoryError Store
  | .registerKey command => registerKey scheme store command
  | .propose command => propose store context command revision
  | .attest attestation => attest scheme store context attestation revision
  | .authorise command => authorise scheme store context command revision
  | .cancel command => cancel store context command revision
  | .append command => append store context command revision
  | .sealInventory command => sealInventory store context command revision
  | .issue command => issue store context command revision
  | .complete command => complete store context command revision
  | .confirm command => confirm store context command revision
  | .other env => .ok { store with env := env }

structure Entry where
  context : CommandContext
  command : Command

/-- One committed entry. A repeated operation is answered from its record and changes nothing. -/
def apply (store : Store) (entry : Entry) : Except RepositoryError Store :=
  if store.operations.contains entry.context.operationId then .ok store
  else if isReservedOperation store entry.context.operationId then .error .operationConflict
  else if entry.context.expectedRevision.any (· != store.revision) then
    .error .staleRevision
  else do
    checkedI64 (store.revision + 1)
    let next ← execute scheme store entry.context (store.revision + 1) entry.command
    pure { next with
      revision := store.revision + 1
      operations := store.operations ++ [entry.context.operationId] }

/-- An entry that fails leaves the store as it was. -/
def step (store : Store) (entry : Entry) : Store :=
  match apply scheme store entry with
  | .ok next => next
  | .error _ => store

def run (history : List Entry) : Store :=
  history.foldl (step scheme) emptyStore

end MeshSpan.Cleanup
