import MeshSpan.Access.Authentication
import MeshSpan.Bottleneck

/- Evaluation of one access request against the committed tables.

   A user acts as themself and as every group that a chain of live memberships
   reaches; a chain lasts as long as its shortest window or activation. Owners of
   the target contribute every right, live grants contribute theirs, and a right
   lasts as long as its best source. The capability ends with the credential or
   with the first requested right to end.

   Correspondence (Rust ↔ Lean)
     access_evaluation.rs  evaluate, build_decision, contribute
                           retarget_unrecorded_descendant
     subjects.rs           load_group_activations, load_active_memberships
                           load_effective_subjects_inner ↔ loadEffectiveSubjects
     grants.rs             load_grant_activations, apply_ownership, apply_grants,
                           grant_applies
     authority.rs          load_authority_revisions, load_target_and_ancestors,
                           load_remaining_ancestors
     repository/mod.rs     evaluate_access, evaluate_unrecorded_descendant_access
     cluster filesystem_authority.rs   authorise -/

namespace MeshSpan.Access

open Rows Bottleneck

def maximumMemberships : Nat := 65536
def maximumGrants : Nat := 65536
def maximumOwners : Nat := 1024
def maximumAncestors : Nat := 1024

/-! ## Activations -/

variable (md : Metadata) (user : PrincipalId)

/-- An activation that counts: of this user under the present identity revision, begun, neither
ended nor revoked nor older than a credential recovery, and under the present policy. -/
def activationLive (identityRevision : Revision)
    (now : UnixMicros) (activation : AccessActivation) : Bool :=
  activation.principalId == user && !activation.revoked &&
  (activation.activatedAt ≤ now) && (now < activation.expiresAt) &&
  (md.credentialFence.getD 0 < activation.revision) &&
  activation.identityRevision == identityRevision &&
  (md.activationPolicy? activation.policyId).any fun policy =>
    policy.revision == activation.policyRevision

variable (activation : AccessActivation)

/-- The group an activation switches on, if it is of the group as it stands. -/
def activatedGroup : Option PrincipalId :=
  match activation.source with
  | .grant _ => none
  | .group id =>
    if (md.principal? id).any (·.revision == activation.sourceRevision) &&
        (md.group? id).any (·.activationPolicyId == some activation.policyId) then
      some id
    else none

/-- The grant an activation switches on, if it is of the grant as it stands. -/
def activatedGrant : Option GrantId :=
  match activation.source with
  | .group _ => none
  | .grant id =>
    if (md.grant? id).any (fun grant => grant.revision == activation.sourceRevision &&
        grant.activationPolicyId == some activation.policyId) then
      some id
    else none

/-- The live activations of one kind of source, with their ends. -/
def liveActivations {κ : Type} (md : Metadata) (source : AccessActivation → Option κ)
    (user : PrincipalId) (identityRevision : Revision) (now : UnixMicros) : List (κ × UnixMicros) :=
  (md.activations.filter (activationLive md user identityRevision now)).filterMap fun activation =>
    (source activation).map fun key => (key, activation.expiresAt)

def loadActivations {κ : Type} [DecidableEq κ] (md : Metadata)
    (source : AccessActivation → Option κ) (limit : Nat) (user : PrincipalId)
    (identityRevision : Revision) (now : UnixMicros) : Except RepositoryError (List (κ × UnixMicros)) :=
  if limit < (groupMax (liveActivations md source user identityRevision now)).length then
    .error .capacityExceeded
  else .ok (groupMax (liveActivations md source user identityRevision now))

variable (authentication : AuthenticatedPrincipal)

def loadGroupActivations
    (now : UnixMicros) : Except RepositoryError (List (PrincipalId × UnixMicros)) :=
  loadActivations md (activatedGroup md) maximumMemberships authentication.principalId
    authentication.identityRevision now

def loadGrantActivations (now : UnixMicros) : Except RepositoryError (List (GrantId × UnixMicros)) :=
  loadActivations md (activatedGrant md) maximumGrants authentication.principalId
    authentication.identityRevision now

/-! ## Effective subjects -/

/-- The user or a group that contains them, by the derived closure. -/
def inClosure (user principal : PrincipalId) : Bool :=
  principal == user || md.closure.any fun row =>
    row.memberPrincipalId == user && row.containingGroupId == principal

variable (now : UnixMicros) (membership : GroupMembership)

/-- The rows that `load_active_memberships` selects: standing memberships of active groups, inside
their window, of the user or of a group that contains them. -/
def membershipSelected : Bool :=
  !membership.removed && (md.group? membership.containingGroupId).isSome &&
  principalActive md membership.containingGroupId &&
  started membership.validFrom now && unexpired membership.validUntil now &&
  inClosure md user membership.memberPrincipalId

def selectedMemberships : List GroupMembership := md.memberships.filter (membershipSelected md user now)

def groupHasPolicy (id : PrincipalId) : Bool :=
  (md.group? id).any (·.activationPolicyId.isSome)

structure MembershipEdge where
  (containingGroup member : PrincipalId)
  expiresAt : Expiry
  requiresActivation : Bool

/-- A membership that requires activation of a group without a policy is corrupt. -/
def membershipEdge : Except RepositoryError MembershipEdge :=
  if membership.activationRequired ∧ ¬ groupHasPolicy md membership.containingGroupId then
    .error .corruptState
  else .ok {
    containingGroup := membership.containingGroupId
    member := membership.memberPrincipalId
    expiresAt := membership.validUntil
    requiresActivation := membership.activationRequired || groupHasPolicy md membership.containingGroupId }

def loadActiveMemberships : Except RepositoryError (List MembershipEdge) := do
  let edges ← ((selectedMemberships md user now).take maximumMemberships).mapM (membershipEdge md)
  if maximumMemberships < (selectedMemberships md user now).length then .error .capacityExceeded
  else pure edges

/-- What a membership carries: its window, cut by the activation it needs. -/
def edgeCapacity (activations : List (PrincipalId × UnixMicros)) (edge : MembershipEdge) :
    Option Expiry :=
  if edge.requiresActivation then
    (label activations edge.containingGroup).map fun instant : UnixMicros => min edge.expiresAt instant
  else some edge.expiresAt

/-- The usable edges: those that need an activation have one. -/
def usableEdges (activations : List (PrincipalId × UnixMicros)) (edges : List MembershipEdge) :
    List (Edge PrincipalId Expiry) :=
  edges.filterMap fun edge => (edgeCapacity activations edge).map fun capacity =>
    { source := edge.member, target := edge.containingGroup, capacity := capacity }

def loadEffectiveSubjects (now : UnixMicros) (activations : List (PrincipalId × UnixMicros)) :
    Except RepositoryError (List (PrincipalId × Expiry)) := do
  let edges ← loadActiveMemberships md authentication.principalId now
  match widest (usableEdges activations edges) maximumMemberships authentication.principalId with
  | none => .error .capacityExceeded
  | some subjects => pure subjects

/-! ## Authority revisions and the target -/

structure AuthorityRevisions where
  (identity ofNamespace gateway : Revision)

variable (request : AccessRequest)

/-- The gateway's revision is zero when no active node has this incarnation. -/
def loadAuthorityRevisions : Except RepositoryError AuthorityRevisions :=
  match md.mesh with
  | none => .error .sqlite
  | some (identity, ofNamespace) =>
    if i64Max < request.gatewayIncarnation then .error .capacityExceeded
    else do
      let identity ← parseRevision identity
      let ofNamespace ← parseRevision ofNamespace
      match (get GatewayNode.nodeId request.gatewayNodeId md.nodes).filter fun node =>
          node.currentIncarnation == request.gatewayIncarnation && node.active with
      | none => pure ⟨identity, ofNamespace, 0⟩
      | some node => do
        let gateway ← parseRevision node.revision
        pure ⟨identity, ofNamespace, gateway⟩

structure Target where
  objectRevision : Revision
  ownerSetId : OwnerSetId
  (isRoot inheritsVolumeGrants : Bool)

/-- `… WHERE object_id = ?1 AND state = 1` -/
def activeObject? (id : ObjectId) : Option NamespaceObject :=
  (md.object? id).filter (·.active)

/-- Walk up from `current`; the result says whether the walk ended at a root. -/
def loadRemainingAncestors (md : Metadata) (volume : VolumeId) :
    Nat → List ObjectId → List ObjectId → ObjectId → Except RepositoryError (Bool × List ObjectId)
  | 0, _, _, _ => .error .capacityExceeded
  | fuel + 1, visited, ancestors, current =>
    if current ∈ visited then .error .corruptState
    else match activeObject? md current with
      | none => .error .sqlite
      | some row =>
        if row.volumeId ≠ volume then .error .corruptState
        else if row.stopParentGrantInheritance then .ok (false, ancestors)
        else match row.parentObjectId with
          | none => .ok (true, ancestors)
          | some parent =>
            loadRemainingAncestors md volume fuel (current :: visited) (ancestors ++ [parent]) parent

def loadTargetAndAncestors : Except RepositoryError (Option (Target × List ObjectId)) :=
  match activeObject? md request.objectId with
  | none => .ok none
  | some row =>
    if row.volumeId ≠ request.volumeId then .ok none
    else do
      let revision ← parseRevision row.revision
      match row.parentObjectId with
      | none => pure (some (⟨revision, row.ownerSetId, true, !row.stopParentGrantInheritance⟩, []))
      | some parent =>
        if row.stopParentGrantInheritance then
          pure (some (⟨revision, row.ownerSetId, false, false⟩, []))
        else do
          let (inherits, ancestors) ← loadRemainingAncestors md request.volumeId maximumAncestors
            [request.objectId] [parent] parent
          pure (some (⟨revision, row.ownerSetId, false, inherits⟩, ancestors))

/-! ## Contributions -/

/-- For each right how long it lasts, or that no source has it. -/
abbrev Lifetimes := Fin definedRights → Option Expiry

variable (lifetimes : Lifetimes)

def contribute (rights : Rights) (expiry : Expiry) : Lifetimes := fun right =>
  if rights.getLsbD right && improves (lifetimes right) expiry then some expiry else lifetimes right

def ownersOf (ownerSetId : OwnerSetId) : List PrincipalId :=
  (md.owners.filter (·.ownerSetId == ownerSetId)).map ObjectOwner.ownerPrincipalId

def contributeOwner (subjects : List (PrincipalId × Expiry)) (lifetimes : Lifetimes)
    (owner : PrincipalId) : Lifetimes :=
  match label subjects owner with
  | none => lifetimes
  | some expiry => contribute lifetimes (BitVec.allOnes definedRights) expiry

def applyOwnership (ownerSetId : OwnerSetId) (subjects : List (PrincipalId × Expiry))
    (lifetimes : Lifetimes) : Except RepositoryError Lifetimes :=
  if maximumOwners < (ownersOf md ownerSetId).length then .error .capacityExceeded
  else if ownersOf md ownerSetId = [] then .error .corruptState
  else .ok ((ownersOf md ownerSetId).foldl (contributeOwner subjects) lifetimes)

structure GrantEvaluation where
  request : AccessRequest
  principalId : PrincipalId
  (targetIsRoot inheritsVolumeGrants : Bool)
  ancestors : List ObjectId
  subjects : List (PrincipalId × Expiry)
  activations : List (GrantId × UnixMicros)

variable (volume : VolumeId)

/-- A grant on the whole mesh, or somewhere in the volume. -/
def GrantScope.inVolume : GrantScope → Bool
  | .mesh => true
  | .volume id => id == volume
  | .object id _ => id == volume

/-- The rows that `apply_grants` selects. -/
def grantSelected (now : UnixMicros) (grant : PermissionGrant) : Bool :=
  grant.state == .active && started grant.validFrom now && unexpired grant.validUntil now &&
  grant.scope.inVolume volume && inClosure md user grant.subjectPrincipalId

def selectedGrants (volume : VolumeId) (now : UnixMicros) :
    List PermissionGrant := md.grants.filter (grantSelected md user volume now)

variable (evaluation : GrantEvaluation)

def grantApplies (grant : PermissionGrant) : Except RepositoryError Bool :=
  match grant.scope with
  | .mesh => .ok (evaluation.inheritsVolumeGrants && grant.inheritance.descendants)
  | .volume volume =>
    if volume = evaluation.request.volumeId then
      .ok (evaluation.inheritsVolumeGrants &&
        ((evaluation.targetIsRoot && grant.inheritance.exact) ||
          (!evaluation.targetIsRoot && grant.inheritance.descendants)))
    else .error .corruptState
  | .object volume object =>
    if volume = evaluation.request.volumeId then
      .ok ((object == evaluation.request.objectId && grant.inheritance.exact) ||
        (evaluation.ancestors.contains object && grant.inheritance.descendants))
    else .error .corruptState

/-- The end of the activation that a grant needs: `none` when it has none. -/
def grantActivationExpiry (activations : List (GrantId × UnixMicros)) (grant : PermissionGrant) :
    Option Expiry :=
  if grant.activationPolicyId.isSome then
    (label activations grant.grantId).map fun instant : UnixMicros => (instant : Expiry)
  else some ⊤

/-- One row of the loop of `apply_grants`. -/
def applyGrant (lifetimes : Lifetimes) (grant : PermissionGrant) : Except RepositoryError Lifetimes :=
  match label evaluation.subjects grant.subjectPrincipalId with
  | none => .ok lifetimes
  | some subjectExpiry => do
    let applies ← grantApplies evaluation grant
    if applies then
      match grantActivationExpiry evaluation.activations grant with
      | none => pure lifetimes
      | some activationExpiry =>
        if grant.rights = 0 then .error .corruptState
        else pure (contribute lifetimes grant.rights
          (min subjectExpiry (min grant.validUntil activationExpiry)))
    else pure lifetimes

def applyGrants (lifetimes : Lifetimes) : Except RepositoryError Lifetimes := do
  let applied ← ((selectedGrants md evaluation.principalId evaluation.request.volumeId
    evaluation.request.now).take maximumGrants).foldlM (applyGrant evaluation) lifetimes
  if maximumGrants < (selectedGrants md evaluation.principalId evaluation.request.volumeId
      evaluation.request.now).length then .error .capacityExceeded
  else pure applied

/-! ## The decision -/

def earlier (instant : UnixMicros) : Expiry → UnixMicros
  | ⊤ => instant
  | (source : UnixMicros) => min instant source

/-- The loop of `build_decision`: the end of the requested rights, `none` when one is missing. -/
def requestedExpiry (requested : Rights) (lifetimes : Lifetimes) :
    List (Fin definedRights) → UnixMicros → Option UnixMicros
  | [], expiresAt => some expiresAt
  | right :: rest, expiresAt =>
    if requested.getLsbD right then
      match lifetimes right with
      | none => none
      | some source => requestedExpiry requested lifetimes rest (earlier expiresAt source)
    else requestedExpiry requested lifetimes rest expiresAt

def effectiveBits : Rights :=
  BitVec.ofBoolListLE ((List.finRange definedRights).map fun right => (lifetimes right).isSome)

def buildDecision (authentication : AuthenticatedPrincipal)
    (target : Target) (revisions : AuthorityRevisions) (lifetimes : Lifetimes) : AccessDecision :=
  match requestedExpiry request.requestedRights lifetimes (List.finRange definedRights)
      authentication.expiresAt with
  | none => .denied .missingRights
  | some expiresAt =>
    if expiresAt ≤ request.now then .denied .missingRights
    else .granted {
      authentication := authentication.authentication
      authenticationService := request.authenticationService
      principalId := authentication.principalId
      gatewayNodeId := request.gatewayNodeId
      gatewayIncarnation := request.gatewayIncarnation
      volumeId := request.volumeId
      objectId := request.objectId
      requestedRights := request.requestedRights
      effectiveRights := effectiveBits lifetimes
      identityRevision := revisions.identity
      namespaceRevision := revisions.ofNamespace
      objectRevision := target.objectRevision
      gatewayRevision := revisions.gateway
      expiresAt := expiresAt }

/-- The rights of an authenticated user on a target: the second half of `evaluate`. -/
def loadLifetimes (authentication : AuthenticatedPrincipal)
    (target : Target) (ancestors : List ObjectId) : Except RepositoryError Lifetimes := do
  let groupActivations ← loadGroupActivations md authentication request.now
  let subjects ← loadEffectiveSubjects md authentication request.now groupActivations
  let grantActivations ← loadGrantActivations md authentication request.now
  let owned ← applyOwnership md target.ownerSetId subjects fun _ => none
  applyGrants md {
    request := request
    principalId := authentication.principalId
    targetIsRoot := target.isRoot
    inheritsVolumeGrants := target.inheritsVolumeGrants
    ancestors := ancestors
    subjects := subjects
    activations := grantActivations } owned

def evaluate : Except RepositoryError AccessDecision :=
  if request.requestedRights = 0 ∨ request.gatewayIncarnation = 0 then .ok (.denied .missingRights)
  else do
    let revisions ← loadAuthorityRevisions md request
    match ← loadAuthentication md request revisions.identity with
    | none => pure (.denied .authenticationUnavailable)
    | some authentication => do
      let permitted ← permitsOperation md request.requiredAssurance authentication.factorState request.now
      if ¬ permitted then pure (.denied .insufficientAssurance)
      else if revisions.gateway = 0 then pure (.denied .gatewayUnavailable)
      else do
        match ← loadTargetAndAncestors md request with
        | none => pure (.denied .objectUnavailable)
        | some (target, ancestors) => do
          let lifetimes ← loadLifetimes md request authentication target ancestors
          pure (buildDecision request authentication target revisions lifetimes)

/-! ## Objects without a row -/

/-- The root of a volume, whatever its state (`volume_inventory_record`). -/
def volumeRoot? : Option NamespaceObject :=
  if md.volumes.contains volume then
    md.objects.find? fun row => row.volumeId == volume && row.parentObjectId.isNone
  else none

def retargetUnrecordedDescendant (decision : AccessDecision) (request : AccessRequest) :
    Except RepositoryError AccessDecision :=
  match decision with
  | .denied denial => .ok (.denied denial)
  | .granted capability =>
    if capability.volumeId ≠ request.volumeId ∨
        capability.requestedRights ≠ request.requestedRights ∨
        capability.objectId = request.objectId ∨ capability.namespaceRevision = 0 then
      .error .corruptState
    else .ok (.granted { capability with
      objectId := request.objectId
      objectRevision := capability.namespaceRevision })

/-- An object without any row is evaluated as the root of its volume. -/
def evaluateUnrecordedDescendantAccess : Except RepositoryError AccessDecision :=
  if (md.object? request.objectId).isSome then .ok (.denied .objectUnavailable)
  else match volumeRoot? md request.volumeId with
    | none => .error .corruptState
    | some root => do
      let decision ← evaluate md { request with objectId := root.objectId }
      retargetUnrecordedDescendant decision request

/-- What `MetadataFilesystemAuthority::authorise` decides. -/
def authorise : Except RepositoryError AccessDecision := do
  match ← evaluate md request with
  | .denied .objectUnavailable => evaluateUnrecordedDescendantAccess md request
  | decision => pure decision

end MeshSpan.Access
