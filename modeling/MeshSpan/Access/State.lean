import MeshSpan.Rows
import MeshSpan.Branch.Namespace

/- The committed metadata that an access decision reads.

   One partition database holds identities, nested groups, owners, allow-grants,
   the recorded namespace objects and the authentication records. Evaluation is
   read only; a request names a credential, a gateway, an object and the instant
   at which every time window is judged.

   Correspondence (Rust ↔ Lean)
     access_evaluation.rs      AccessRequest, AccessDenial, AccessCapability
     meshspan-domain access.rs Rights, AssuranceLevel, AuthenticationService,
                               AuthenticationMethodKind
     schema/partition/001, 025, 026, 042, 044 to 049, 108   the row types

   The rows of a table are listed in the order of its primary key. A column that
   a CHECK constraint keeps to a few codes has an inductive type. An end that is
   NULL, because there is none, is `⊤`. -/

namespace MeshSpan

abbrev GrantId := Nat
abbrev OwnerSetId := Nat
abbrev SessionId := Nat
abbrev ApiKeyId := Nat
abbrev MethodId := Nat
abbrev ActivationPolicyId := Nat

namespace Access

open Rows

/-- An instant, or no end at all (`Option<UnixMicros>` as an expiry). -/
abbrev Expiry := WithTop UnixMicros

/-- The computable order, in which no end is the latest. -/
instance Expiry.linearOrder : LinearOrder Expiry := @WithTop.linearOrder Int Int.instLinearOrder

instance : LE Expiry := Expiry.linearOrder.toLE

instance : LT Expiry := Expiry.linearOrder.toLT

instance : DecidableLT Expiry := Expiry.linearOrder.toDecidableLT

instance : DecidableLE Expiry := Expiry.linearOrder.toDecidableLE

abbrev definedRights : Nat := 13

abbrev Rights := BitVec definedRights

inductive RepositoryError where
  | corruptState
  | capacityExceeded
  | sqlite
deriving DecidableEq, Repr

/-! ## Authentication vocabulary -/

inductive AssuranceLevel where
  | singleFactor
  | multiFactor
  | recentStepUp
deriving DecidableEq, Repr

inductive AuthenticationService where
  | https
  | headlessApi
  | smb
deriving DecidableEq, Repr

/-- `scope_bit`, and the capability bit an API key needs to log in. -/
def AuthenticationService.scopeBit : AuthenticationService → Nat
  | .https => 1
  | .headlessApi => 2
  | .smb => 4

inductive AuthenticationOperationClass where
  | sessionEstablishment
  | ordinary
  | privileged
  | recovery
deriving DecidableEq, Repr

inductive AuthenticationMethodKind where
  | passkey
  | totp
  | recoveryCode
  | apiKey
deriving DecidableEq, Repr

def AuthenticationMethodKind.isPrimary : AuthenticationMethodKind → Bool
  | .passkey | .apiKey => true
  | .totp | .recoveryCode => false

def AuthenticationMethodKind.classBit : AuthenticationMethodKind → Nat
  | .passkey => 1
  | .totp => 2
  | .recoveryCode => 4
  | .apiKey => 8

/-! ## Request and decision -/

structure AccessRequest where
  authenticationService : AuthenticationService
  credentialDigest : Digest
  requiredAssurance : AssuranceLevel
  gatewayNodeId : NodeId
  gatewayIncarnation : Nat
  volumeId : VolumeId
  objectId : ObjectId
  requestedRights : Rights
  now : UnixMicros

inductive AccessDenial where
  | authenticationUnavailable
  | insufficientAssurance
  | gatewayUnavailable
  | objectUnavailable
  | missingRights
deriving DecidableEq, Repr

inductive AccessAuthentication where
  | session (sessionId : SessionId)
  | apiKey (keyId : ApiKeyId)
deriving Repr

/-- A capability and everything it is tied to. Its digest binds exactly these fields. -/
structure AccessCapability where
  authentication : AccessAuthentication
  authenticationService : AuthenticationService
  principalId : PrincipalId
  gatewayNodeId : NodeId
  gatewayIncarnation : Nat
  volumeId : VolumeId
  objectId : ObjectId
  (requestedRights effectiveRights : Rights)
  (identityRevision namespaceRevision objectRevision gatewayRevision : Revision)
  expiresAt : UnixMicros

inductive AccessDecision where
  | granted (capability : AccessCapability)
  | denied (denial : AccessDenial)

/-! ## Identities, groups and activations -/

/-- `state` of a principal, a method or a grant: 1, 2 or 3. -/
inductive Lifecycle where
  | active
  | suspended
  | retired
deriving DecidableEq, Repr

structure Principal where
  principalId : PrincipalId
  state : Lifecycle
  revision : Revision

structure Group where
  principalId : PrincipalId
  activationPolicyId : Option ActivationPolicyId

structure GroupMembership where
  (containingGroupId memberPrincipalId : PrincipalId)
  removed : Bool
  validFrom : Option UnixMicros
  validUntil : Expiry
  activationRequired : Bool

/-- One row of the derived table of nested containment. -/
structure GroupClosure where
  (containingGroupId memberPrincipalId : PrincipalId)

structure ActivationPolicy where
  policyId : ActivationPolicyId
  revision : Revision

/-- What an activation switches on: exactly one of a group and a grant. -/
inductive ActivationSource where
  | group (groupId : PrincipalId)
  | grant (grantId : GrantId)

structure AccessActivation where
  principalId : PrincipalId
  source : ActivationSource
  policyId : ActivationPolicyId
  (identityRevision sourceRevision policyRevision : Revision)
  (activatedAt expiresAt : UnixMicros)
  revoked : Bool
  revision : Revision

/-! ## Objects, owners and grants -/

structure NamespaceObject where
  objectId : ObjectId
  volumeId : VolumeId
  parentObjectId : Option ObjectId
  ownerSetId : OwnerSetId
  active : Bool
  revision : Revision
  stopParentGrantInheritance : Bool
deriving DecidableEq

structure ObjectOwner where
  ownerSetId : OwnerSetId
  ownerPrincipalId : PrincipalId

inductive GrantScope where
  | mesh
  | volume (volumeId : VolumeId)
  | object (volumeId : VolumeId) (objectId : ObjectId)
deriving DecidableEq

inductive GrantInheritance where
  | objectOnly
  | descendantsOnly
  | objectAndDescendants
deriving DecidableEq

def GrantInheritance.exact : GrantInheritance → Bool
  | .objectOnly | .objectAndDescendants => true
  | .descendantsOnly => false

def GrantInheritance.descendants : GrantInheritance → Bool
  | .descendantsOnly | .objectAndDescendants => true
  | .objectOnly => false

structure PermissionGrant where
  grantId : GrantId
  subjectPrincipalId : PrincipalId
  scope : GrantScope
  rights : Rights
  inheritance : GrantInheritance
  validFrom : Option UnixMicros
  validUntil : Expiry
  activationPolicyId : Option ActivationPolicyId
  state : Lifecycle
  revision : Revision
deriving DecidableEq

/-! ## Authentication records -/

structure AuthenticationMethod where
  methodId : MethodId
  userPrincipalId : PrincipalId
  kind : AuthenticationMethodKind
  serviceScope : Nat
  state : Lifecycle
  createdAt : UnixMicros
  expiresAt : Expiry
  credentialGeneration : Nat
  revision : Revision

structure AuthenticationSession where
  sessionId : SessionId
  tokenDigest : Digest
  userPrincipalId : PrincipalId
  service : AuthenticationService
  assurance : AssuranceLevel
  identityRevision : Revision
  (issuedAt expiresAt : UnixMicros)
  revoked : Bool
  sourceSessionId : Option SessionId

structure SessionFactor where
  sessionId : SessionId
  sequence : Nat
  methodId : MethodId
  kind : AuthenticationMethodKind
  (credentialReference credentialGeneration : Nat)
  authenticatedAt : UnixMicros

inductive Credential where
  | passkey (methodId : MethodId) (credentialId : Nat)
  | totp (methodId : MethodId)
  | recoveryCode (methodId : MethodId) (codeId : Nat) (usedAt : Option UnixMicros)
deriving DecidableEq

structure ApiKey where
  methodId : MethodId
  keyId : ApiKeyId
  keyDigest : Digest
  scopes : Nat
  validFrom : UnixMicros
  validUntil : Expiry
  lastUsedAt : Option UnixMicros
  revision : Revision

structure AuthenticationPolicy where
  service : AuthenticationService
  operationClass : AuthenticationOperationClass
  (sequence allowedFactorClasses minimumFactorCount maximumSessionDuration : Nat)
  maximumStepUpAge : Option Nat

/-! ## The database -/

structure GatewayNode where
  nodeId : NodeId
  currentIncarnation : Nat
  active : Bool
  revision : Revision

structure Metadata where
  /-- Identity and namespace revision of the one row of `meshes`. -/
  mesh : Option (Revision × Revision)
  nodes : List GatewayNode
  principals : List Principal
  groups : List Group
  memberships : List GroupMembership
  closure : List GroupClosure
  activationPolicies : List ActivationPolicy
  activations : List AccessActivation
  /-- `partition_recovery_credential_fence`: older activations no longer count. -/
  credentialFence : Option Revision
  volumes : List VolumeId
  objects : List NamespaceObject
  owners : List ObjectOwner
  grants : List PermissionGrant
  methods : List AuthenticationMethod
  sessions : List AuthenticationSession
  factors : List SessionFactor
  credentials : List Credential
  apiKeys : List ApiKey
  policies : List AuthenticationPolicy

namespace Metadata

variable (md : Metadata)

def principal? (id : PrincipalId) : Option Principal :=
  get Principal.principalId id md.principals

def group? (id : PrincipalId) : Option Group := get Group.principalId id md.groups

def object? (id : ObjectId) : Option NamespaceObject :=
  get NamespaceObject.objectId id md.objects

def method? (id : MethodId) : Option AuthenticationMethod :=
  get AuthenticationMethod.methodId id md.methods

def activationPolicy? (id : ActivationPolicyId) : Option ActivationPolicy :=
  get ActivationPolicy.policyId id md.activationPolicies

def grant? (id : GrantId) : Option PermissionGrant :=
  get PermissionGrant.grantId id md.grants

end Metadata

/-- The tables with the constraints that the schema enforces and a decision relies on. -/
structure Projection extends Metadata where
  /-- `object_id` is the primary key of `namespace_objects`. -/
  objectsKeyed : Keyed NamespaceObject.objectId objects
  /-- `CHECK (rights > 0)` -/
  grantRights : ∀ grant ∈ grants, grant.rights ≠ 0
  /-- One row of a volume has no parent (the unique index on roots). -/
  oneRoot : ∀ a ∈ objects, ∀ b ∈ objects, a.parentObjectId = none → b.parentObjectId = none →
    a.volumeId = b.volumeId → a = b

/-- `valid_from IS NULL OR valid_from <= now`. -/
def started (validFrom : Option UnixMicros) (now : UnixMicros) : Bool :=
  validFrom.all fun start => start ≤ now

/-- `valid_until IS NULL OR valid_until > now`. -/
def unexpired (validUntil : Expiry) (now : UnixMicros) : Bool := (now : Expiry) < validUntil

/-- `parse_revision`: a stored revision is positive. -/
def parseRevision (revision : Revision) : Except RepositoryError Revision :=
  if revision = 0 then .error .corruptState else .ok revision

end Access

end MeshSpan
