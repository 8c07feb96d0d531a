import MeshSpan.Access.State

/- Who presents a credential, how well authenticated they are, and until when.

   A browser presents a session token; the session stands on recorded factors,
   every one of which must still be current. The other connectors present an API
   key, which counts as a single factor used at the instant of the request. What
   the operation needs is decided by the newest policy of its class.

   Correspondence (Rust ↔ Lean)
     authority.rs              load_session, load_direct_api_key
     session.rs                active_factor_state, validate_current_factors,
                               validate_factor_shape, factor_is_current,
                               validate_current_credential
     authentication_method.rs  authenticate_api_key
     authentication_policy.rs  permits_operation -/

namespace MeshSpan.Access

open Rows

def maximumFactors : Nat := 8

def i64Min : Int := -2 ^ 63

/-! ## Session factors -/

structure SessionFactorState where
  assurance : AssuranceLevel
  service : AuthenticationService
  (factorClasses factorCount : Nat)
  (issuedAt latestAuthenticatedAt : UnixMicros)

structure StoredSessionFactor where
  factor : SessionFactor
  session : AuthenticationSession
  method : AuthenticationMethod

variable (md : Metadata) (session : AuthenticationSession)

/-- The factors of a session in sequence, each joined with its method. -/
def storedSessionFactors : List StoredSessionFactor :=
  (md.factors.filter (·.sessionId == session.sessionId)).filterMap fun factor =>
    (md.method? factor.methodId).map fun method => ⟨factor, session, method⟩

variable (stored : StoredSessionFactor)

/-- A factor row that no command could have left behind is corrupt. -/
def validateFactorShape (expectedSequence : Nat) : Except RepositoryError AuthenticationMethodKind :=
  if ¬ (1 ≤ stored.method.serviceScope ∧ stored.method.serviceScope ≤ 7) then
    .error .corruptState
  else if stored.factor.credentialGeneration = 0 ∨ stored.method.credentialGeneration = 0 then
    .error .corruptState
  else if stored.factor.sequence ≠ expectedSequence ∨ stored.method.kind ≠ stored.factor.kind ∨
      stored.method.userPrincipalId ≠ stored.session.userPrincipalId ∨
      stored.session.issuedAt < stored.factor.authenticatedAt ∨
      (stored.session.sourceSessionId = none ∧
        stored.factor.authenticatedAt ≠ stored.session.issuedAt) ∨
      stored.factor.authenticatedAt < stored.method.createdAt ∨
      stored.method.expiresAt ≤ (stored.method.createdAt : Expiry) ∨
      stored.method.credentialGeneration < stored.factor.credentialGeneration then
    .error .corruptState
  else .ok stored.factor.kind

def credentialExists : AuthenticationMethodKind → Bool
  | .passkey => md.credentials.contains
      (.passkey stored.factor.methodId stored.factor.credentialReference)
  | .totp => md.credentials.contains (.totp stored.factor.methodId)
  | .recoveryCode => md.credentials.contains (.recoveryCode stored.factor.methodId
      stored.factor.credentialReference (some stored.factor.authenticatedAt))
  | .apiKey => md.apiKeys.any fun key =>
      key.methodId == stored.factor.methodId && key.keyId == stored.factor.credentialReference

def factorKeyInForce (now : UnixMicros) : Bool :=
  md.apiKeys.any fun key =>
    key.methodId == stored.factor.methodId && key.keyId == stored.factor.credentialReference &&
    key.scopes &&& stored.session.service.scopeBit == stored.session.service.scopeBit &&
    (key.validFrom ≤ now) && unexpired key.validUntil now

def validateCurrentCredential
    (kind : AuthenticationMethodKind) (now : UnixMicros) : Except RepositoryError Bool :=
  if ¬ credentialExists md stored kind then .error .corruptState
  else if kind ≠ .apiKey then .ok true
  else .ok (factorKeyInForce md stored now)

def factorIsCurrent
    (kind : AuthenticationMethodKind) (now : UnixMicros) : Except RepositoryError Bool :=
  if stored.method.state ≠ .active ∨
      stored.method.credentialGeneration ≠ stored.factor.credentialGeneration ∨
      stored.method.serviceScope &&& stored.session.service.scopeBit = 0 ∨
      stored.method.expiresAt ≤ (now : Expiry) then
    .ok false
  else validateCurrentCredential md stored kind now

/-- What the loop over the factors accumulates. -/
structure FactorSummary where
  (hasPrimary hasAdditional : Bool)
  factorClasses : Nat
  latest : Int

variable (summary : FactorSummary)

def FactorSummary.add (kind : AuthenticationMethodKind)
    (authenticatedAt : UnixMicros) : FactorSummary where
  hasPrimary := summary.hasPrimary || kind.isPrimary
  hasAdditional := summary.hasAdditional || !kind.isPrimary
  factorClasses := summary.factorClasses ||| kind.classBit
  latest := max summary.latest authenticatedAt

/-- The loop of `validate_current_factors`: `none` as soon as a factor is not current. -/
def summariseFactors (md : Metadata) (now : UnixMicros) :
    Nat → FactorSummary → List StoredSessionFactor → Except RepositoryError (Option FactorSummary)
  | _, summary, [] => .ok (some summary)
  | index, summary, stored :: rest => do
    let kind ← validateFactorShape stored (index + 1)
    let current ← factorIsCurrent md stored kind now
    if current then
      summariseFactors md now (index + 1) (summary.add kind stored.factor.authenticatedAt) rest
    else pure none

def FactorSummary.toState (session : AuthenticationSession)
    (count : Nat) : Except RepositoryError SessionFactorState :=
  if ¬ summary.hasPrimary ∨ summary.latest = i64Min then .error .corruptState
  else .ok {
    assurance := if summary.hasAdditional then .multiFactor else .singleFactor
    service := session.service
    factorClasses := summary.factorClasses
    factorCount := count
    issuedAt := session.issuedAt
    latestAuthenticatedAt := summary.latest }

def validateCurrentFactors (factors : List StoredSessionFactor) (now : UnixMicros) :
    Except RepositoryError (Option SessionFactorState) :=
  if factors = [] then .error .corruptState
  else do
    match ← summariseFactors md now 0 ⟨false, false, 0, i64Min⟩ factors with
    | none => pure none
    | some summary => do
      let state ← summary.toState session factors.length
      pure (some state)

def activeFactorState (now : UnixMicros) : Except RepositoryError (Option SessionFactorState) :=
  if maximumFactors < (storedSessionFactors md session).length then .error .corruptState
  else validateCurrentFactors md session (storedSessionFactors md session) now

/-! ## The authenticated principal -/

structure AuthenticatedPrincipal where
  authentication : AccessAuthentication
  principalId : PrincipalId
  factorState : SessionFactorState
  identityRevision : Revision
  expiresAt : UnixMicros

def principalActive (id : PrincipalId) : Bool :=
  (md.principal? id).any (·.state == .active)

/-- The unrevoked session of a token, inside its window, of an active user. The token digest is
unique among sessions. -/
def presentedSession (tokenDigest : Digest) (now : UnixMicros) : Option AuthenticationSession :=
  (get AuthenticationSession.tokenDigest tokenDigest md.sessions).filter fun session =>
    !session.revoked && (session.issuedAt ≤ now) && (now < session.expiresAt) &&
    principalActive md session.userPrincipalId

variable (request : AccessRequest)

def loadSession (currentIdentityRevision : Revision) :
    Except RepositoryError (Option AuthenticatedPrincipal) :=
  match presentedSession md request.credentialDigest request.now with
  | none => .ok none
  | some session => do
    match ← activeFactorState md session request.now with
    | none => pure none
    | some factors =>
      if factors.assurance ≠ session.assurance then .error .corruptState
      else if factors.service ≠ request.authenticationService then pure none
      else do
        let _ ← parseRevision session.identityRevision
        pure (some {
          authentication := .session session.sessionId
          principalId := session.userPrincipalId
          factorState := factors
          identityRevision := currentIdentityRevision
          expiresAt := session.expiresAt })

/-! ## API keys -/

structure StoredApiKey where
  key : ApiKey
  method : AuthenticationMethod
  principal : Principal

/-- The row of a key digest, which is unique, joined with its method and user. -/
def storedApiKey (keyDigest : Digest) : Option StoredApiKey :=
  (get ApiKey.keyDigest keyDigest md.apiKeys).bind fun key =>
    (md.method? key.methodId).bind fun method =>
      (md.principal? method.userPrincipalId).map fun principal => ⟨key, method, principal⟩

structure ApiKeyAuthentication where
  principalId : PrincipalId
  keyId : ApiKeyId
  expiresAt : Expiry

/-- A key row that no command could have left behind. -/
def StoredApiKey.malformed (stored : StoredApiKey) : Prop :=
  ¬ (1 ≤ stored.method.serviceScope ∧ stored.method.serviceScope ≤ 7) ∨ stored.key.scopes = 0 ∨
  stored.method.credentialGeneration = 0 ∨ stored.method.revision = 0 ∨ stored.key.revision = 0 ∨
  stored.method.kind ≠ .apiKey ∨ stored.key.validUntil ≤ (stored.key.validFrom : Expiry) ∨
  stored.method.expiresAt ≤ (stored.method.createdAt : Expiry) ∨
  stored.key.lastUsedAt.any fun used =>
    (used < stored.key.validFrom) || (stored.key.validUntil ≤ (used : Expiry))

instance (stored : StoredApiKey) : Decidable stored.malformed := by
  unfold StoredApiKey.malformed
  infer_instance

def validateAuthentication (stored : StoredApiKey) (service : AuthenticationService)
    (requiredScopes : Nat) (now : UnixMicros) : Except RepositoryError (Option ApiKeyAuthentication) :=
  if stored.malformed then .error .corruptState
  else if stored.method.state ≠ .active ∨ stored.principal.state ≠ .active ∨
      stored.method.serviceScope &&& service.scopeBit = 0 ∨
      stored.key.scopes &&& requiredScopes ≠ requiredScopes ∨
      ¬ (stored.key.validFrom ≤ now ∧ unexpired stored.key.validUntil now ∧
        unexpired stored.method.expiresAt now) then
    .ok none
  else .ok (some {
    principalId := stored.method.userPrincipalId
    keyId := stored.key.keyId
    expiresAt := min stored.key.validUntil stored.method.expiresAt })

def authenticateApiKey (presentedKeyDigest : Digest)
    (service : AuthenticationService) (requiredScopes : Nat) (now : UnixMicros) :
    Except RepositoryError (Option ApiKeyAuthentication) :=
  if presentedKeyDigest = zeroDigest ∨ requiredScopes = 0 then .ok none
  else match storedApiKey md presentedKeyDigest with
    | none => .ok none
    | some stored => validateAuthentication stored service requiredScopes now

/-- A key without an end is taken to end at the last instant there is. -/
def endOrLast : Expiry → UnixMicros
  | ⊤ => i64Max
  | (instant : UnixMicros) => instant

def loadDirectApiKey
    (currentIdentityRevision : Revision) : Except RepositoryError (Option AuthenticatedPrincipal) := do
  match ← authenticateApiKey md request.credentialDigest request.authenticationService
      request.authenticationService.scopeBit request.now with
  | none => pure none
  | some key => pure (some {
      authentication := .apiKey key.keyId
      principalId := key.principalId
      factorState := {
        assurance := .singleFactor
        service := request.authenticationService
        factorClasses := AuthenticationMethodKind.apiKey.classBit
        factorCount := 1
        issuedAt := request.now
        latestAuthenticatedAt := request.now }
      identityRevision := currentIdentityRevision
      expiresAt := endOrLast key.expiresAt })

def loadAuthentication
    (currentIdentityRevision : Revision) : Except RepositoryError (Option AuthenticatedPrincipal) :=
  match request.authenticationService with
  | .https => loadSession md request currentIdentityRevision
  | .headlessApi | .smb => loadDirectApiKey md request currentIdentityRevision

/-! ## Policy -/

def AssuranceLevel.rank : AssuranceLevel → Nat
  | .singleFactor => 1
  | .multiFactor => 2
  | .recentStepUp => 3

def assuranceSatisfies (actual : AssuranceLevel) : AssuranceLevel → Bool
  | .singleFactor => AssuranceLevel.singleFactor.rank ≤ actual.rank
  | .multiFactor | .recentStepUp => AssuranceLevel.multiFactor.rank ≤ actual.rank

/-- The age is computed in a signed 64-bit integer and must not overflow it. -/
def withinDuration (start now : UnixMicros) (maximum : Nat) : Bool :=
  (start ≤ now) && (now - start ≤ i64Max) && (now - start ≤ maximum)

variable (policy : AuthenticationPolicy)

/-- `validate_policy_shape` -/
def policyShapeValid : Bool :=
  policy.allowedFactorClasses &&& AuthenticationMethodKind.passkey.classBit |||
    policy.allowedFactorClasses &&& AuthenticationMethodKind.apiKey.classBit != 0 &&
  policy.allowedFactorClasses < 16 &&
  policy.minimumFactorCount != 0 && (policy.minimumFactorCount ≤ maximumFactors) &&
  policy.maximumSessionDuration != 0 &&
  (match policy.operationClass with
    | .sessionEstablishment | .ordinary => policy.maximumStepUpAge.isNone
    | .privileged | .recovery => policy.maximumStepUpAge.isSome) &&
  policy.maximumStepUpAge.all fun age => age != 0 && (age ≤ policy.maximumSessionDuration)

/-- The newest policy of a service and class; the sequence numbers have no gap. -/
def loadCurrentPolicy (service : AuthenticationService)
    (operationClass : AuthenticationOperationClass) : Except RepositoryError AuthenticationPolicy :=
  match (md.policies.filter fun policy => policy.service == service &&
      policy.operationClass == operationClass).getLast? with
  | none => .error .corruptState
  | some policy =>
    if ¬ policyShapeValid policy ∨ policy.sequence ≠ (md.policies.filter fun policy =>
        policy.service == service && policy.operationClass == operationClass).length then
      .error .corruptState
    else .ok policy

def operationClassOf : AssuranceLevel → AuthenticationOperationClass
  | .singleFactor | .multiFactor => .ordinary
  | .recentStepUp => .privileged

def AuthenticationPolicy.permits (required : AssuranceLevel)
    (evidence : SessionFactorState) (now : UnixMicros) : Bool :=
  (policy.minimumFactorCount ≤ evidence.factorCount) &&
  evidence.factorClasses &&& (255 - policy.allowedFactorClasses) == 0 &&
  assuranceSatisfies evidence.assurance required &&
  withinDuration evidence.issuedAt now policy.maximumSessionDuration &&
  policy.maximumStepUpAge.all fun age =>
    (AssuranceLevel.multiFactor.rank ≤ evidence.assurance.rank) &&
    withinDuration evidence.latestAuthenticatedAt now age

def permitsOperation (required : AssuranceLevel) (evidence : SessionFactorState)
    (now : UnixMicros) : Except RepositoryError Bool := do
  let policy ← loadCurrentPolicy md evidence.service (operationClassOf required)
  pure (policy.permits required evidence now)

end MeshSpan.Access
