import MeshSpan.Access.Decision

/- A capability and what it rests on.

   The end of a capability is the credential's own, cut by the best source of each
   requested right. An evaluation at a later instant also asks again whether the
   session's factors are valid and whether the policy's age limits are met; those
   ends are not in the capability's.

   PROVED
     Source.later          a source that is still running supplies its right later
     capability_rests      the end is within the credential and the sources, and the
                           request is granted until then exactly when factors, ages
                           and the limits of the loaders hold that long
     expiry_past_step_up   a capability that outlives the step-up it needs -/

namespace MeshSpan.Access

open Rows Bottleneck List Option Except

def AccessRequest.at (request : AccessRequest) (t : UnixMicros) : AccessRequest :=
  { request with now := t }

/-! ## Sources at a later instant -/

section Later

variable {md : Metadata} {user : PrincipalId} {identity : Revision} {now t : UnixMicros}

theorem started_later {validFrom : Option UnixMicros} (le : now ≤ t)
    (h : started validFrom now) : started validFrom t = true := by
  cases validFrom with
  | none => rfl
  | some start => exact decide_eq_true ((of_decide_eq_true h).trans le)

theorem liveActivations_later {κ : Type} {source : AccessActivation → Option κ} (le : now ≤ t)
    {key : κ} {instant : UnixMicros} (running : t < instant)
    (mem : (key, instant) ∈ liveActivations md source user identity now) :
    (key, instant) ∈ liveActivations md source user identity t := by
  obtain ⟨activation, inLive, isKey⟩ := mem_filterMap.mp mem
  obtain ⟨isRow, live⟩ := mem_filter.mp inLive
  obtain ⟨_, -, same⟩ := map_eq_some_iff.mp isKey
  have ends : activation.expiresAt = instant := congrArg Prod.snd same
  refine mem_filterMap.mpr ⟨activation, mem_filter.mpr ⟨isRow, ?_⟩, isKey⟩
  unfold activationLive at live ⊢
  simp only [Bool.and_eq_true, decide_eq_true_eq] at live ⊢
  exact ⟨⟨⟨⟨⟨live.1.1.1.1.1, live.1.1.1.1.2.trans le⟩, ends ▸ running⟩, live.1.1.2⟩, live.1.2⟩, live.2⟩

variable {expiry : Expiry}

theorem Enabled.later {κ : Type} {source : AccessActivation → Option κ} {required : Bool} {key : κ}
    (le : now ≤ t) (running : (t : Expiry) < expiry)
    (h : Enabled (liveActivations md source user identity now) required key expiry) :
    Enabled (liveActivations md source user identity t) required key expiry := by
  cases h with
  | always free => exact .always free
  | activated needed mem =>
    exact .activated needed (liveActivations_later le (WithTop.coe_lt_coe.mp running) mem)

variable {principal : PrincipalId} {stored : StoredSessionFactor} {session : AuthenticationSession}
  {ancestors' : List ObjectId} {authentication' : AuthenticatedPrincipal}
  {revisions' : AuthorityRevisions} {target' : Target}

theorem ActsAs.later (le : now ≤ t) (h : ActsAs md user identity now principal expiry)
    (running : (t : Expiry) < expiry) : ActsAs md user identity t principal expiry := by
  induction h with
  | self => exact .self
  | member before mem on ih =>
    obtain ⟨chain, window, enabled⟩ := by simpa only [lt_min_iff] using running
    refine .member (ih chain) ?_ (on.later le enabled)
    obtain ⟨isRow, selected⟩ := mem_filter.mp mem
    refine mem_filter.mpr ⟨isRow, ?_⟩
    unfold membershipSelected at selected ⊢
    simp only [Bool.and_eq_true] at selected ⊢
    exact ⟨⟨⟨selected.1.1.1, started_later le selected.1.1.2⟩, decide_eq_true window⟩, selected.2⟩

theorem Source.later {volume : VolumeId} {owners : List PrincipalId} {covers : PermissionGrant → Prop}
    {right : Fin definedRights} (le : now ≤ t)
    (h : Source md user identity now volume owners covers right expiry)
    (running : (t : Expiry) < expiry) :
    Source md user identity t volume owners covers right expiry := by
  cases h with
  | owner mem acts => exact .owner mem (acts.later le running)
  | grant mem acts covered has on =>
    obtain ⟨chain, window, enabled⟩ := by simpa only [lt_min_iff] using running
    refine .grant ?_ (acts.later le chain) covered has (on.later le enabled)
    obtain ⟨isRow, selected⟩ := mem_filter.mp mem
    refine mem_filter.mpr ⟨isRow, ?_⟩
    unfold grantSelected at selected ⊢
    simp only [Bool.and_eq_true] at selected ⊢
    exact ⟨⟨⟨⟨selected.1.1.1.1, started_later le selected.1.1.1.2⟩, decide_eq_true window⟩,
      selected.1.2⟩, selected.2⟩

end Later

/-! ## Factors at a later instant -/

variable (md : Metadata)

/-- The method of a factor, and the key it names if it is one, are valid at the instant. -/
def FactorValid (stored : StoredSessionFactor) (t : UnixMicros) : Prop :=
  (t : Expiry) < stored.method.expiresAt ∧
  (stored.factor.kind = .apiKey → factorKeyInForce md stored t = true)

section Factors

variable {md : Metadata} {now t : UnixMicros}

theorem validateFactorShape_kind {sequence : Nat} {kind : AuthenticationMethodKind}
    (h : validateFactorShape stored sequence = .ok kind) : kind = stored.factor.kind := by
  unfold validateFactorShape at h
  split_ifs at h
  exact (ok.inj h).symm

theorem factorIsCurrent_later (h : factorIsCurrent md stored stored.factor.kind now = .ok true) :
    (FactorValid md stored t → factorIsCurrent md stored stored.factor.kind t = .ok true) ∧
    (factorIsCurrent md stored stored.factor.kind t = .ok true → FactorValid md stored t) := by
  unfold factorIsCurrent at h
  split at h
  · cases h
  rename_i current
  simp only [not_or] at current
  obtain ⟨present, h⟩ := guard_ok.mp h
  refine ⟨fun valid => ?_, fun later => ?_⟩
  · unfold factorIsCurrent validateCurrentCredential
    rw [if_neg, if_neg present]
    · split
      · rfl
      · rename_i isKey
        exact congrArg ok (valid.2 (not_not.mp isKey))
    · simp only [not_or]
      exact ⟨current.1, current.2.1, current.2.2.1, not_le.mpr valid.1⟩
  · unfold factorIsCurrent at later
    split at later
    · cases later
    rename_i still
    simp only [not_or, not_le] at still
    refine ⟨still.2.2.2, fun isKey => ?_⟩
    unfold validateCurrentCredential at later
    rw [if_neg present, if_neg (not_not.mpr isKey)] at later
    exact ok.inj later

/-- The loop over the factors gives the same summary while all of them are valid. -/
theorem summariseFactors_later {factors : List StoredSessionFactor} {index : Nat}
    {summary final : FactorSummary}
    (h : summariseFactors md now index summary factors = .ok (some final)) :
    ((∀ stored ∈ factors, FactorValid md stored t) →
      summariseFactors md t index summary factors = .ok (some final)) ∧
    (∀ other, summariseFactors md t index summary factors = .ok (some other) →
      ∀ stored ∈ factors, FactorValid md stored t) := by
  induction factors generalizing index summary with
  | nil =>
    refine ⟨fun _ => ?_, fun _ _ _ mem => absurd mem not_mem_nil⟩
    rw [summariseFactors] at h ⊢
    exact h
  | cons stored rest ih =>
    obtain ⟨kind, isKind, h⟩ := bind_eq_ok.mp h
    obtain rfl := validateFactorShape_kind isKind
    obtain ⟨current, isCurrent, h⟩ := bind_eq_ok.mp h
    split at h
    · rename_i yes
      subst yes
      obtain ⟨keeps, needs⟩ := factorIsCurrent_later (t := t) isCurrent
      obtain ⟨keepsRest, needsRest⟩ := ih h
      refine ⟨fun valid => ?_, fun other later => ?_⟩
      · obtain ⟨here, others⟩ := forall_mem_cons.mp valid
        exact bind_eq_ok.mpr ⟨_, isKind, bind_eq_ok.mpr ⟨true, keeps here, keepsRest others⟩⟩
      · obtain ⟨kind', isKind', later⟩ := bind_eq_ok.mp later
        obtain rfl := validateFactorShape_kind isKind'
        obtain ⟨still, isStill, later⟩ := bind_eq_ok.mp later
        split at later
        · rename_i yes
          subst yes
          exact forall_mem_cons.mpr ⟨needs isStill, needsRest other later⟩
        · cases later
    · cases h

theorem activeFactorState_later {state : SessionFactorState}
    (h : activeFactorState md session now = .ok (some state)) :
    ((∀ stored ∈ storedSessionFactors md session, FactorValid md stored t) →
      activeFactorState md session t = .ok (some state)) ∧
    (∀ other, activeFactorState md session t = .ok (some other) →
      ∀ stored ∈ storedSessionFactors md session, FactorValid md stored t) := by
  unfold activeFactorState at h ⊢
  obtain ⟨few, h⟩ := guard_ok.mp h
  rw [if_neg few]
  unfold validateCurrentFactors at h ⊢
  obtain ⟨some', h⟩ := guard_ok.mp h
  rw [if_neg some']
  obtain ⟨found, isFound, h⟩ := bind_eq_ok.mp h
  cases found with
  | none => cases h
  | some summary =>
    obtain ⟨keeps, needs⟩ := summariseFactors_later (t := t) isFound
    refine ⟨fun valid => bind_eq_ok.mpr ⟨_, keeps valid, h⟩, fun other later => ?_⟩
    obtain ⟨found', isFound', later⟩ := bind_eq_ok.mp later
    cases found' with
    | none => cases later
    | some summary' => exact needs summary' isFound'

end Factors

/-! ## The credential at a later instant -/

def FactorsValid (request : AccessRequest) (t : UnixMicros) : Prop :=
  request.authenticationService = .https → ∀ session,
    presentedSession md request.credentialDigest request.now = some session →
    ∀ stored ∈ storedSessionFactors md session, FactorValid md stored t

/-- The same principal, authenticated at another instant: an API key is always presented anew. -/
def AuthenticatedPrincipal.at (authentication : AuthenticatedPrincipal)
    (service : AuthenticationService) (t : UnixMicros) : AuthenticatedPrincipal :=
  match service with
  | .https => authentication
  | .headlessApi | .smb => { authentication with
      factorState := { authentication.factorState with issuedAt := t, latestAuthenticatedAt := t } }

section Credential

variable {md : Metadata} {request : AccessRequest} {identity : Revision}
  {authentication : AuthenticatedPrincipal} {t : UnixMicros}

theorem loadSession_eq_ok : loadSession md request identity = .ok (some authentication) ↔
    ∃ session factors, presentedSession md request.credentialDigest request.now = some session ∧
      activeFactorState md session request.now = .ok (some factors) ∧
      factors.assurance = session.assurance ∧ factors.service = request.authenticationService ∧
      session.identityRevision ≠ 0 ∧
      authentication = ⟨.session session.sessionId, session.userPrincipalId, factors, identity,
        session.expiresAt⟩ := by
  unfold loadSession
  constructor
  · intro h
    split at h
    · cases h
    rename_i session presented
    obtain ⟨found, isFound, h⟩ := bind_eq_ok.mp h
    cases found with
    | none => cases h
    | some factors =>
      dsimp only at h
      split_ifs at h with assurance service
      · cases h
      · obtain ⟨revision, isRevision, h⟩ := bind_eq_ok.mp h
        unfold parseRevision at isRevision
        split_ifs at isRevision with zero
        refine ⟨session, factors, presented, isFound, not_not.mp assurance, not_not.mp service, zero, ?_⟩
        exact (some.inj (ok.inj h)).symm
  · rintro ⟨session, factors, presented, isFound, assurance, service, positive, rfl⟩
    rw [presented]
    refine bind_eq_ok.mpr ⟨some factors, isFound, ?_⟩
    have parsed : parseRevision session.identityRevision = .ok session.identityRevision := if_neg positive
    simp only [assurance, service, parsed, ne_eq, not_true_eq_false, if_false]
    rfl

theorem presentedSession_later {tokenDigest : Digest} {now : UnixMicros} (le : now ≤ t)
    (before : t < session.expiresAt) (h : presentedSession md tokenDigest now = some session) :
    presentedSession md tokenDigest t = some session := by
  obtain ⟨found, valid⟩ := filter_eq_some_iff.mp h
  refine filter_eq_some_iff.mpr ⟨found, ?_⟩
  simp only [Bool.and_eq_true, decide_eq_true_eq] at valid ⊢
  exact ⟨⟨⟨valid.1.1.1, valid.1.1.2.trans le⟩, before⟩, valid.2⟩

/-- A session that was accepted is accepted later exactly while its factors are valid. -/
theorem loadSession_later (le : request.now ≤ t) (before : t < authentication.expiresAt)
    (https : request.authenticationService = .https)
    (h : loadSession md request identity = .ok (some authentication)) :
    (FactorsValid md request t → loadSession md (request.at t) identity = .ok (some authentication)) ∧
    (∀ other, loadSession md (request.at t) identity = .ok (some other) →
      FactorsValid md request t) := by
  obtain ⟨session, factors, presented, isFound, assurance, service, positive, rfl⟩ :=
    loadSession_eq_ok.mp h
  have later := presentedSession_later le before presented
  obtain ⟨keeps, needs⟩ := activeFactorState_later (t := t) isFound
  refine ⟨fun valid => ?_, fun other h' => ?_⟩
  · exact loadSession_eq_ok.mpr ⟨session, factors, later, keeps (valid https session presented),
      assurance, service, positive, rfl⟩
  · intro _ session' presented'
    obtain ⟨session'', factors', presented'', isFound', -⟩ := loadSession_eq_ok.mp h'
    obtain rfl := some.inj (presented.symm.trans presented')
    obtain rfl := some.inj (later.symm.trans presented'')
    exact needs factors' isFound'

theorem lt_of_endOrLast (before : t < endOrLast expiry) : (t : Expiry) < expiry := by
  cases expiry using WithTop.recTopCoe with
  | top => exact WithTop.coe_lt_top t
  | coe instant => exact WithTop.coe_lt_coe.mpr before

theorem loadDirectApiKey_later (le : request.now ≤ t) (before : t < authentication.expiresAt)
    (h : loadDirectApiKey md request identity = .ok (some authentication)) :
    loadDirectApiKey md (request.at t) identity = .ok (some { authentication with
      factorState := { authentication.factorState with issuedAt := t, latestAuthenticatedAt := t } }) := by
  obtain ⟨found, isFound, h⟩ := bind_eq_ok.mp h
  cases found with
  | none => cases h
  | some key =>
    have isKey := some.inj (ok.inj h)
    subst isKey
    refine bind_eq_ok.mpr ⟨some key, ?_, rfl⟩
    have running := lt_of_endOrLast before
    dsimp only [AccessRequest.at]
    unfold authenticateApiKey at isFound ⊢
    split at isFound
    · cases isFound
    rename_i presentable
    rw [if_neg presentable]
    cases isStored : storedApiKey md request.credentialDigest with
    | none =>
      rw [isStored] at isFound
      cases isFound
    | some stored =>
      rw [isStored] at isFound
      unfold validateAuthentication at isFound ⊢
      dsimp only at isFound ⊢
      split_ifs at isFound with malformed unusable
      · cases isFound
      · have isKey := some.inj (ok.inj isFound)
        simp only [not_or, not_not] at unusable
        obtain ⟨method, principal, scope, scopes, begun, -, -⟩ := unusable
        have ends : (t : Expiry) < min stored.key.validUntil stored.method.expiresAt := by
          rw [← isKey] at running
          exact running
        obtain ⟨untilKey, untilMethod⟩ := lt_min_iff.mp ends
        rw [if_neg malformed, if_neg, isKey]
        simp only [not_or, not_not]
        exact ⟨method, principal, scope, scopes, begun.trans le, decide_eq_true untilKey,
          decide_eq_true untilMethod⟩

theorem loadAuthentication_https (https : request.authenticationService = .https) :
    loadAuthentication md request identity = loadSession md request identity := by
  unfold loadAuthentication
  rw [https]

theorem loadAuthentication_key (key : request.authenticationService ≠ .https) :
    loadAuthentication md request identity = loadDirectApiKey md request identity := by
  unfold loadAuthentication
  cases service : request.authenticationService with
  | https => exact absurd service key
  | headlessApi => rfl
  | smb => rfl

theorem at_key {service : AuthenticationService} (key : service ≠ .https) :
    authentication.at service t = { authentication with
      factorState := { authentication.factorState with issuedAt := t, latestAuthenticatedAt := t } } := by
  cases service with
  | https => exact absurd rfl key
  | headlessApi => rfl
  | smb => rfl

theorem loadAuthentication_later (le : request.now ≤ t) (before : t < authentication.expiresAt)
    (h : loadAuthentication md request identity = .ok (some authentication)) :
    (FactorsValid md request t → loadAuthentication md (request.at t) identity =
      .ok (some (authentication.at request.authenticationService t))) ∧
    (∀ other, loadAuthentication md (request.at t) identity = .ok (some other) →
      FactorsValid md request t) := by
  by_cases https : request.authenticationService = .https
  · have later : (request.at t).authenticationService = .https := https
    rw [loadAuthentication_https https] at h
    rw [loadAuthentication_https later, https]
    exact loadSession_later le before https h
  · have later : (request.at t).authenticationService ≠ .https := https
    rw [loadAuthentication_key https] at h
    rw [loadAuthentication_key later, at_key https]
    exact ⟨fun _ => loadDirectApiKey_later le before h, fun _ _ isHttps => absurd isHttps https⟩

end Credential

/-! ## Policy at a later instant -/

/-- The session and its last factor are within the ages that the policy allows. -/
def AgesAllowed (request : AccessRequest) (evidence : SessionFactorState) (t : UnixMicros) : Prop :=
  request.authenticationService = .https → ∀ policy,
    loadCurrentPolicy md evidence.service (operationClassOf request.requiredAssurance) = .ok policy →
    withinDuration evidence.issuedAt t policy.maximumSessionDuration = true ∧
    ∀ age, policy.maximumStepUpAge = some age →
      withinDuration evidence.latestAuthenticatedAt t age = true

section Policy

variable {md : Metadata} {required : AssuranceLevel} {evidence : SessionFactorState}
  {now t : UnixMicros}

theorem withinDuration_self (t : UnixMicros) (maximum : Nat) : withinDuration t t maximum = true := by
  simp [withinDuration]

/-- Only the ages change with the instant. -/
theorem permits_moved {policy : AuthenticationPolicy}
    (h : policy.permits required evidence now) (moved : SessionFactorState)
    (count : moved.factorCount = evidence.factorCount)
    (classes : moved.factorClasses = evidence.factorClasses)
    (assurance : moved.assurance = evidence.assurance) : policy.permits required moved t = true ↔
      withinDuration moved.issuedAt t policy.maximumSessionDuration = true ∧
      ∀ age, policy.maximumStepUpAge = some age →
        withinDuration moved.latestAuthenticatedAt t age = true := by
  unfold AuthenticationPolicy.permits at h ⊢
  rw [count, classes, assurance]
  simp only [Bool.and_eq_true] at h ⊢
  cases limit : policy.maximumStepUpAge with
  | none => simp [h.1.1]
  | some age =>
    rw [limit] at h
    have stepUp : decide (AssuranceLevel.multiFactor.rank ≤ evidence.assurance.rank) = true :=
      (Bool.and_eq_true_iff.mp h.2).1
    simp only [all_some, stepUp, Bool.true_and, h.1.1, true_and, some.injEq,
      forall_eq']

variable {request : AccessRequest} {authentication : AuthenticatedPrincipal}

theorem permitsOperation_later (h : permitsOperation md request.requiredAssurance
    authentication.factorState request.now = .ok true) : permitsOperation md request.requiredAssurance
        (authentication.at request.authenticationService t).factorState t = .ok true ↔
      AgesAllowed md request authentication.factorState t := by
  obtain ⟨policy, isPolicy, h⟩ := bind_eq_ok.mp h
  have allowed := ok.inj h
  by_cases https : request.authenticationService = .https
  · rw [https]
    show permitsOperation md _ authentication.factorState t = _ ↔ _
    unfold permitsOperation AgesAllowed
    rw [isPolicy]
    have moved := permits_moved (t := t) allowed authentication.factorState rfl rfl rfl
    constructor
    · intro later _ policy' isPolicy'
      cases isPolicy'
      exact moved.mp (ok.inj later)
    · intro ages
      exact congrArg ok (moved.mpr (ages https policy rfl))
  · rw [at_key https]
    unfold permitsOperation
    rw [isPolicy]
    refine ⟨fun _ isHttps => absurd isHttps https, fun _ => congrArg ok ?_⟩
    exact (permits_moved (t := t) allowed { authentication.factorState with
      issuedAt := t
      latestAuthenticatedAt := t } rfl rfl rfl).mpr
      ⟨withinDuration_self _ _, fun _ _ => withinDuration_self _ _⟩

end Policy

/-! ## The whole capability -/

/-- As long as the credential and, for every requested right, some source of now are running, the
factors are valid, the ages are allowed and the loaders are within their limits. -/
def HoldsThroughout (request : AccessRequest) : Prop :=
  ∀ revisions authentication target ancestors,
    Passed md request revisions authentication target ancestors →
    ∀ t, request.now ≤ t → t < authentication.expiresAt →
    (∀ right : Fin definedRights, request.requestedRights.getLsbD right = true →
      ∃ expiry, TargetSource md request authentication.principalId authentication.identityRevision
        target ancestors right expiry ∧ (t : Expiry) < expiry) →
    FactorsValid md request t ∧ AgesAllowed md request authentication.factorState t ∧
      Loadable md authentication.principalId authentication.identityRevision request.volumeId t

section Capability

variable {md : Projection} {request : AccessRequest} {revisions : AuthorityRevisions}
  {authentication : AuthenticatedPrincipal} {target : Target} {ancestors : List ObjectId}
  {lifetimes : Lifetimes} {capability : AccessCapability} {t : UnixMicros}

/-- The capability runs exactly while the credential and a source of each requested right do. -/
theorem lt_expiresAt_iff_sources
    (loaded : loadLifetimes md.toMetadata request authentication target ancestors = .ok lifetimes)
    (decided : buildDecision request authentication target revisions lifetimes = .granted capability) :
    t < capability.expiresAt ↔ t < authentication.expiresAt ∧
      ∀ right : Fin definedRights, request.requestedRights.getLsbD right = true →
        ∃ expiry, TargetSource md.toMetadata request authentication.principalId
          authentication.identityRevision target ancestors right expiry ∧ (t : Expiry) < expiry := by
  have lasts := loadLifetimes_spec loaded
  rw [lt_expiresAt_iff decided]
  refine and_congr_right fun _ => forall_congr' fun right => forall_congr' fun _ => ?_
  constructor
  · rintro ⟨expiry, isLife, running⟩
    exact ⟨expiry, lasts.sound isLife, running⟩
  · rintro ⟨expiry, source, running⟩
    obtain ⟨best, isBest, le⟩ := lasts.complete source
    exact ⟨best, isBest, running.trans_le le⟩

theorem at_principal (service : AuthenticationService) :
    (authentication.at service t).principalId = authentication.principalId ∧
      (authentication.at service t).identityRevision = authentication.identityRevision ∧
      (authentication.at service t).expiresAt = authentication.expiresAt := by
  cases service with
  | https => exact ⟨rfl, rfl, rfl⟩
  | headlessApi => exact ⟨rfl, rfl, rfl⟩
  | smb => exact ⟨rfl, rfl, rfl⟩

theorem Passed.unique {md : Metadata} (a : Passed md request revisions authentication target ancestors)
    (b : Passed md request revisions' authentication' target' ancestors') :
    revisions = revisions' ∧ authentication = authentication' ∧ target = target' ∧
      ancestors = ancestors' := by
  obtain rfl := ok.inj (a.revised.symm.trans b.revised)
  obtain rfl := some.inj (ok.inj (a.authenticated.symm.trans b.authenticated))
  have same := some.inj (ok.inj (a.placed.symm.trans b.placed))
  exact ⟨rfl, rfl, congrArg Prod.fst same, congrArg Prod.snd same⟩

/-- Later a request passes the same checks exactly while factors and ages hold. -/
theorem Passed.later {md : Metadata} (le : request.now ≤ t) (before : t < authentication.expiresAt)
    (h : Passed md request revisions authentication target ancestors)
    (valid : FactorsValid md request t) (ages : AgesAllowed md request authentication.factorState t) :
    Passed md (request.at t) revisions (authentication.at request.authenticationService t) target
      ancestors where
  asked := h.asked
  revised := h.revised
  authenticated := (loadAuthentication_later le before h.authenticated).1 valid
  permitted := (permitsOperation_later h.permitted).mpr ages
  gateway := h.gateway
  placed := h.placed

theorem Passed.of_later {md : Metadata} (le : request.now ≤ t) (before : t < authentication.expiresAt)
    (h : Passed md request revisions authentication target ancestors)
    (h' : Passed md (request.at t) revisions' authentication' target' ancestors') :
    FactorsValid md request t ∧ AgesAllowed md request authentication.factorState t ∧
      authentication' = authentication.at request.authenticationService t := by
  obtain rfl : revisions = revisions' := ok.inj (h.revised.symm.trans h'.revised)
  obtain ⟨keeps, needs⟩ := loadAuthentication_later le before h.authenticated
  have valid := needs authentication' h'.authenticated
  have same := some.inj (ok.inj (h'.authenticated.symm.trans (keeps valid)))
  have permitted := h'.permitted
  rw [same] at permitted
  exact ⟨valid, (permitsOperation_later h.permitted).mp permitted, same⟩

/-- A capability ends no later than its credential and, for every requested right, its best
source; and until it ends the request is granted again exactly when the factors of the session,
the ages that the policy limits and the sizes that the loaders limit hold that long. -/
theorem capability_rests (granted : evaluate md.toMetadata request = .ok (.granted capability)) :
    (∃ revisions authentication target ancestors,
      Passed md.toMetadata request revisions authentication target ancestors ∧
      capability.expiresAt ≤ authentication.expiresAt ∧
      ∀ right : Fin definedRights, request.requestedRights.getLsbD right = true →
        ∃ expiry, TargetSource md.toMetadata request authentication.principalId
          authentication.identityRevision target ancestors right expiry ∧
          (capability.expiresAt : Expiry) ≤ expiry) ∧
    ((∀ t, request.now ≤ t → t < capability.expiresAt →
        ∃ again, evaluate md.toMetadata (request.at t) = .ok (.granted again)) ↔
      HoldsThroughout md.toMetadata request) := by
  obtain ⟨revisions, authentication, target, ancestors, lifetimes, passed, loaded, decided⟩ :=
    evaluate_granted.mp granted
  have lasts := loadLifetimes_spec loaded
  obtain ⟨isExpiry, -⟩ := buildDecision_granted decided
  obtain ⟨le, sources⟩ := requestedExpiry_le isExpiry
  refine ⟨⟨revisions, authentication, target, ancestors, passed, le, fun right asked => ?_⟩, ?_, ?_⟩
  · obtain ⟨expiry, isLife, within⟩ := sources right (mem_finRange right) asked
    exact ⟨expiry, lasts.sound isLife, within⟩
  · intro again revisions' authentication' target' ancestors' passed' t isLater before running
    obtain ⟨rfl, rfl, rfl, rfl⟩ := passed.unique passed'
    obtain ⟨capability', granted'⟩ :=
      again t isLater ((lt_expiresAt_iff_sources loaded decided).mpr ⟨before, running⟩)
    obtain ⟨_, _, _, _, _, passedLater, loadedLater, -⟩ := evaluate_granted.mp granted'
    obtain ⟨valid, ages, rfl⟩ := passed.of_later isLater before passedLater
    obtain ⟨load, -⟩ := loadable_of_loadLifetimes loadedLater
    obtain ⟨principal, identity, -⟩ := @at_principal authentication t request.authenticationService
    rw [principal, identity] at load
    exact ⟨valid, ages, load⟩
  · intro throughout t isLater inTime
    obtain ⟨before, running⟩ := (lt_expiresAt_iff_sources loaded decided).mp inTime
    obtain ⟨valid, ages, load⟩ := throughout revisions authentication target ancestors passed t
      isLater before running
    have passedLater := passed.later isLater before valid ages
    obtain ⟨principal, identity, ends⟩ := @at_principal authentication t request.authenticationService
    obtain ⟨later, isLater', lastsLater⟩ := @loadLifetimes_of_loadable (request.at t)
      (authentication.at request.authenticationService t) target ancestors md
      (by rw [principal, identity]; exact load) (loadable_of_loadLifetimes loaded).2
    obtain ⟨again, isAgain⟩ := @exists_granted (request.at t)
      (authentication.at request.authenticationService t) target revisions later (ends ▸ before)
      fun right asked => by
        obtain ⟨expiry, source, runs⟩ := running right asked
        have source' := source.later isLater runs
        rw [← principal, ← identity] at source'
        obtain ⟨best, isBest, le'⟩ := lastsLater.complete source'
        exact ⟨best, isBest, runs.trans_le le'⟩
    exact ⟨again, evaluate_granted.mpr ⟨_, _, _, _, later, passedLater, isLater', isAgain⟩⟩

end Capability

/-! ## A state in which a capability outlives its step-up -/

/-- A user who owns the root of a volume and has stepped up with a passkey and a TOTP generator in two
sessions, of twelve hours and of ten minutes. The policy is the default of a new mesh. -/
def ownerProjection : Projection where
  mesh := some (1, 1)
  nodes := [⟨1, 1, true, 1⟩]
  principals := [⟨1, .active, 1⟩]
  groups := []
  memberships := []
  closure := []
  activationPolicies := []
  activations := []
  credentialFence := none
  volumes := [7]
  objects := [⟨10, 7, none, 5, true, 1, false⟩]
  owners := [⟨5, 1⟩]
  grants := []
  methods := [⟨1, 1, .passkey, 1, .active, 0, ⊤, 1, 1⟩, ⟨2, 1, .totp, 1, .active, 0, ⊤, 1, 1⟩]
  sessions := [⟨1, .raw 1, 1, .https, .multiFactor, 1, 100, 43200000100, false, none⟩,
    ⟨2, .raw 2, 1, .https, .multiFactor, 1, 100, 600000100, false, none⟩]
  factors := [⟨1, 1, 1, .passkey, 9, 1, 100⟩, ⟨1, 2, 2, .totp, 1, 1, 100⟩,
    ⟨2, 1, 1, .passkey, 9, 1, 100⟩, ⟨2, 2, 2, .totp, 1, 1, 100⟩]
  credentials := [.passkey 1 9, .totp 2]
  apiKeys := []
  policies := [⟨.https, .privileged, 1, 15, 2, 3600000000, some 900000000⟩]
  objectsKeyed := by decide
  grantRights := nofun
  oneRoot := by
    intro a ha b hb _ _ _
    rw [mem_singleton.mp ha, mem_singleton.mp hb]

/-- A privileged request, right after the session was established. -/
def steppedUpRequest : AccessRequest where
  authenticationService := .https
  credentialDigest := .raw 1
  requiredAssurance := .recentStepUp
  gatewayNodeId := 1
  gatewayIncarnation := 1
  volumeId := 7
  objectId := 10
  requestedRights := 1
  now := 100

/-- The step-up is good for a quarter of an hour and the capability for twelve hours. -/
theorem expiry_past_step_up :
    (∃ capability, evaluate ownerProjection.toMetadata steppedUpRequest = .ok (.granted capability) ∧
      capability.expiresAt = 43200000100) ∧
    evaluate ownerProjection.toMetadata (steppedUpRequest.at 900000101) =
      .ok (.denied .insufficientAssurance) := by
  refine ⟨⟨_, rfl, rfl⟩, rfl⟩

/-- The same request in the short session. -/
def shortRequest : AccessRequest := { steppedUpRequest with credentialDigest := .raw 2 }

theorem ownerProjection_actsAs {identity : Revision} {t : UnixMicros}
    (h : ActsAs ownerProjection.toMetadata 1 identity t principal expiry) : principal = 1 := by
  cases h with
  | self => rfl
  | member _ mem _ => cases mem

theorem shortRequest_holds : HoldsThroughout ownerProjection.toMetadata shortRequest := by
  intro revisions authentication target ancestors passed t later before _
  have found := passed.authenticated
  have isUser : loadAuthentication ownerProjection.toMetadata shortRequest revisions.identity =
      .ok (some ⟨.session 2, 1, ⟨.multiFactor, .https, 3, 2, 100, 100⟩, revisions.identity, 600000100⟩) := rfl
  rw [isUser] at found
  cases found
  change 100 ≤ t at later
  change t < 600000100 at before
  refine ⟨?_, ?_, Nat.zero_le _, ⟨Nat.zero_le _, nofun⟩, ?_, Nat.zero_le _, Nat.zero_le _⟩
  · intro _ session isSession stored mem
    cases isSession
    have lasting : ∀ stored ∈ storedSessionFactors ownerProjection.toMetadata
        ⟨2, .raw 2, 1, .https, .multiFactor, 1, 100, 600000100, false, none⟩,
        stored.method.expiresAt = ⊤ ∧ stored.factor.kind ≠ .apiKey := by decide
    obtain ⟨ends, kind⟩ := lasting stored mem
    exact ⟨ends ▸ WithTop.coe_lt_top t, fun isKey => absurd isKey kind⟩
  · intro _ policy isPolicy
    have current : loadCurrentPolicy ownerProjection.toMetadata .https .privileged =
        .ok ⟨.https, .privileged, 1, 15, 2, 3600000000, some 900000000⟩ := rfl
    obtain rfl := ok.inj (isPolicy.symm.trans current)
    have kept : ∀ maximum : Nat, 600000000 ≤ maximum → withinDuration 100 t maximum = true := by
      intro maximum enough
      simp only [withinDuration, Bool.and_eq_true, decide_eq_true_eq]
      unfold UnixMicros i64Max at *
      omega
    refine ⟨kept _ (by decide), fun age isAge => ?_⟩
    cases isAge
    exact kept _ (by decide)
  · intro principals nodup all
    have sub : principals ⊆ [1] := fun principal mem =>
      mem_singleton.mpr ((all principal mem).elim fun _ acts => ownerProjection_actsAs acts)
    exact ((subperm_of_subset nodup sub).length_le).trans (by decide)

/-- The factors and the ages hold for ten minutes, and the capability of the short session is good up to
its last instant. -/
theorem capability_rests_session :
    ∃ again, evaluate ownerProjection.toMetadata (shortRequest.at 600000099) = .ok (.granted again) :=
  (@capability_rests ownerProjection shortRequest _ rfl).2.mpr shortRequest_holds 600000099 (by decide) (by decide)

end MeshSpan.Access
