import MeshSpan.Access.Sources

/- When an evaluation grants a request, and until when.

   PROVED
     evaluate_granted    the checks that a granted request has passed, all of them
     lt_expiresAt_iff    it is granted while the credential and every requested
                         right last, and ends with the first of them to end -/

namespace MeshSpan.Access

open Rows Bottleneck

/-! ## The end of the requested rights -/

variable (instant : UnixMicros)

theorem earlier_le (source : Expiry) : earlier instant source ≤ instant := by
  cases source using WithTop.recTopCoe with
  | top => exact le_rfl
  | coe end' => exact min_le_left _ _

theorem coe_earlier_le (source : Expiry) :
    (earlier instant source : Expiry) ≤ source := by
  cases source using WithTop.recTopCoe with
  | top => exact le_top
  | coe end' => exact WithTop.coe_le_coe.mpr (min_le_right _ _)

variable {instant t : UnixMicros}

theorem lt_earlier {source : Expiry} (before : t < instant) (running : (t : Expiry) < source) :
    t < earlier instant source := by
  cases source using WithTop.recTopCoe with
  | top => exact before
  | coe end' => exact lt_min before (WithTop.coe_lt_coe.mp running)

section Requested

variable {requested : Rights} {lifetimes : Lifetimes}

theorem requestedExpiry_le {rights : List (Fin definedRights)} {expiresAt : UnixMicros}
    (h : requestedExpiry requested lifetimes rights instant = some expiresAt) :
    expiresAt ≤ instant ∧ ∀ right ∈ rights, requested.getLsbD right = true →
      ∃ source, lifetimes right = some source ∧ (expiresAt : Expiry) ≤ source := by
  induction rights generalizing instant with
  | nil =>
    cases h
    exact ⟨le_rfl, nofun⟩
  | cons right rest ih =>
    unfold requestedExpiry at h
    split at h
    · split at h
      · cases h
      rename_i source isSource
      obtain ⟨le, sources⟩ := ih h
      refine ⟨le.trans (earlier_le _ _), List.forall_mem_cons.mpr ⟨fun _ => ?_, sources⟩⟩
      exact ⟨source, isSource, (WithTop.coe_le_coe.mpr le).trans (coe_earlier_le _ _)⟩
    · rename_i unasked
      obtain ⟨le, sources⟩ := ih h
      exact ⟨le, List.forall_mem_cons.mpr ⟨fun asked => absurd asked unasked, sources⟩⟩

theorem requestedExpiry_gt (rights : List (Fin definedRights)) (before : t < instant)
    (running : ∀ right ∈ rights, requested.getLsbD right = true →
      ∃ source, lifetimes right = some source ∧ (t : Expiry) < source) :
    ∃ expiresAt, requestedExpiry requested lifetimes rights instant = some expiresAt ∧
      t < expiresAt := by
  induction rights generalizing instant with
  | nil => exact ⟨instant, rfl, before⟩
  | cons right rest ih =>
    obtain ⟨here, others⟩ := List.forall_mem_cons.mp running
    unfold requestedExpiry
    split
    · rename_i asked
      obtain ⟨source, isSource, lt⟩ := here asked
      rw [isSource]
      exact ih (lt_earlier before lt) others
    · exact ih before others

end Requested

/-! ## The decision -/

section Decision

variable {request : AccessRequest} {authentication : AuthenticatedPrincipal} {target : Target}
  {revisions : AuthorityRevisions} {lifetimes : Lifetimes} {capability : AccessCapability}

section

variable (h : buildDecision request authentication target revisions lifetimes = .granted capability)

include h

theorem buildDecision_granted :
    requestedExpiry request.requestedRights lifetimes (List.finRange definedRights)
        authentication.expiresAt = some capability.expiresAt ∧
      request.now < capability.expiresAt ∧ capability.principalId = authentication.principalId ∧
      capability.identityRevision = revisions.identity ∧ capability.objectId = request.objectId ∧
      capability.volumeId = request.volumeId ∧
      capability.requestedRights = request.requestedRights := by
  unfold buildDecision at h
  split at h
  · cases h
  rename_i expiresAt isExpiry
  split at h
  · cases h
  · rename_i later
    cases h
    exact ⟨isExpiry, not_le.mp later, rfl, rfl, rfl, rfl, rfl⟩

/-- A granted capability lasts exactly while the credential and the requested rights do. -/
theorem lt_expiresAt_iff : t < capability.expiresAt ↔ t < authentication.expiresAt ∧
      ∀ right : Fin definedRights, request.requestedRights.getLsbD right = true →
        ∃ source, lifetimes right = some source ∧ (t : Expiry) < source := by
  obtain ⟨isExpiry, -⟩ := buildDecision_granted h
  constructor
  · intro before
    obtain ⟨le, sources⟩ := requestedExpiry_le isExpiry
    refine ⟨before.trans_le le, fun right asked => ?_⟩
    obtain ⟨source, isSource, le'⟩ := sources right (List.mem_finRange right) asked
    exact ⟨source, isSource, (WithTop.coe_lt_coe.mpr before).trans_le le'⟩
  · rintro ⟨before, running⟩
    obtain ⟨found, isFound, lt⟩ := requestedExpiry_gt (List.finRange definedRights) before
      fun right _ asked => running right asked
    rw [isExpiry] at isFound
    exact Option.some.inj isFound ▸ lt

end

theorem exists_granted (before : request.now < authentication.expiresAt)
    (running : ∀ right : Fin definedRights, request.requestedRights.getLsbD right = true →
      ∃ source, lifetimes right = some source ∧ (request.now : Expiry) < source) :
    ∃ capability, buildDecision request authentication target revisions lifetimes =
      .granted capability := by
  obtain ⟨found, isFound, lt⟩ := requestedExpiry_gt (List.finRange definedRights) before
    fun right _ asked => running right asked
  unfold buildDecision
  rw [isFound]
  exact ⟨_, if_neg (not_le.mpr lt)⟩

end Decision

/-- The checks on the way to a decision about the rights. -/
structure Passed (md : Metadata) (request : AccessRequest) (revisions : AuthorityRevisions)
    (authentication : AuthenticatedPrincipal) (target : Target) (ancestors : List ObjectId) : Prop where
  asked : ¬ (request.requestedRights = 0 ∨ request.gatewayIncarnation = 0)
  revised : loadAuthorityRevisions md request = .ok revisions
  authenticated : loadAuthentication md request revisions.identity = .ok (some authentication)
  permitted : permitsOperation md request.requiredAssurance authentication.factorState
    request.now = .ok true
  gateway : revisions.gateway ≠ 0
  placed : loadTargetAndAncestors md request = .ok (some (target, ancestors))

theorem evaluate_of_passed {md : Metadata} {request : AccessRequest} {revisions : AuthorityRevisions}
    {authentication : AuthenticatedPrincipal} {target : Target} {ancestors : List ObjectId}
    (passed : Passed md request revisions authentication target ancestors) : evaluate md request = (do
      let lifetimes ← loadLifetimes md request authentication target ancestors
      pure (buildDecision request authentication target revisions lifetimes)) := by
  unfold evaluate
  rw [if_neg passed.asked, passed.revised]
  simp only [bind, Except.bind, passed.authenticated, passed.permitted, passed.placed, not_true_eq_false,
    if_false, if_neg passed.gateway]

/-- A request is granted exactly when it passes every check and its rights are there. -/
theorem evaluate_granted {md : Metadata} {request : AccessRequest} {capability : AccessCapability} :
    evaluate md request = .ok (.granted capability) ↔
      ∃ revisions authentication target ancestors lifetimes,
        Passed md request revisions authentication target ancestors ∧
        loadLifetimes md request authentication target ancestors = .ok lifetimes ∧
        buildDecision request authentication target revisions lifetimes = .granted capability := by
  constructor
  · intro h
    unfold evaluate at h
    split at h
    · cases h
    rename_i asked
    obtain ⟨revisions, revised, found, authenticated, h⟩ := bind₂_eq_ok.mp h
    cases found with
    | none => cases h
    | some authentication =>
      obtain ⟨permitted, isPermitted, h⟩ := bind_eq_ok.mp h
      split at h
      · cases h
      rename_i allowed
      split at h
      · cases h
      rename_i gateway
      obtain ⟨placed, isPlaced, h⟩ := bind_eq_ok.mp h
      cases placed with
      | none => cases h
      | some place =>
        obtain ⟨lifetimes, isLoaded, h⟩ := bind_eq_ok.mp h
        have yes : permitted = true := not_not.mp allowed
        exact ⟨revisions, authentication, place.1, place.2, lifetimes,
          ⟨asked, revised, authenticated, yes ▸ isPermitted, gateway, isPlaced⟩, isLoaded,
          Except.ok.inj h⟩
  · rintro ⟨revisions, authentication, target, ancestors, lifetimes, passed, loaded, decided⟩
    rw [evaluate_of_passed passed]
    exact bind_eq_ok.mpr ⟨lifetimes, loaded, congrArg Except.ok decided⟩

end MeshSpan.Access
