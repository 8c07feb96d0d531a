import MeshSpan.Access.Evaluation

/- What a right rests on: chains of memberships, activations, owners and grants.

   The loaders of an evaluation compute, for every right, the best of its sources.
   Here the sources themselves are named, as relations over the rows: whom the user
   acts as and until when, and which owner or grant supplies a right and until when.

   PROVED
     loadEffectiveSubjects_spec   the subjects are the principals the user acts as
     loadLifetimes_of_loadable    rows within the limits are loaded
     loadable_of_loadLifetimes    and no others
     loadLifetimes_spec           each right lasts as long as its best source -/

namespace MeshSpan.Access

open Rows Bottleneck List Except

/-! ## The sources -/

/-- Something that may need an activation is on until the given end. -/
inductive Enabled {κ : Type} (activations : List (κ × UnixMicros)) (required : Bool) (key : κ) :
    Expiry → Prop
  | always (free : required = false) : Enabled activations required key ⊤
  | activated (needed : required = true) {instant : UnixMicros}
    (mem : (key, instant) ∈ activations) : Enabled activations required key instant

/-- A membership needs an activation of its group by its own flag or by the group's policy. -/
def requiresActivation (md : Metadata) (membership : GroupMembership) : Bool :=
  membership.activationRequired || groupHasPolicy md membership.containingGroupId

/-- The user acts as the principal until the given end: as themself for ever, and as a group by
a live membership for as long as the chain up to it, its window and its activation last. -/
inductive ActsAs (md : Metadata) (user : PrincipalId) (identity : Revision) (now : UnixMicros) :
    PrincipalId → Expiry → Prop
  | self : ActsAs md user identity now user ⊤
  | member {membership : GroupMembership} {chain enabled : Expiry}
    (before : ActsAs md user identity now membership.memberPrincipalId chain)
    (mem : membership ∈ selectedMemberships md user now)
    (on : Enabled (liveActivations md (activatedGroup md) user identity now)
      (requiresActivation md membership) membership.containingGroupId enabled) :
    ActsAs md user identity now membership.containingGroupId
      (min chain (min membership.validUntil enabled))

/-- An owner or a covering grant supplies the right until the given end. -/
inductive Source (md : Metadata) (user : PrincipalId) (identity : Revision) (now : UnixMicros)
    (volume : VolumeId) (owners : List PrincipalId) (covers : PermissionGrant → Prop)
    (right : Fin definedRights) : Expiry → Prop
  | owner {owner : PrincipalId} {expiry : Expiry} (mem : owner ∈ owners)
    (acts : ActsAs md user identity now owner expiry) :
    Source md user identity now volume owners covers right expiry
  | grant {grant : PermissionGrant} {chain enabled : Expiry}
    (mem : grant ∈ selectedGrants md user volume now)
    (acts : ActsAs md user identity now grant.subjectPrincipalId chain)
    (covered : covers grant) (has : grant.rights.getLsbD right = true)
    (on : Enabled (liveActivations md (activatedGrant md) user identity now)
      grant.activationPolicyId.isSome grant.grantId enabled) :
    Source md user identity now volume owners covers right
      (min chain (min grant.validUntil enabled))

/-! ## Activations -/

def enabledExpiry {κ : Type} [DecidableEq κ] (activations : List (κ × UnixMicros)) (required : Bool)
    (key : κ) : Option Expiry :=
  if required then (label activations key).map fun instant : UnixMicros => (instant : Expiry) else some ⊤

section Activations

variable {κ : Type} [DecidableEq κ] {rows : List (κ × UnixMicros)} {required : Bool} {key : κ}
  {expiry : Expiry} {md : Metadata} {activations : List (PrincipalId × UnixMicros)}

theorem enabled_of_expiry (h : enabledExpiry (groupMax rows) required key = some expiry) :
    Enabled rows required key expiry := by
  unfold enabledExpiry at h
  split at h
  · rename_i needed
    obtain ⟨instant, isLabel, rfl⟩ := Option.map_eq_some_iff.mp h
    exact .activated needed (mem_groupMax isLabel)
  · rename_i free
    cases h
    exact .always (eq_false_of_ne_true free)

theorem expiry_of_enabled (h : Enabled rows required key expiry) :
    ∃ best, enabledExpiry (groupMax rows) required key = some best ∧ expiry ≤ best := by
  cases h with
  | always free => exact ⟨⊤, by simp [enabledExpiry, free], le_rfl⟩
  | @activated needed instant mem =>
    obtain ⟨best, isBest, le⟩ := le_groupMax mem
    exact ⟨best, by simp [enabledExpiry, needed, isBest], WithTop.coe_le_coe.mpr le⟩

theorem loadActivations_eq_ok {source : AccessActivation → Option κ} {limit : Nat} {user : PrincipalId}
    {identity : Revision} {now : UnixMicros} {activations : List (κ × UnixMicros)} :
    loadActivations md source limit user identity now = .ok activations ↔
      ((liveActivations md source user identity now).map Prod.fst).dedup.length ≤ limit ∧
      activations = groupMax (liveActivations md source user identity now) := by
  unfold loadActivations
  rw [length_groupMax]
  split
  · rename_i many
    exact ⟨nofun, fun h => absurd h.1 (not_le.mpr many)⟩
  · rename_i few
    refine ⟨fun h => ⟨not_lt.mp few, (ok.inj h).symm⟩, fun h => congrArg ok h.2.symm⟩

end Activations

/-! ## Memberships -/

section Subjects

variable {md : Metadata} {user : PrincipalId} {identity : Revision} {now : UnixMicros}

def edgeOf (md : Metadata) (membership : GroupMembership) : MembershipEdge where
  containingGroup := membership.containingGroupId
  member := membership.memberPrincipalId
  expiresAt := membership.validUntil
  requiresActivation := requiresActivation md membership

/-- A membership that demands an activation has a group whose policy can give one. -/
def Activatable (md : Metadata) (membership : GroupMembership) : Prop :=
  membership.activationRequired = true → groupHasPolicy md membership.containingGroupId = true

theorem membershipEdge_eq_ok {membership : GroupMembership} {edge : MembershipEdge} :
    membershipEdge md membership = .ok edge ↔
      Activatable md membership ∧ edge = edgeOf md membership := by
  unfold membershipEdge Activatable
  split
  · rename_i corrupt
    exact ⟨nofun, fun h => absurd (h.1 corrupt.1) corrupt.2⟩
  · rename_i sound
    refine ⟨fun h => ⟨fun needed => ?_, (ok.inj h).symm⟩, fun h => congrArg ok h.2.symm⟩
    by_contra none
    exact sound ⟨needed, none⟩

variable {edges : List MembershipEdge} {rows : List GroupMembership} {principal : PrincipalId}

theorem mapM_membershipEdge : rows.mapM (membershipEdge md) = .ok edges ↔
      (∀ row ∈ rows, Activatable md row) ∧ edges = rows.map (edgeOf md) := by
  induction rows generalizing edges with
  | nil =>
    refine ⟨fun h => ⟨nofun, (ok.inj h).symm⟩, fun h => congrArg ok h.2.symm⟩
  | cons row rows ih =>
    rw [mapM_cons]
    constructor
    · intro h
      obtain ⟨edge, isEdge, rest, isRest, h⟩ := bind₂_eq_ok.mp h
      obtain ⟨sound, rfl⟩ := membershipEdge_eq_ok.mp isEdge
      obtain ⟨soundRest, rfl⟩ := ih.mp isRest
      exact ⟨forall_mem_cons.mpr ⟨sound, soundRest⟩, (ok.inj h).symm⟩
    · rintro ⟨sound, rfl⟩
      obtain ⟨soundRow, soundRest⟩ := forall_mem_cons.mp sound
      exact bind₂_eq_ok.mpr ⟨_, membershipEdge_eq_ok.mpr ⟨soundRow, rfl⟩, _, ih.mpr ⟨soundRest, rfl⟩, rfl⟩

/-- The selected memberships are few enough and none is corrupt. -/
structure MembershipsLoad (md : Metadata) (user : PrincipalId) (now : UnixMicros) : Prop where
  few : (selectedMemberships md user now).length ≤ maximumMemberships
  sound : ∀ row ∈ selectedMemberships md user now, Activatable md row

theorem loadActiveMemberships_eq_ok :
    loadActiveMemberships md user now = .ok edges ↔ MembershipsLoad md user now ∧
      edges = (selectedMemberships md user now).map (edgeOf md) := by
  unfold loadActiveMemberships
  rw [bind_eq_ok]
  constructor
  · rintro ⟨loaded, isLoaded, h⟩
    obtain ⟨few, h⟩ := guard_ok.mp h
    have whole := take_of_length_le (not_lt.mp few)
    rw [whole] at isLoaded
    obtain ⟨sound, rfl⟩ := mapM_membershipEdge.mp isLoaded
    exact ⟨⟨not_lt.mp few, sound⟩, (ok.inj h).symm⟩
  · rintro ⟨load, rfl⟩
    refine ⟨_, ?_, if_neg (not_lt.mpr load.few)⟩
    rw [take_of_length_le load.few]
    exact mapM_membershipEdge.mpr ⟨load.sound, rfl⟩

/-! ## Effective subjects -/

theorem edgeCapacity_eq (membership : GroupMembership) :
    edgeCapacity activations (edgeOf md membership) =
      (enabledExpiry activations (requiresActivation md membership) membership.containingGroupId).map
        (min membership.validUntil) := by
  unfold edgeCapacity enabledExpiry edgeOf
  split
  · rw [Option.map_map]
    rfl
  · simp

theorem mem_usableEdges {edge : Edge PrincipalId Expiry} :
    edge ∈ usableEdges activations (rows.map (edgeOf md)) ↔ ∃ row ∈ rows, ∃ enabled,
      enabledExpiry activations (requiresActivation md row) row.containingGroupId = some enabled ∧
      edge = ⟨row.memberPrincipalId, row.containingGroupId, min row.validUntil enabled⟩ := by
  unfold usableEdges
  rw [filterMap_map, mem_filterMap]
  refine exists_congr fun row => and_congr_right fun _ => ?_
  rw [Function.comp_apply, edgeCapacity_eq]
  simp only [Option.map_map, Option.map_eq_some_iff, Function.comp_apply]
  exact exists_congr fun enabled => and_congr_right fun _ => eq_comm

def subjectEdges (md : Metadata) (user : PrincipalId) (identity : Revision) (now : UnixMicros) :
    List (Edge PrincipalId Expiry) :=
  usableEdges (groupMax (liveActivations md (activatedGroup md) user identity now))
    ((selectedMemberships md user now).map (edgeOf md))

theorem actsAs_of_reach (h : Reach (subjectEdges md user identity now) user principal expiry) :
    ActsAs md user identity now principal expiry := by
  induction h with
  | start => exact .self
  | step before mem ih =>
    obtain ⟨row, selected, enabled, isEnabled, rfl⟩ := mem_usableEdges.mp mem
    exact .member ih selected (enabled_of_expiry isEnabled)

theorem reach_of_actsAs (h : ActsAs md user identity now principal expiry) :
    ∃ best, Reach (subjectEdges md user identity now) user principal best ∧ expiry ≤ best := by
  induction h with
  | self => exact ⟨⊤, .start, le_rfl⟩
  | member before mem on ih =>
    obtain ⟨chain, reach, le⟩ := ih
    obtain ⟨enabled, isEnabled, le'⟩ := expiry_of_enabled on
    have edge := mem_usableEdges.mpr ⟨_, mem, enabled, isEnabled, rfl⟩
    exact ⟨_, Reach.step reach edge, min_le_min le (min_le_min le_rfl le')⟩

def SubjectsBounded (md : Metadata) (user : PrincipalId) (identity : Revision) (now : UnixMicros) :
    Prop :=
  ∀ principals : List PrincipalId, principals.Nodup →
    (∀ principal ∈ principals, ∃ expiry, ActsAs md user identity now principal expiry) →
    principals.length ≤ maximumMemberships

/-- The subjects of an evaluation are the principals the user acts as, each with its best end. -/
structure SubjectsOf (md : Metadata) (user : PrincipalId) (identity : Revision) (now : UnixMicros)
    (subjects : List (PrincipalId × Expiry)) : Prop where
  sound : ∀ {principal expiry}, label subjects principal = some expiry →
    ActsAs md user identity now principal expiry
  complete : ∀ {principal expiry}, ActsAs md user identity now principal expiry →
    ∃ best, label subjects principal = some best ∧ expiry ≤ best

variable {authentication : AuthenticatedPrincipal}

section

variable (activated : loadGroupActivations md authentication now = .ok activations)

include activated

theorem loadEffectiveSubjects_spec {subjects : List (PrincipalId × Expiry)}
    (h : loadEffectiveSubjects md authentication now activations = .ok subjects) :
    SubjectsOf md authentication.principalId authentication.identityRevision now subjects := by
  obtain ⟨-, rfl⟩ := loadActivations_eq_ok.mp activated
  obtain ⟨edges, isEdges, h⟩ := bind_eq_ok.mp h
  obtain ⟨-, rfl⟩ := loadActiveMemberships_eq_ok.mp isEdges
  split at h
  · cases h
  rename_i found isWidest
  cases h
  refine ⟨fun isLabel => actsAs_of_reach (widest_sound isWidest isLabel), fun acts => ?_⟩
  obtain ⟨reached, reach, le⟩ := reach_of_actsAs acts
  obtain ⟨best, isBest, le'⟩ := widest_complete isWidest reach
  exact ⟨best, isBest, le.trans le'⟩

theorem loadEffectiveSubjects_isOk :
    (∃ subjects, loadEffectiveSubjects md authentication now activations = .ok subjects) ↔
      MembershipsLoad md authentication.principalId now ∧
      SubjectsBounded md authentication.principalId authentication.identityRevision now := by
  obtain ⟨-, rfl⟩ := loadActivations_eq_ok.mp activated
  have bounded : (∃ subjects, widest (subjectEdges md authentication.principalId
      authentication.identityRevision now) maximumMemberships authentication.principalId =
      some subjects) ↔
      SubjectsBounded md authentication.principalId authentication.identityRevision now := by
    rw [widest_isSome (by decide)]
    refine forall_congr' fun principals => forall_congr' fun _ => ?_
    have same : ∀ principal, (∃ expiry, Reach (subjectEdges md authentication.principalId
        authentication.identityRevision now) authentication.principalId principal expiry) ↔
        ∃ expiry, ActsAs md authentication.principalId authentication.identityRevision now
          principal expiry := fun principal =>
      ⟨fun ⟨expiry, reach⟩ => ⟨expiry, actsAs_of_reach reach⟩,
        fun ⟨_, acts⟩ => (reach_of_actsAs acts).imp fun _ h => h.1⟩
    simp only [same]
  constructor
  · rintro ⟨subjects, h⟩
    obtain ⟨edges, isEdges, h⟩ := bind_eq_ok.mp h
    obtain ⟨load, rfl⟩ := loadActiveMemberships_eq_ok.mp isEdges
    split at h
    · cases h
    · rename_i found isWidest
      exact ⟨load, bounded.mp ⟨found, isWidest⟩⟩
  · rintro ⟨load, few⟩
    obtain ⟨subjects, isWidest⟩ := bounded.mpr few
    refine ⟨subjects, bind_eq_ok.mpr ⟨_, loadActiveMemberships_eq_ok.mpr ⟨load, rfl⟩, ?_⟩⟩
    unfold subjectEdges at isWidest
    rw [isWidest]
    rfl

end

end Subjects

/-! ## Lifetimes -/

/-- The lifetimes are the best ends of a set of sources. -/
structure Lasts (source : Fin definedRights → Expiry → Prop) (lifetimes : Lifetimes) : Prop where
  sound : ∀ {right expiry}, lifetimes right = some expiry → source right expiry
  complete : ∀ {right expiry}, source right expiry → ∃ best, lifetimes right = some best ∧ expiry ≤ best

section Lifetimes

variable {source : Fin definedRights → Expiry → Prop} {lifetimes : Lifetimes}

section

variable (h : Lasts source lifetimes)

include h

theorem Lasts.congr {other : Fin definedRights → Expiry → Prop}
    (same : ∀ right expiry, source right expiry ↔ other right expiry) : Lasts other lifetimes where
  sound isLife := (same _ _).mp (h.sound isLife)
  complete isSource := h.complete ((same _ _).mpr isSource)

theorem Lasts.contribute (rights : Rights) (expiry : Expiry) :
    Lasts (fun right e => source right e ∨ (rights.getLsbD right = true ∧ e = expiry))
      (contribute lifetimes rights expiry) := by
  refine ⟨?_, ?_⟩
  · intro right e isLife
    unfold Access.contribute at isLife
    split at isLife
    · rename_i better
      cases isLife
      exact .inr ⟨(Bool.and_eq_true_iff.mp better).1, rfl⟩
    · exact .inl (h.sound isLife)
  · intro right e isSource
    unfold Access.contribute
    split
    · rename_i better
      obtain ⟨has, better⟩ := Bool.and_eq_true_iff.mp better
      refine ⟨expiry, rfl, ?_⟩
      rcases isSource with old | ⟨-, rfl⟩
      · obtain ⟨best, isBest, le⟩ := h.complete old
        rw [isBest] at better
        exact le.trans (of_decide_eq_true better).le
      · exact le_rfl
    · rename_i worse
      rcases isSource with old | ⟨has, rfl⟩
      · exact h.complete old
      cases isLife : lifetimes right with
      | none => exact absurd (by simp [has, isLife, improves]) worse
      | some best =>
        refine ⟨best, rfl, not_lt.mp fun lt => worse ?_⟩
        simp [has, isLife, improves, lt]

theorem Lasts.contributeOwner (subjects : List (PrincipalId × Expiry)) (owner : PrincipalId) :
    Lasts (fun right e => source right e ∨ label subjects owner = some e)
      (contributeOwner subjects lifetimes owner) := by
  unfold Access.contributeOwner
  split
  · rename_i absent
    refine h.congr fun right e => ?_
    simp [absent]
  · rename_i expiry isLabel
    refine (h.contribute _ _).congr fun right e => ?_
    have all : (BitVec.allOnes definedRights).getLsbD right = true := by simp
    simp only [all, isLabel, true_and, Option.some.injEq]
    exact or_congr_right eq_comm

theorem Lasts.owners (subjects : List (PrincipalId × Expiry)) (owners : List PrincipalId) :
    Lasts (fun right e => source right e ∨ ∃ owner ∈ owners, label subjects owner = some e)
      (owners.foldl (Access.contributeOwner subjects) lifetimes) := by
  induction owners generalizing source lifetimes with
  | nil => exact h.congr fun right e => by simp
  | cons owner rest ih =>
    refine (ih (h.contributeOwner subjects owner)).congr fun right e => ?_
    simp only [mem_cons, exists_eq_or_imp, or_assoc]

end

end Lifetimes

/-! ## Grants -/

/-- Where a grant reaches, for a target with the given ancestors. -/
def reaches (object : ObjectId) (target : Target) (ancestors : List ObjectId)
    (grant : PermissionGrant) : Bool :=
  match grant.scope with
  | .mesh => target.inheritsVolumeGrants && grant.inheritance.descendants
  | .volume _ => target.inheritsVolumeGrants &&
      ((target.isRoot && grant.inheritance.exact) || (!target.isRoot && grant.inheritance.descendants))
  | .object _ named => (named == object && grant.inheritance.exact) ||
      (ancestors.contains named && grant.inheritance.descendants)

def grantEvaluation (request : AccessRequest) (user : PrincipalId) (target : Target)
    (ancestors : List ObjectId) (subjects : List (PrincipalId × Expiry))
    (activations : List (GrantId × UnixMicros)) : GrantEvaluation where
  request := request
  principalId := user
  targetIsRoot := target.isRoot
  inheritsVolumeGrants := target.inheritsVolumeGrants
  ancestors := ancestors
  subjects := subjects
  activations := activations

section Grants

variable {request : AccessRequest} {user : PrincipalId} {target : Target} {ancestors : List ObjectId}
  {subjects : List (PrincipalId × Expiry)} {activations : List (GrantId × UnixMicros)}

theorem grantApplies_eq {grant : PermissionGrant}
    (inVolume : grant.scope.inVolume request.volumeId) :
    grantApplies (grantEvaluation request user target ancestors subjects activations) grant =
      .ok (reaches request.objectId target ancestors grant) := by
  unfold grantApplies reaches
  cases isScope : grant.scope with
  | mesh => rfl
  | volume id =>
    rw [isScope] at inVolume
    exact if_pos (eq_of_beq inVolume)
  | object id named =>
    rw [isScope] at inVolume
    exact if_pos (eq_of_beq inVolume)

def Gives (object : ObjectId) (target : Target) (ancestors : List ObjectId)
    (subjects : List (PrincipalId × Expiry)) (activations : List (GrantId × UnixMicros))
    (grant : PermissionGrant) (right : Fin definedRights) (expiry : Expiry) : Prop :=
  ∃ chain enabled, label subjects grant.subjectPrincipalId = some chain ∧
    reaches object target ancestors grant = true ∧
    enabledExpiry activations grant.activationPolicyId.isSome grant.grantId = some enabled ∧
    grant.rights.getLsbD right = true ∧ expiry = min chain (min grant.validUntil enabled)

theorem Lasts.applyGrant {source : Fin definedRights → Expiry → Prop} {lifetimes : Lifetimes}
    (h : Lasts source lifetimes) {grant : PermissionGrant}
    (inVolume : grant.scope.inVolume request.volumeId) (some' : grant.rights ≠ 0) :
    ∃ next, applyGrant (grantEvaluation request user target ancestors subjects activations)
        lifetimes grant = .ok next ∧
      Lasts (fun right e => source right e ∨
        Gives request.objectId target ancestors subjects activations grant right e) next := by
  unfold Access.applyGrant
  -- a grant that is left out gives nothing
  have skip : (∀ right e, ¬ Gives request.objectId target ancestors subjects activations grant right e) →
      Lasts (fun right e => source right e ∨
        Gives request.objectId target ancestors subjects activations grant right e) lifetimes :=
    fun none => h.congr fun right e => by simp [none right e]
  cases isSubject : label subjects grant.subjectPrincipalId with
  | none =>
    refine ⟨lifetimes, by simp only [grantEvaluation, isSubject], skip ?_⟩
    rintro right e ⟨chain, enabled, isChain, -⟩
    rw [isSubject] at isChain
    cases isChain
  | some chain =>
    simp only [grantApplies_eq inVolume]
    simp only [grantEvaluation, isSubject]
    cases covered : reaches request.objectId target ancestors grant with
    | false =>
      refine ⟨lifetimes, rfl, skip ?_⟩
      rintro right e ⟨_, enabled, -, reached, -⟩
      rw [covered] at reached
      cases reached
    | true =>
      cases isEnabled : enabledExpiry activations grant.activationPolicyId.isSome grant.grantId with
      | none =>
        have noEnd : grantActivationExpiry activations grant = none := isEnabled
        refine ⟨lifetimes, by simp only [noEnd]; rfl, skip ?_⟩
        rintro right e ⟨_, enabled, -, -, on, -⟩
        rw [isEnabled] at on
        cases on
      | some enabled =>
        have isEnd : grantActivationExpiry activations grant = some enabled := isEnabled
        refine ⟨Access.contribute lifetimes grant.rights (min chain (min grant.validUntil enabled)),
          by simp only [isEnd, if_neg some']; rfl, (h.contribute _ _).congr fun right e => ?_⟩
        unfold Gives
        rw [isSubject, isEnabled]
        refine or_congr_right ⟨fun given => ⟨chain, enabled, rfl, covered, rfl, given⟩, ?_⟩
        rintro ⟨_, _, isChain, -, on, given⟩
        cases isChain
        cases on
        exact given

theorem Lasts.grants {source : Fin definedRights → Expiry → Prop} {lifetimes : Lifetimes}
    (h : Lasts source lifetimes) {rows : List PermissionGrant}
    (inVolume : ∀ row ∈ rows, row.scope.inVolume request.volumeId = true)
    (some' : ∀ row ∈ rows, row.rights ≠ 0) :
    ∃ final, rows.foldlM (Access.applyGrant (grantEvaluation request user target ancestors subjects
        activations)) lifetimes = .ok final ∧
      Lasts (fun right e => source right e ∨ ∃ row ∈ rows,
        Gives request.objectId target ancestors subjects activations row right e) final := by
  induction rows generalizing source lifetimes with
  | nil => exact ⟨lifetimes, rfl, h.congr fun right e => by simp⟩
  | cons row rest ih =>
    obtain ⟨next, isNext, lasts⟩ := @Lasts.applyGrant request user target ancestors subjects
      activations _ _ h row (inVolume row mem_cons_self) (some' row mem_cons_self)
    obtain ⟨final, isFinal, lasts'⟩ := ih lasts (fun r mem => inVolume r (mem_cons_of_mem _ mem))
      (fun r mem => some' r (mem_cons_of_mem _ mem))
    refine ⟨final, ?_, lasts'.congr fun right e => ?_⟩
    · rw [foldlM_cons, isNext]
      exact isFinal
    · simp only [mem_cons, exists_eq_or_imp, or_assoc]

end Grants

/-! ## The loaders together -/

section Loaders

variable {request : AccessRequest} {authentication : AuthenticatedPrincipal} {target : Target}
  {ancestors : List ObjectId}

abbrev TargetSource (md : Metadata) (request : AccessRequest) (user : PrincipalId)
    (identity : Revision) (target : Target) (ancestors : List ObjectId) :
    Fin definedRights → Expiry → Prop :=
  Source md user identity request.now request.volumeId (ownersOf md target.ownerSetId)
    (reaches request.objectId target ancestors · = true)

/-- The rows that an evaluation for this user loads at the instant are within its limits. -/
structure Loadable (md : Metadata) (user : PrincipalId) (identity : Revision) (volume : VolumeId)
    (now : UnixMicros) : Prop where
  groupActivations : ((liveActivations md (activatedGroup md) user identity now).map
    Prod.fst).dedup.length ≤ maximumMemberships
  memberships : MembershipsLoad md user now
  subjects : SubjectsBounded md user identity now
  grantActivations : ((liveActivations md (activatedGrant md) user identity now).map
    Prod.fst).dedup.length ≤ maximumGrants
  grants : (selectedGrants md user volume now).length ≤ maximumGrants

def OwnersLoad (md : Metadata) (ownerSetId : OwnerSetId) : Prop :=
  (ownersOf md ownerSetId).length ≤ maximumOwners ∧ ownersOf md ownerSetId ≠ []

theorem applyOwnership_eq_ok {ownerSetId : OwnerSetId} {subjects : List (PrincipalId × Expiry)}
    {lifetimes owned : Lifetimes} :
    applyOwnership md ownerSetId subjects lifetimes = .ok owned ↔ OwnersLoad md ownerSetId ∧
      owned = (ownersOf md ownerSetId).foldl (contributeOwner subjects) lifetimes := by
  unfold applyOwnership OwnersLoad
  split
  · rename_i many
    exact ⟨nofun, fun h => absurd h.1.1 (not_le.mpr many)⟩
  · rename_i few
    split
    · rename_i none
      exact ⟨nofun, fun h => absurd none h.1.2⟩
    · rename_i some'
      exact ⟨fun h => ⟨⟨not_lt.mp few, some'⟩, (ok.inj h).symm⟩,
        fun h => congrArg ok h.2.symm⟩

theorem source_iff {subjects : List (PrincipalId × Expiry)}
    (loaded : SubjectsOf md authentication.principalId authentication.identityRevision request.now
      subjects) {lifetimes : Lifetimes} (h : Lasts (fun right e =>
      ((False ∨ ∃ owner ∈ ownersOf md target.ownerSetId, label subjects owner = some e) ∨
        ∃ row ∈ selectedGrants md authentication.principalId request.volumeId request.now,
          Gives request.objectId target ancestors subjects
            (groupMax (liveActivations md (activatedGrant md) authentication.principalId
              authentication.identityRevision request.now)) row right e)) lifetimes) :
    Lasts (TargetSource md request authentication.principalId authentication.identityRevision target
      ancestors) lifetimes := by
  refine ⟨fun isLife => ?_, fun isSource => ?_⟩
  · rcases h.sound isLife with (⟨⟨⟩⟩ | ⟨owner, mem, isLabel⟩) | ⟨row, mem, chain, enabled, isChain,
      reached, isEnabled, has, rfl⟩
    · exact .owner mem (loaded.sound isLabel)
    · exact .grant mem (loaded.sound isChain) reached has (enabled_of_expiry isEnabled)
  · cases isSource with
    | owner mem acts =>
      obtain ⟨expiry, isLabel, le⟩ := loaded.complete acts
      obtain ⟨best, isBest, le'⟩ := h.complete (.inl (.inr ⟨_, mem, isLabel⟩))
      exact ⟨best, isBest, le.trans le'⟩
    | grant mem acts covered has on =>
      obtain ⟨chain, isChain, le⟩ := loaded.complete acts
      obtain ⟨enabled, isEnabled, le'⟩ := expiry_of_enabled on
      obtain ⟨best, isBest, le''⟩ := h.complete
        (.inr ⟨_, mem, chain, enabled, isChain, covered, isEnabled, has, rfl⟩)
      exact ⟨best, isBest, (min_le_min le (min_le_min le_rfl le')).trans le''⟩

theorem selectedGrants_inVolume {user : PrincipalId} {volume : VolumeId} {now : UnixMicros}
    {grant : PermissionGrant} (mem : grant ∈ selectedGrants md user volume now) :
    grant.scope.inVolume volume = true := by
  have selected := (mem_filter.mp mem).2
  unfold grantSelected at selected
  simp only [Bool.and_eq_true] at selected
  exact selected.1.2

theorem applyGrants_spec (md : Projection) {subjects : List (PrincipalId × Expiry)}
    {activations : List (GrantId × UnixMicros)} {source : Fin definedRights → Expiry → Prop}
    {lifetimes : Lifetimes} (h : Lasts source lifetimes)
    (few : (selectedGrants md.toMetadata authentication.principalId request.volumeId
      request.now).length ≤ maximumGrants) :
    ∃ final, applyGrants md.toMetadata (grantEvaluation request authentication.principalId target
        ancestors subjects activations) lifetimes = .ok final ∧
      Lasts (fun right e => source right e ∨ ∃ row ∈ selectedGrants md.toMetadata
        authentication.principalId request.volumeId request.now,
          Gives request.objectId target ancestors subjects activations row right e) final := by
  obtain ⟨final, isFinal, lasts⟩ := @Lasts.grants request authentication.principalId target ancestors
    subjects activations source lifetimes h
    (selectedGrants md.toMetadata authentication.principalId request.volumeId request.now)
    (fun row mem => selectedGrants_inVolume mem)
    (fun row mem => md.grantRights row (mem_of_mem_filter mem))
  refine ⟨final, bind_eq_ok.mpr ⟨final, ?_, if_neg (not_lt.mpr few)⟩, lasts⟩
  show ((selectedGrants md.toMetadata authentication.principalId request.volumeId request.now).take
    maximumGrants).foldlM _ _ = _
  rw [take_of_length_le few]
  exact isFinal

theorem lasts_none : Lasts (fun _ _ => False) fun _ => none := ⟨nofun, nofun⟩

/-- Rows within the limits are loaded, and the lifetimes are the best ends of the sources. -/
theorem loadLifetimes_of_loadable (md : Projection)
    (load : Loadable md.toMetadata authentication.principalId authentication.identityRevision
      request.volumeId request.now) (owners : OwnersLoad md.toMetadata target.ownerSetId) :
    ∃ lifetimes, loadLifetimes md.toMetadata request authentication target ancestors = .ok lifetimes ∧
      Lasts (TargetSource md.toMetadata request authentication.principalId
        authentication.identityRevision target ancestors) lifetimes := by
  have activated : loadGroupActivations md.toMetadata authentication request.now = .ok _ :=
    loadActivations_eq_ok.mpr ⟨load.groupActivations, rfl⟩
  have switched : loadGrantActivations md.toMetadata authentication request.now = .ok _ :=
    loadActivations_eq_ok.mpr ⟨load.grantActivations, rfl⟩
  obtain ⟨subjects, isSubjects⟩ := (loadEffectiveSubjects_isOk activated).mpr
    ⟨load.memberships, load.subjects⟩
  have loaded := loadEffectiveSubjects_spec activated isSubjects
  obtain ⟨final, isFinal, lasts⟩ := @applyGrants_spec request authentication target ancestors md
    subjects _ _ _ (lasts_none.owners subjects (ownersOf md.toMetadata target.ownerSetId)) load.grants
  refine ⟨final, ?_, source_iff loaded lasts⟩
  exact bind₄_eq_ok.mpr ⟨_, activated, _, isSubjects, _, switched, _,
    applyOwnership_eq_ok.mpr ⟨owners, rfl⟩, isFinal⟩

theorem loadable_of_loadLifetimes {lifetimes : Lifetimes}
    (h : loadLifetimes md request authentication target ancestors = .ok lifetimes) :
    Loadable md authentication.principalId authentication.identityRevision request.volumeId
      request.now ∧ OwnersLoad md target.ownerSetId := by
  obtain ⟨groups, activated, subjects, isSubjects, grants, switched, h⟩ := bind₃_eq_ok.mp h
  obtain ⟨owned, isOwned, applied, -, h⟩ := bind₂_eq_ok.mp h
  obtain ⟨memberships, bounded⟩ := (loadEffectiveSubjects_isOk activated).mp ⟨_, isSubjects⟩
  refine ⟨⟨(loadActivations_eq_ok.mp activated).1, memberships, bounded,
    (loadActivations_eq_ok.mp switched).1, ?_⟩, (applyOwnership_eq_ok.mp isOwned).1⟩
  obtain ⟨few, h⟩ := guard_ok.mp h
  exact not_lt.mp few

/-- What evaluation has loaded are the best ends of the sources. -/
theorem loadLifetimes_spec {md : Projection} {lifetimes : Lifetimes}
    (h : loadLifetimes md.toMetadata request authentication target ancestors = .ok lifetimes) :
    Lasts (TargetSource md.toMetadata request authentication.principalId
      authentication.identityRevision target ancestors) lifetimes := by
  obtain ⟨load, owners⟩ := loadable_of_loadLifetimes h
  obtain ⟨found, isFound, lasts⟩ := @loadLifetimes_of_loadable request authentication target ancestors
    md load owners
  cases h.symm.trans isFound
  exact lasts

end Loaders

end MeshSpan.Access
