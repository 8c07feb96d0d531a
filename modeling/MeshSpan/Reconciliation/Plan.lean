import MeshSpan.Topological

/- Validation and ordering of disconnected branch commits.

   Rust ↔ Lean (crates/meshspan-filesystem/src/reconciliation.rs):
     ReconciliationCommit(Payload), -Limits, -Frontier, plan_reconciliation, index_commits,
     reachable, select_pending, minimal_frontier, plan_digest, commit_header_digest
     validate_acyclic, order_pending   ↔  `validateAcyclic`, `orderPending`, both `Topological.kahn`

   Maps and sets keyed by identifiers are ordered, as the B-trees of the source.
   A digest over a stream of framed fields is the joined digest of the frames. -/

namespace MeshSpan

open Ordered

abbrev NamespaceCommitId := Nat

abbrev BranchId := Nat

abbrev VolumeId := Nat

abbrev ObjectId := Nat

abbrev ObjectRevisionId := Nat

abbrev SnapshotId := Nat

inductive ReconciliationCommitPayload where
  | mutation (intentDigest : Digest)
  | merge (replayDigest : Digest)
  | restore (snapshotId : SnapshotId) (snapshotNamespaceCommitId : NamespaceCommitId)
deriving DecidableEq

structure ReconciliationCommit where
  commitId : NamespaceCommitId
  branchId : BranchId
  volumeId : VolumeId
  rootObjectId : ObjectId
  rootObjectRevisionId : ObjectRevisionId
  parents : List NamespaceCommitId
  operationId : OperationId
  requestDigest : Digest
  payload : ReconciliationCommitPayload
deriving DecidableEq

structure ReconciliationFrontier where
  convergedHead : Option NamespaceCommitId
  eligibleHeads : List NamespaceCommitId

def ReconciliationFrontier.heads (frontier : ReconciliationFrontier) : List NamespaceCommitId :=
  frontier.convergedHead.toList ++ frontier.eligibleHeads

inductive ReconciliationError where
  | boundsExceeded
  | invalidInput
  | missingCommit
  | mixedNamespace
  | cycle
  | operationConflict
  | unreachableCommit
  | missingIntent
  | uncommittedRestore
  | missingBaseEntry
  | invalidLineage
deriving DecidableEq

/-- Resource bounds of one page, each positive and beneath its allocation ceiling. -/
structure ReconciliationLimits where
  (commits frontierHeads parents : Nat)
  bounds : 0 < commits ∧ commits ≤ 65536 ∧ 0 < frontierHeads ∧ frontierHeads ≤ 1024 ∧ 0 < parents ∧
    parents ≤ 1024

def ReconciliationLimits.default : ReconciliationLimits := ⟨4096, 64, 64, by decide⟩

structure ReconciliationPlan where
  convergedHead : Option NamespaceCommitId
  convergedBranchId : Option BranchId
  volumeId : VolumeId
  rootObjectId : ObjectId
  (orderedCommits mergeParents : List NamespaceCommitId)
  commitHeaders : OrdMap NamespaceCommitId Digest
  digest : Digest

abbrev CommitIndex := OrdMap NamespaceCommitId ReconciliationCommit

namespace CommitIndex

/-- `commits[id].parents`, of commits that are in the page. -/
def parents (commits : CommitIndex) (id : NamespaceCommitId) : List NamespaceCommitId :=
  match commits.get? id with
  | none => []
  | some c => c.parents

/-- `commits[id].operation_id`, of commits that are in the page. -/
def operation (commits : CommitIndex) (id : NamespaceCommitId) : OperationId :=
  match commits.get? id with
  | none => 0
  | some c => c.operationId

end CommitIndex

namespace Reconciliation

/-! ## Digests -/

/-- The framed identifiers of `update_ids`, sorted first. -/
def idsDigest (ids : List Nat) : Digest := .framed "" ((ids.insertionSort (· ≤ ·)).map Int.ofNat)

def payloadDigest : ReconciliationCommitPayload → Digest
  | .mutation intentDigest => .over "" intentDigest [1]
  | .merge replayDigest => .over "" replayDigest [2]
  | .restore snapshotId snapshotNamespaceCommitId => .framed "" [3, snapshotId, snapshotNamespaceCommitId]

variable (c : ReconciliationCommit)

/-- The fields of one commit as both digests of it frame them. -/
def commitFields : Digest :=
  .join (.framed "" [c.commitId, c.branchId, c.volumeId, c.rootObjectId, c.rootObjectRevisionId])
    (.join (idsDigest c.parents) (.join (.over "" c.requestDigest [c.operationId]) (payloadDigest c.payload)))

def commitHeaderDigest : Digest :=
  .join (.framed "meshspan.filesystem.reconciliation-commit-header.v2" []) (commitFields c)

def planDigest (commits : CommitIndex) (frontier : ReconciliationFrontier)
    (ordered parents : List NamespaceCommitId) : Digest :=
  let head := match frontier.convergedHead with
    | some head => [1, (head : Int)]
    | none => [0]
  let page := commits.values.foldl (fun digest c => .join digest (commitFields c))
    (.framed "meshspan.filesystem.reconciliation-plan.v2" (head ++ [(commits.size : Int)]))
  let selected := (ordered.filterMap commits.get?).foldl
    (fun digest c => .join digest (.join (.over "" c.requestDigest [c.operationId])
      (.join (payloadDigest c.payload) (.framed "" [c.rootObjectRevisionId]))))
    (.join (.join page (idsDigest frontier.eligibleHeads)) (idsDigest ordered))
  .join selected (idsDigest parents)

/-! ## Validation -/

variable (commits : List ReconciliationCommit) (frontier : ReconciliationFrontier)

def validateBounds
    (limits : ReconciliationLimits) : Except ReconciliationError Unit :=
  if commits = [] ∨ frontier.eligibleHeads = [] then .error .invalidInput
  else if limits.commits < commits.length ∨ limits.frontierHeads < frontier.eligibleHeads.length ∨
      commits.any (fun c => limits.parents < c.parents.length) then
    .error .boundsExceeded
  else .ok ()

def invalidPayload : Bool :=
  match c.payload with
  | .mutation _ => 1 < c.parents.length
  | .merge _ => c.parents.length < 2
  | .restore _ _ => c.parents.length ≠ 1

variable (limits : ReconciliationLimits)

def indexCommit (indexed : CommitIndex) (c : ReconciliationCommit) :
    Except ReconciliationError CommitIndex :=
  let parents := OrdSet.ofList c.parents
  if parents.card ≠ c.parents.length ∨ c.commitId ∈ parents ∨ limits.parents < c.parents.length ∨
      invalidPayload c ∨ indexed.contains c.commitId then
    .error .invalidInput
  else .ok (indexed.insert c.commitId c)

def indexCommits :
    Except ReconciliationError CommitIndex := do
  let indexed ← commits.foldlM (indexCommit limits) ∅
  if commits.any (fun c => c.parents.any (!indexed.contains ·)) then .error .missingCommit
  else .ok indexed

def validateNamespace (commits : CommitIndex) (frontier : ReconciliationFrontier) :
    Except ReconciliationError Unit :=
  match commits.values with
  | [] => .error .invalidInput
  | first :: _ =>
    if commits.values.any (fun c =>
        (c.volumeId ≠ first.volumeId ∨ c.rootObjectId ≠ first.rootObjectId)) then
      .error .mixedNamespace
    else if (OrdSet.ofList frontier.heads).card ≠ frontier.heads.length then .error .invalidInput
    else if frontier.heads.any (!commits.contains ·) then .error .missingCommit
    else .ok ()

/-- The depth-first walk over parents; `pending` is the stack, its top first. -/
def reachableLoop (commits : CommitIndex) : Nat → List NamespaceCommitId → OrdSet NamespaceCommitId →
    Except ReconciliationError (OrdSet NamespaceCommitId)
  | _, [], selected => .ok selected
  | 0, _ :: _, _ => .error .missingCommit
  | rounds + 1, commitId :: pending, selected =>
    if commitId ∈ selected then reachableLoop commits rounds pending selected
    else
      match commits.get? commitId with
      | none => .error .missingCommit
      | some c => reachableLoop commits rounds (c.parents.reverse ++ pending) (selected.insert commitId)

/-- Every head and every parent of the page is pushed at most once for each commit that names it. -/
def reachableRounds (commits : CommitIndex) (heads : List NamespaceCommitId) : Nat :=
  heads.length + (commits.values.map (·.parents.length)).sum

def reachable (heads : List NamespaceCommitId) (commits : CommitIndex) :
    Except ReconciliationError (OrdSet NamespaceCommitId) :=
  reachableLoop commits (reachableRounds commits heads) heads.reverse ∅

def kahnResult (total : Nat) (result : Except Topological.KahnError (List NamespaceCommitId)) :
    Except ReconciliationError (List NamespaceCommitId) :=
  match result with
  | .error .missing => .error .missingCommit
  | .error .cycle => .error .cycle
  | .ok ordered => if ordered.length = total then .ok ordered else .error .cycle

def validateAcyclic (commits : CommitIndex) : Except ReconciliationError Unit := do
  let nodes := commits.keys.elems
  let count := fun id => (commits.parents id).length
  let _ ← kahnResult commits.size
    (Topological.kahn nodes commits.parents id id nodes.length (Topological.kahnStart nodes count id) [])
  return ()

def validateOperation (operations : OrdMap OperationId Digest) (c : ReconciliationCommit) :
    Except ReconciliationError (OrdMap OperationId Digest) :=
  match operations.get? c.operationId with
  | some digest =>
    if digest ≠ c.requestDigest then .error .operationConflict
    else .ok (operations.insert c.operationId c.requestDigest)
  | none => .ok (operations.insert c.operationId c.requestDigest)

def validateOperations (commits : CommitIndex) : Except ReconciliationError Unit := do
  let _ ← commits.values.foldlM validateOperation ∅
  return ()

/-! ## Selection and order -/

/-- One eligible commit against the commits selected so far: the least commit of each operation. -/
def selectCommit (commits : CommitIndex) (included : OrdSet OperationId)
    (selected : OrdMap OperationId NamespaceCommitId) (commitId : NamespaceCommitId) :
    OrdMap OperationId NamespaceCommitId :=
  let operation := commits.operation commitId
  if operation ∈ included then selected
  else
    match selected.get? operation with
    | some earlier => selected.insert operation (min earlier commitId)
    | none => selected.insert operation commitId

def selectPending (commits : CommitIndex) (eligible converged : OrdSet NamespaceCommitId) :
    OrdSet NamespaceCommitId :=
  let included := OrdSet.ofList (converged.elems.map commits.operation)
  let candidates := eligible.elems.filter fun id => decide (id ∉ converged)
  OrdSet.ofList (candidates.foldl (selectCommit commits included) ∅).values

/-- Ready commits are taken by operation identifier, then commit identifier. -/
def commitKey (commits : CommitIndex) (id : NamespaceCommitId) : Nat ×ₗ Nat := toLex (commits.operation id, id)

def orderPending (commits : CommitIndex) (pending : OrdSet NamespaceCommitId) :
    Except ReconciliationError (List NamespaceCommitId) :=
  let nodes := pending.elems
  let count := fun id => ((commits.parents id).filter fun parent => decide (parent ∈ pending)).length
  kahnResult pending.card
    (Topological.kahn nodes commits.parents (commitKey commits) (fun ready => (ofLex ready).2) nodes.length
      (Topological.kahnStart nodes count (commitKey commits)) [])

/-- Whether another candidate head reaches `candidate`. -/
def superseded (commits : CommitIndex) (candidate : NamespaceCommitId) :
    List NamespaceCommitId → Except ReconciliationError Bool
  | [] => .ok false
  | head :: rest => do
    let closure ← reachable [head] commits
    if candidate ∈ closure then return true else superseded commits candidate rest

def minimalFrontier (commits : CommitIndex) :
    Except ReconciliationError (List NamespaceCommitId) :=
  let candidates := (OrdSet.ofList frontier.heads).elems
  candidates.foldlM (fun minimal candidate => do
    let covered ← superseded commits candidate (candidates.filter fun head => decide (head ≠ candidate))
    return if covered then minimal else minimal ++ [candidate]) []

def isRestore : Bool :=
  match c.payload with
  | .restore _ _ => true
  | _ => false

def planReconciliation (commits : List ReconciliationCommit) (frontier : ReconciliationFrontier)
    (limits : ReconciliationLimits) : Except ReconciliationError ReconciliationPlan := do
  validateBounds commits frontier limits
  let byId ← indexCommits commits limits
  validateNamespace byId frontier
  let converged ← reachable frontier.convergedHead.toList byId
  let eligible ← reachable frontier.eligibleHeads byId
  if (converged.union eligible).card ≠ byId.size then .error .unreachableCommit
  else
    validateAcyclic byId
    validateOperations byId
    let pending := selectPending byId eligible converged
    if pending.elems.any (fun id => (byId.get? id).any isRestore) then .error .uncommittedRestore
    else
      let orderedCommits ← orderPending byId pending
      let mergeParents ← minimalFrontier frontier byId
      match byId.values with
      | [] => .error .invalidInput
      | first :: _ =>
        .ok { convergedHead := frontier.convergedHead
              convergedBranchId := frontier.convergedHead.bind fun id => (byId.get? id).map (·.branchId)
              volumeId := first.volumeId
              rootObjectId := first.rootObjectId
              orderedCommits
              mergeParents
              commitHeaders := byId.mapValues fun _ c => commitHeaderDigest c
              digest := planDigest byId frontier orderedCommits mergeParents }

end Reconciliation

end MeshSpan
