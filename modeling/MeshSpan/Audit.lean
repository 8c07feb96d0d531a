import MeshSpan.Chain
import MeshSpan.Repository

/- The audit log of a partition, as `repository/apply.rs` writes it.

   Every entry that is applied for the first time inserts one audit event. Its predecessor is
   not the event of the entry before it: it is the one with the largest occurrence time and
   event id, both chosen by the caller. `chain_iff_increasing` says for which runs the log is
   one chain all the same, up to the two columns that no digest covers; `one_chain_iff` says
   that because of these two columns no log of several events is protected as a whole. -/

namespace MeshSpan.Audit

open List Rows Repository

inductive Actor where
  | principal (id : Nat)
  | node (id : Nat)
deriving Repr

structure AuthoritativeCommandContext where
  (operationId auditEventId : Nat)
  actor : Actor
  occurredAt : Int
  expectedRevision : Option Nat

structure EntityReference where
  (kind id : Nat)
deriving Repr

structure LogPosition where
  (term index : Nat)

/-- A row of `audit_events`, with the request and result digests of its operation. -/
structure AuditEvent where
  (eventId operationId sequence : Nat)
  actor : Actor
  eventKind : Nat
  subject : EntityReference
  occurredAt : Int
  redactedPayload : List Nat
  (request result : Digest)
  previous : Option Digest
  digest : Digest

/-- `audit_digest`: neither the sequence nor the redacted payload is hashed. -/
def auditDigest (event : AuditEvent) : Digest :=
  let (domain, actor) := match event.actor with
    | .principal id => ("meshspan.metadata.audit.v1", id)
    | .node id => ("meshspan.metadata.node-audit.v1", id)
  .join (.over domain event.request [event.eventId, event.operationId, actor, event.occurredAt,
      event.eventKind, event.subject.kind, event.subject.id])
    (match event.previous with
      | some previous => .join (.over "" event.result [1]) previous
      | none => .over "" event.result [0])

instance instantOrder : LinearOrder (Int ×ₗ Nat) :=
  @Prod.Lex.instLinearOrder Int Nat Int.instLinearOrder Nat.instLinearOrder

/-- `ORDER BY occurred_at, event_id`. -/
def order (event : AuditEvent) : Int ×ₗ Nat := toLex (event.occurredAt, event.eventId)

structure StoredOperation where
  operationId : Nat
  (request result : Digest)

structure Partition (σ : Type) where
  state : σ
  position : LogPosition := ⟨0, 0⟩
  revision : Nat := 0
  operations : List StoredOperation := []
  auditEvents : List AuditEvent := []

/-- The commands of a partition: everything below holds whatever they do. -/
structure Kernel (σ κ : Type) where
  requestDigest : AuthoritativeCommandContext → κ → Digest
  commandKind : κ → Nat
  isReserved : σ → Nat → Bool
  executeEntry : σ → AuthoritativeCommandContext → κ → Nat → LogPosition →
    Except RepositoryError (EntityReference × σ)

structure Entry (κ : Type) where
  position : LogPosition
  context : AuthoritativeCommandContext
  command : κ

def validatePosition (position : LogPosition) : Except RepositoryError Unit :=
  require (0 < position.index && 0 < position.term && position.index ≤ i64Max && position.term ≤ i64Max)
    .invalidLogPosition

def validateTransition (last next : LogPosition) : Except RepositoryError Unit :=
  require (next.index == last.index + 1 && last.term ≤ next.term) .invalidLogPosition

def resultDigest (entity : EntityReference) (revision : Nat) (position : LogPosition) : Digest :=
  .framed "" [1, entity.kind, entity.id, revision, position.term, position.index]

/-- The unique indexes of `audit_events`. -/
def conflicts (event old : AuditEvent) : Bool :=
  event.eventId == old.eventId || event.digest == old.digest ||
    (event.operationId == old.operationId && event.sequence == old.sequence)

def insertAuditEvent (events : List AuditEvent) (context : AuthoritativeCommandContext) (kind : Nat)
    (subject : EntityReference) (request result : Digest) : Except RepositoryError (List AuditEvent) :=
  let event : AuditEvent := ⟨context.auditEventId, context.operationId, 0, context.actor, kind, subject,
    context.occurredAt, [1, kind], request, result, (Chain.latest order events).map (·.digest), .raw 0⟩
  insertUnique conflicts events { event with digest := auditDigest event }

variable {σ κ : Type} (kernel : Kernel σ κ)

def applyTransaction (p : Partition σ) (entry : Entry κ) : Except RepositoryError (Partition σ) := do
  validatePosition entry.position
  validateTransition p.position entry.position
  let request := kernel.requestDigest entry.context entry.command
  match p.operations.find? (·.operationId == entry.context.operationId) with
  | some stored =>
    require (stored.request == request) .operationConflict
    pure { p with position := entry.position }
  | none =>
    require (!kernel.isReserved p.state entry.context.operationId) .operationConflict
    require (entry.context.expectedRevision.all (· == p.revision)) .staleRevision
    checkedI64 (p.revision + 1)
    let (subject, state) ← kernel.executeEntry p.state entry.context entry.command (p.revision + 1) entry.position
    let result := resultDigest subject (p.revision + 1) entry.position
    let events ← insertAuditEvent p.auditEvents entry.context (kernel.commandKind entry.command) subject request result
    pure ⟨state, entry.position, p.revision + 1,
      p.operations ++ [⟨entry.context.operationId, request, result⟩], events⟩

/-- An entry that fails leaves the partition as it was. -/
def step (p : Partition σ) (entry : Entry κ) : Partition σ := (applyTransaction kernel p entry).toOption.getD p

def run (state : σ) (entries : List (Entry κ)) : Partition σ := entries.foldl (step kernel) { state := state }

/-- What a reader of the log can check: the links in the order of application and every digest. -/
def Intact (events : List AuditEvent) : Prop :=
  Chain.Linked AuditEvent.digest AuditEvent.previous none events ∧ ∀ event ∈ events, event.digest = auditDigest event

/-- Equal digests have equal hashed columns. -/
theorem auditDigest_inj {a b : AuditEvent} (h : auditDigest a = auditDigest b) :
    { a with sequence := b.sequence, redactedPayload := b.redactedPayload, digest := b.digest } = b := by
  obtain ⟨_, _, _, actor, _, ⟨_, _⟩, _, _, _, _, previous, _⟩ := a
  obtain ⟨_, _, _, actor', _, ⟨_, _⟩, _, _, _, _, previous', _⟩ := b
  cases actor <;> cases actor' <;> cases previous <;> cases previous' <;> simp_all [auditDigest]

/-! ## What a run records -/

/-- The log of a run: unique sealed events, each linked to the latest before it. -/
structure Written (events : List AuditEvent) : Prop where
  keyed : Keyed AuditEvent.digest events
  hashed : ∀ event ∈ events, event.digest = auditDigest event
  recorded : Chain.Recorded AuditEvent.digest AuditEvent.previous order events

theorem Written.insert {events later : List AuditEvent} {context : AuthoritativeCommandContext} {kind : Nat}
    {subject : EntityReference} {request result : Digest} (h : Written events)
    (inserted : insertAuditEvent events context kind subject request result = .ok later) : Written later := by
  obtain ⟨rfl, unique⟩ := insertUnique_ok inserted
  refine ⟨keyed_append h.keyed fun old mem same => ?_, ?_, .snoc h.recorded rfl⟩
  · have := unique old mem
    simp_all [conflicts]
  · exact forall_mem_append.mpr ⟨h.hashed, by simp [auditDigest]⟩

theorem Written.apply {p next : Partition σ} {entry : Entry κ} (h : Written p.auditEvents)
    (applied : applyTransaction kernel p entry = .ok next) : Written next.auditEvents := by
  obtain ⟨_, _, _, _, applied⟩ := bind₂_eq_ok.mp applied
  dsimp only at applied
  split at applied
  · obtain ⟨_, _, applied⟩ := bind_eq_ok.mp applied
    cases applied
    exact h
  · obtain ⟨_, _, _, _, _, _, _, _, applied⟩ := bind₄_eq_ok.mp applied
    obtain ⟨_, inserted, applied⟩ := bind_eq_ok.mp applied
    cases applied
    exact h.insert inserted

theorem Written.step {p : Partition σ} (h : Written p.auditEvents) (entry : Entry κ) :
    Written (step kernel p entry).auditEvents := by
  unfold Audit.step
  cases applied : applyTransaction kernel p entry with
  | error err => exact h
  | ok next => exact h.apply kernel applied

theorem run_written (state : σ) (entries : List (Entry κ)) : Written (run kernel state entries).auditEvents := by
  induction entries using reverseRecOn with
  | nil => exact ⟨nodup_nil, by simp [run], .nil⟩
  | append_singleton earlier entry ih =>
    unfold run at ih ⊢
    rw [foldl_append]
    exact ih.step kernel entry

/-- A changed event passes exactly when only its unhashed columns changed. -/
theorem Written.intact_set {events : List AuditEvent} (h : Written events) (chain : Intact events)
    {i : Nat} (inside : i + 1 < events.length) (event : AuditEvent) :
    Intact (events.set i event) ↔ ∃ sequence payload,
      event = { events[i] with sequence := sequence, redactedPayload := payload } := by
  constructor
  · rintro ⟨linked, hashed⟩
    have after := linked.next (i := i) (by simpa using inside)
    rw [getElem_set_ne (by omega), getElem_set_self, chain.1.next inside] at after
    have same := Option.some.inj after
    rw [hashed event (mem_set (by omega) event), h.hashed _ (getElem_mem _)] at same
    have columns := auditDigest_inj same.symm
    exact ⟨event.sequence, event.redactedPayload, by rw [← columns]; simp_all⟩
  · rintro ⟨sequence, payload, rfl⟩
    refine ⟨chain.1.set (by omega) rfl rfl, fun event mem => ?_⟩
    rcases mem_or_eq_of_mem_set mem with old | rfl
    · exact h.hashed event old
    · exact h.hashed events[i] (getElem_mem _)

/-- Every event names the one applied immediately before it, so there is one root and the walk from
the last event meets every event once. -/
def Followed (events : List AuditEvent) : Prop :=
  Chain.Linked AuditEvent.digest AuditEvent.previous none events ∧
  events.countP (·.previous.isNone) = min 1 events.length ∧
  ∀ fuel ≥ events.length, Chain.follow AuditEvent.digest AuditEvent.previous events fuel
    (events.getLast?.map (·.digest)) = events.reverse

/-- The log as one chain: no event but the last can be taken out or changed unseen. -/
def OneChain (events : List AuditEvent) : Prop :=
  Followed events ∧ ∀ i, (inside : i + 1 < events.length) → ¬ Intact (events.eraseIdx i) ∧
    ∀ event, event ≠ events[i] → ¬ Intact (events.set i event)

/-- As `OneChain`, but an event's two unhashed columns, and no others, can be changed unseen. -/
def HashedChain (events : List AuditEvent) : Prop :=
  Followed events ∧ ∀ i, (inside : i + 1 < events.length) → ¬ Intact (events.eraseIdx i) ∧
    ∀ event, Intact (events.set i event) ↔ ∃ sequence payload,
      event = { events[i] with sequence := sequence, redactedPayload := payload }

theorem run_followed (state : σ) (entries : List (Entry κ)) :
    Followed (run kernel state entries).auditEvents ↔
      (run kernel state entries).auditEvents.dropLast.Pairwise (order · < order ·) := by
  have h := run_written kernel state entries
  rw [← Chain.linked_iff h.recorded h.keyed]
  exact ⟨And.left, fun linked => ⟨linked, linked.one_root,
    fun _ enough => Chain.follow_linked h.keyed linked (Subset.refl _) enough⟩⟩

/-- Up to its unhashed columns the audit log is one chain exactly when every event but the last was
later, by time and id, than those applied before it. -/
theorem chain_iff_increasing (state : σ) (entries : List (Entry κ)) :
    HashedChain (run kernel state entries).auditEvents ↔
      (run kernel state entries).auditEvents.dropLast.Pairwise (order · < order ·) := by
  have h := run_written kernel state entries
  rw [← run_followed]
  refine ⟨And.left, fun followed => ⟨followed, fun i inside => ⟨?_, ?_⟩⟩⟩
  · exact (followed.1.not_eraseIdx h.keyed inside ·.1)
  · exact h.intact_set ⟨followed.1, h.hashed⟩ inside

/-- With the unhashed columns included, the audit log is one chain only while it has at most one event. -/
theorem one_chain_iff (state : σ) (entries : List (Entry κ)) :
    OneChain (run kernel state entries).auditEvents ↔
      (run kernel state entries).auditEvents.length ≤ 1 := by
  have h := run_written kernel state entries
  have followed := run_followed kernel state entries
  generalize (run kernel state entries).auditEvents = events at h followed ⊢
  constructor
  · intro chain
    by_contra more
    have inside : 0 + 1 < events.length := by omega
    -- the first event passes under another sequence number
    refine (chain.2 0 inside).2 { events[0] with sequence := events[0].sequence + 1 } ?_ ?_
    · exact fun same => absurd (congrArg AuditEvent.sequence same) (Nat.succ_ne_self _)
    · exact (h.intact_set ⟨chain.1.1, h.hashed⟩ inside _).mpr ⟨_, _, rfl⟩
  · intro short
    refine ⟨followed.mpr ?_, fun i inside => absurd inside (by omega)⟩
    rw [dropLast_eq_take, show events.length - 1 = 0 by omega]
    exact Pairwise.nil

namespace ClockBack

/-- Commands that always succeed. -/
def commands : Kernel Unit Unit :=
  ⟨fun context _ => .framed "" [context.operationId], fun _ => 1, fun _ _ => false, fun _ _ _ _ _ => .ok (⟨1, 1⟩, ())⟩

/-- One principal's three operations, at the instants 10, 5 and 7. -/
def entries : List (Entry Unit) :=
  [⟨⟨1, 1⟩, ⟨1, 1, .principal 1, 10, none⟩, ()⟩, ⟨⟨1, 2⟩, ⟨2, 2, .principal 1, 5, none⟩, ()⟩,
    ⟨⟨1, 3⟩, ⟨3, 3, .principal 1, 7, none⟩, ()⟩]

/-- The second and the third event both name the first. -/
theorem forked : ((run commands () entries).auditEvents.map (·.previous.isSome) = [false, true, true] ∧
    (run commands () entries).auditEvents[1]?.map (·.previous) =
      (run commands () entries).auditEvents[2]?.map (·.previous)) ∧
    ¬ OneChain (run commands () entries).auditEvents :=
  ⟨by decide +kernel, fun h => absurd (h.1.1.next (i := 1) (by decide +kernel)) (by decide +kernel)⟩

end ClockBack

end MeshSpan.Audit
