import MeshSpan.Core.CommitDiscipline
import MeshSpan.Quorum.Intersection

/- When the core persists, and what.

   A step of the core either asks for one durable mutation and waits, or changes
   volatile fields only.

   What is proved:
     1. `step_persists`: every step begins one mutation of `Begins` or is `Light`.
     2. `logDelta_merges`: the suffix an append asks for turns the log into the
        prefix below it followed by the received entries, or leaves it alone.
     3. `Begins.fits`: every listed mutation fits the core it is begun on.
     4. `persisted_durable`: an acknowledged mutation that fits is installed exactly.

   Everything here holds for arbitrary peer messages. -/

namespace MeshSpan

open Ordered List Option

namespace ConsensusCore

variable {core core' : ConsensusCore}

/-! ## Steps that persist nothing -/

/-- Only volatile fields moved: role, known leader, indices and the probe counter. -/
def Volatile (core core' : ConsensusCore) : Prop :=
  core' = { core with
    role := core'.role, leaderId := core'.leaderId, commitIndex := core'.commitIndex
    appliedIndex := core'.appliedIndex, nextAppendProbeId := core'.nextAppendProbeId }

theorem Volatile.refl : Volatile core core := rfl

theorem Volatile.trans {core'' : ConsensusCore} (h : Volatile core core') (h' : Volatile core' core'') :
    Volatile core core'' := by
  unfold Volatile at *
  rw [h', h]

theorem Books.of_eq {made : ConsensusCore × Except CoreError Unit}
    {result : Except CoreError Unit} (hb : Books core made.1) (h : made = (core', result)) :
    Books core core' := by
  rw [h] at hb
  exact hb

theorem Books.volatile (h : Books core core') : Volatile core core' := by
  rw [h]
  rfl

def isPersist : CoreEffect → Bool
  | .persist _ _ => true
  | _ => false

def NoPersist (effects : List CoreEffect) : Prop := ∀ effect ∈ effects, isPersist effect = false

theorem NoPersist.nil : NoPersist [] := nofun

variable {effects : List CoreEffect} {effect : CoreEffect} {log : List LogEntry} {first : Nat}

theorem NoPersist.cons (h : isPersist effect = false) (hs : NoPersist effects) :
    NoPersist (effect :: effects) :=
  forall_mem_cons.mpr ⟨h, hs⟩

theorem NoPersist.append {a b : List CoreEffect} (ha : NoPersist a) (hb : NoPersist b) :
    NoPersist (a ++ b) :=
  forall_mem_append.mpr ⟨ha, hb⟩

theorem Plain.noPersist (h : Plain effects) : NoPersist effects := by
  intro effect hmem
  have hplain := h effect hmem
  cases effect <;> first | rfl | cases hplain

/-- A result that changed volatile fields only and asks for no persistence. -/
def Light (core : ConsensusCore) (result : StepResult) : Prop :=
  Volatile core result.1 ∧ NoPersist (effectsOf result.2)

theorem Routine.light {result : StepResult} (h : core.Routine result) : core.Light result :=
  ⟨h.1.volatile, h.2.noPersist⟩

theorem Light.error (h : Volatile core core') (err : CoreError) : core.Light (core', .error err) :=
  ⟨h, .nil⟩

theorem Light.none (h : Volatile core core') : core.Light (core', .ok []) := ⟨h, .nil⟩

theorem Light.one (h : Volatile core core') (he : isPersist effect = false) :
    core.Light (core', .ok [effect]) :=
  ⟨h, .cons he .nil⟩

variable {result : StepResult}

theorem Light.of_volatile (hl : core'.Light result) (h : Volatile core core') :
    core.Light result := ⟨h.trans hl.1, hl.2⟩

theorem Light.of_eq {result' : StepResult} (hl : core.Light result) (h : result = result') :
    core.Light result' := h ▸ hl

theorem withEffects_light
    (heff : NoPersist effects) (h : core.Light result) : core.Light (withEffects effects result) := by
  obtain ⟨core₁, r⟩ := result
  cases r with
  | error err => exact ⟨h.1, .nil⟩
  | ok more => exact ⟨h.1, heff.append h.2⟩

theorem thenReply_light {reply : ConsensusCore → CoreEffect}
    (hreply : ∀ c, isPersist (reply c) = false) (h : core.Light result) :
    core.Light (thenReply reply result) := by
  obtain ⟨core₁, r⟩ := result
  cases r with
  | error err => exact ⟨h.1, .nil⟩
  | ok effects => exact ⟨h.1, NoPersist.append h.2 (.cons (hreply core₁) .nil)⟩

theorem commitEffects_noPersist (core : ConsensusCore) (old : Nat) :
    NoPersist (effectsOf (core.commitEffects old)) := by
  unfold commitEffects
  split
  · exact .nil
  · split
    · exact .nil
    · exact .cons rfl .nil

theorem advanceFollowerCommit_light (core : ConsensusCore) (index : Nat) :
    core.Light (core.advanceFollowerCommit index) := ⟨rfl, commitEffects_noPersist _ _⟩

theorem advanceLeaderCommit_light (core : ConsensusCore) : core.Light core.advanceLeaderCommit := by
  unfold advanceLeaderCommit
  split
  · simp only
    split
    · exact .error .refl _
    · exact ⟨rfl, commitEffects_noPersist _ _⟩
    · exact ⟨rfl, commitEffects_noPersist _ _⟩
  · exact .none .refl

theorem finishResponse_light (core : ConsensusCore) (sender : NodeId) (response : AppendResponse) :
    core.Light (core.finishResponse sender response) := by
  unfold finishResponse
  have hcommit := advanceLeaderCommit_light core
  simp only
  split
  · rename_i c err heq
    rw [heq] at hcommit
    exact .error hcommit.1 err
  · rename_i c committed heq
    rw [heq] at hcommit
    have hack := (acknowledgeReadBarrier_routine c sender response.readBarrierId).light
    split
    · rename_i c' err heq'
      rw [heq'] at hack
      exact .error (hcommit.1.trans hack.1) err
    · rename_i c' ready heq'
      rw [heq'] at hack
      have hboth : NoPersist (committed ++ ready) := NoPersist.append hcommit.2 hack.2
      split
      · exact withEffects_light hboth
          ((probeAll_routine _ _).light.of_volatile (hcommit.1.trans hack.1))
      · exact ⟨hcommit.1.trans hack.1, hboth⟩

theorem finishCommittedPrefix_light (core : ConsensusCore) (sender : NodeId) (index : Nat) :
    core.Light (core.finishCommittedPrefix sender index) :=
  thenReply_light (fun _ => rfl) (Light.of_volatile (advanceFollowerCommit_light _ _) rfl)

theorem finishProposal_light (core : ConsensusCore) (proposalId : Nat) (position : LogPosition) :
    core.Light (core.finishProposal proposalId position) := by
  unfold finishProposal
  split
  · rename_i state hrole
    simp only
    split
    · exact Light.error (by rfl) _
    split
    · rename_i c err heq
      have hsends := (probeAll_routine _ _).light.of_eq heq
      exact .error (Volatile.trans (by rfl) hsends.1) err
    · rename_i c sends heq
      have hsends := (probeAll_routine _ _).light.of_eq heq
      exact withEffects_light (NoPersist.cons rfl hsends.2)
        (Light.of_volatile (advanceLeaderCommit_light c) (Volatile.trans (by rfl) hsends.1))
  · exact .error .refl _

/-! ## The mutations a step may begin -/

variable {input : CoreInput} {action : AfterPersistence}

theorem Begins.waits {mutation : DurableMutation} (h : core.Begins input mutation action) :
    core.beginPersistence mutation action = (core, .error .exhausted) ∨
      core.Waits input (core.beginPersistence mutation action) := by
  unfold beginPersistence
  split
  · exact .inl rfl
  · rename_i next hnext
    rw [(checkedAdd_some hnext).1]
    exact .inr ⟨mutation, action, h, rfl⟩

theorem appliedThrough_light (core : ConsensusCore) (index : Nat) :
    core.Light (core.appliedThrough index) := by
  unfold appliedThrough
  split
  · exact .error .refl _
  · obtain ⟨hb, heff⟩ := completeReadBarriers_spec (Prod.mk.eta.symm)
    exact (ready_only_routine hb.books heff).light.of_volatile (by rfl)

theorem proofTaken_light (core : ConsensusCore) (state : LeaderState) (sender : NodeId)
    (response : AppendResponse) (probes : AppendProbes) (proof : ProbeResult) :
    core.Light (core.proofTaken state sender response probes proof) := by
  unfold proofTaken
  simp only
  split
  · exact (acknowledgeReadBarrier_routine _ _ _).light.of_volatile (by rfl)
  split
  · rename_i c err heq
    have hbooks := (absorbProof_books _ _ _ _ _).of_eq heq
    exact .error (Volatile.trans (by rfl) hbooks.volatile) err
  · rename_i c heq
    have hbooks := (absorbProof_books _ _ _ _ _).of_eq heq
    exact Light.of_volatile (finishResponse_light c _ _) (Volatile.trans (by rfl) hbooks.volatile)

/-- A reaction changes volatile fields only, or begins one mutation. -/
theorem Reacts.light (h : core.Reacts input result) : core.Light result ∨ core.Waits input result := by
  cases h with
  | begins h =>
    rcases h.waits with refused | waits
    · rw [refused]
      exact .inl (.error .refl _)
    · exact .inr waits
  | refuses err => exact .inl (.error .refl err)
  | ignores => exact .inl (.none .refl)
  | probes hrole probes => exact .inl (probeAll_routine _ _).light
  | notices peer hint => exact .inl (.one .refl rfl)
  | replays peer response => exact .inl ⟨rfl, (replayMembershipPrefix_plain _ _ _).noPersist⟩
  | votes granted hgranted => exact .inl (.one .refl rfl)
  | counts hterm hrole => exact .inl (.none (by rfl))
  | wins hterm hrole hquorum => exact .inl ((becomeLeader_routine _).light.of_volatile (by rfl))
  | declines => exact .inl (.one .refl rfl)
  | follows => exact .inl (.one (by rfl) rfl)
  | holds hvalid hplan hterm hmatch hdelta =>
    exact Or.inl (thenReply_light (fun _ => rfl)
      (Light.of_volatile (advanceFollowerCommit_light _ _) (by rfl)))
  | answers hwell hterm hrole hfound hreceive => exact .inl (proofTaken_light _ _ _ _ _ _)
  | finishes hvalid hplan hmatch hdelta => exact .inl (finishCommittedPrefix_light _ _ _)
  | reads id => exact .inl (beginReadBarrier_routine core id).light
  | cancels id => exact .inl (cancelReadBarrier_routine core id).light
  | applies index => exact .inl (appliedThrough_light core index)

/-- A core that waits for nothing either changes volatile fields only or begins one mutation. -/
theorem step_persists (hpending : core.pending = none) (input : CoreInput) :
    core.Light (core.step input) ∨ core.Waits input (core.step input) :=
  (step_reacts hpending input).light

end ConsensusCore

/-! ## Received entries -/

/-- Entry `i` of a range above index `first` carries index `first + i + 1`. -/
def Follows (first : Nat) (entries : List LogEntry) : Prop :=
  ∀ i e, entries[i]? = some e → e.position.index = first + i + 1

def ValidEntries (entries : List LogEntry) : Prop := ∀ e ∈ entries, e.validate = .ok ()

theorem Follows.nil (first : Nat) : Follows first [] := by
  intro i e h
  simp at h

variable {first : Nat} {e : LogEntry} {es : List LogEntry}

theorem Follows.tail (h : Follows first (e :: es)) : Follows (first + 1) es := by
  intro i x hx
  have := h (i + 1) x (by simpa using hx)
  omega

theorem Follows.head (h : Follows first (e :: es)) : e.position.index = first + 1 := by
  simpa using h 0 e rfl

theorem Follows.cons
    (he : e.position.index = first + 1) (hs : Follows (first + 1) es) : Follows first (e :: es) := by
  intro i x hx
  cases i with
  | zero =>
    cases hx
    exact he
  | succ i =>
    have := hs i x (by simpa using hx)
    omega

variable {entries : List LogEntry}

theorem Follows.drop (h : Follows first entries) (n : Nat) : Follows (first + n) (entries.drop n) := by
  intro i e he
  rw [getElem?_drop] at he
  have := h (n + i) e he
  omega

theorem Follows.index_le (h : Follows first entries)
    (he : e ∈ entries) : e.position.index ≤ first + entries.length := by
  obtain ⟨i, hi⟩ := getElem?_of_mem he
  have := h i e hi
  have := (List.getElem?_eq_some_iff.mp hi).1
  omega

theorem Contiguous.append (h : Contiguous log) (hs : Follows log.length entries) :
    Contiguous (log ++ entries) := by
  intro i e he
  by_cases hi : i < log.length
  · rw [getElem?_append_left hi] at he
    exact h i e he
  · rw [getElem?_append_right (by omega)] at he
    have := hs _ e he
    omega

theorem ValidEntries.append {a b : List LogEntry} (ha : ValidEntries a) (hb : ValidEntries b) :
    ValidEntries (a ++ b) :=
  forall_mem_append.mpr ⟨ha, hb⟩

theorem LogEntry.digest_of_validate (h : e.validate = .ok ()) :
    e.commandDigest = .command e.commandVersion e.command := by
  obtain ⟨hchecks, h⟩ := guard_ok.mp h
  simp only [not_or, not_not] at hchecks
  exact hchecks.2.2.2.2.2

theorem LogEntry.term_pos_of_validate (h : e.validate = .ok ()) : 0 < e.position.term := by
  obtain ⟨hchecks, h⟩ := guard_ok.mp h
  simp only [not_or, Bool.not_eq_false] at hchecks
  obtain ⟨hvalid, hgenesis, -⟩ := hchecks
  simp only [LogPosition.isValid, decide_eq_true_eq] at hvalid
  rcases eq_zero_or_pos e.position.term with hzero | hpos
  · exact absurd (LogPosition.ext hzero (hvalid.mpr hzero)) hgenesis
  · exact hpos

/-- Digests are collision free: entries that pass their check and share a digest are equal. -/
theorem LogEntry.eq_of_entryDigest {a b : LogEntry} (ha : a.validate = .ok ()) (hb : b.validate = .ok ())
    (h : a.entryDigest = b.entryDigest) : a = b := by
  have hda := digest_of_validate ha
  have hdb := digest_of_validate hb
  obtain ⟨⟨ta, ia⟩, oa, va, ca, da⟩ := a
  obtain ⟨⟨tb, ib⟩, ob, vb, cb, db⟩ := b
  simp only [LogEntry.entryDigest, Digest.logEntry.injEq] at h hda hdb
  obtain ⟨rfl, rfl, rfl, rfl, rfl⟩ := h
  rw [hda, Digest.command.injEq] at hdb
  rw [hdb.2]

variable {term : Nat}

theorem validateAppendFrom_spec : ∀ {entries : List LogEntry} {expected : Nat},
    validateAppendFrom term (expected + 1) entries = .ok () →
    Follows expected entries ∧ ValidEntries entries ∧ (∀ e ∈ entries, e.position.term ≤ term) ∧
      (entries ≠ [] → expected + entries.length < u64Max)
  | [], expected, _ => ⟨.nil _, nofun, nofun, fun h => absurd rfl h⟩
  | e :: es, expected, h => by
    unfold validateAppendFrom at h
    split at h
    · cases h
    rename_i hvalid
    split at h
    · cases h
    rename_i hchecks
    simp only [not_or, not_not, not_lt] at hchecks
    split at h
    · cases h
    rename_i next hnext
    obtain ⟨rfl, hbound⟩ := checkedAdd_some hnext
    obtain ⟨hfollows, hvalids, hterms, hlen⟩ := validateAppendFrom_spec h
    refine ⟨.cons hchecks.1 hfollows, forall_mem_cons.mpr ⟨hvalid, hvalids⟩,
      forall_mem_cons.mpr ⟨hchecks.2, hterms⟩, fun _ => ?_⟩
    · by_cases hes : es = []
      · subst hes
        simp only [length_singleton]
        omega
      · have := hlen hes
        simp only [length_cons]
        omega

theorem validateAppendEntries_spec {request : AppendRequest}
    (h : validateAppendEntries request = .ok ()) :
    request.term ≠ 0 ∧ Follows request.previous.index request.entries ∧
      ValidEntries request.entries ∧ (∀ e ∈ request.entries, e.position.term ≤ request.term) ∧
      (request.entries ≠ [] → request.previous.index + request.entries.length < u64Max) := by
  obtain ⟨hchecks, h⟩ := guard_ok.mp h
  simp only [not_or] at hchecks
  split at h
  · cases h
  split at h
  · cases h
  · rename_i expected hexpected
    obtain ⟨rfl, -⟩ := checkedAdd_some hexpected
    exact ⟨hchecks.1, validateAppendFrom_spec h⟩

/-- Terms never fall, starting from `term`. -/
def Ascends (term : Nat) : List LogEntry → Prop
  | [] => True
  | e :: es => term ≤ e.position.term ∧ Ascends e.position.term es

def lastTermFrom (term : Nat) (entries : List LogEntry) : Nat :=
  (entries.getLast?.map (·.position.term)).getD term

theorem lastTermFrom_cons (term : Nat) (e : LogEntry) (es : List LogEntry) :
    lastTermFrom term (e :: es) = lastTermFrom e.position.term es := by
  cases es with
  | nil => rfl
  | cons x xs => simp [lastTermFrom, getLast?_cons]

theorem Ascends.le_last : ∀ {term : Nat} {entries : List LogEntry}, Ascends term entries →
    term ≤ lastTermFrom term entries ∧ ∀ e ∈ entries, e.position.term ≤ lastTermFrom term entries
  | term, [], _ => ⟨le_rfl, nofun⟩
  | term, e :: es, h => by
    obtain ⟨hle, hall⟩ := Ascends.le_last h.2
    rw [lastTermFrom_cons]
    exact ⟨h.1.trans hle, forall_mem_cons.mpr ⟨hle, hall⟩⟩

theorem Ascends.append : ∀ {term : Nat} {a b : List LogEntry}, Ascends term a →
    Ascends (lastTermFrom term a) b → Ascends term (a ++ b)
  | _, [], _, _, hb => hb
  | term, e :: es, b, ha, hb => by
    rw [lastTermFrom_cons] at hb
    exact ⟨ha.1, Ascends.append ha.2 hb⟩

theorem Ascends.of_append : ∀ {term : Nat} {a b : List LogEntry}, Ascends term (a ++ b) →
    Ascends term a ∧ Ascends (lastTermFrom term a) b
  | _, [], _, h => ⟨trivial, h⟩
  | term, e :: es, b, h => by
    obtain ⟨ha, hb⟩ := Ascends.of_append h.2
    rw [lastTermFrom_cons]
    exact ⟨⟨h.1, ha⟩, hb⟩

theorem Ascends.take (h : Ascends term log) (n : Nat) : Ascends term (log.take n) := by
  rw [← take_append_drop n log] at h
  exact h.of_append.1

theorem validateCommittedFrom_spec : ∀ {entries : List LogEntry} {index term last : Nat},
    validateCommittedFrom index term entries = .ok last →
    Follows index entries ∧ ValidEntries entries ∧ Ascends term entries ∧
      last = index + entries.length ∧ (entries ≠ [] → last ≤ u64Max)
  | [], index, term, last, h => by
    cases h
    exact ⟨.nil _, nofun, trivial, rfl, fun h => absurd rfl h⟩
  | e :: es, index, term, last, h => by
    unfold validateCommittedFrom at h
    split at h
    · cases h
    rename_i hvalid
    split at h
    · cases h
    rename_i next hnext
    obtain ⟨rfl, hbound⟩ := checkedAdd_some hnext
    obtain ⟨hchecks, h⟩ := guard_ok.mp h
    simp only [not_or, not_not, not_lt] at hchecks
    obtain ⟨hfollows, hvalids, hascends, rfl, hlen⟩ := validateCommittedFrom_spec h
    refine ⟨.cons hchecks.1 hfollows, forall_mem_cons.mpr ⟨hvalid, hvalids⟩,
      ⟨hchecks.2, hascends⟩, ?_, fun _ => ?_⟩
    · simp only [length_cons]
      omega
    · by_cases hes : es = []
      · subst hes
        simpa using hbound
      · exact hlen hes

theorem validateCommittedPrefix_spec {range : CommittedPrefix}
    (h : validateCommittedPrefix range = .ok ()) :
    Follows range.previous.index range.entries ∧ ValidEntries range.entries ∧
      Ascends range.previous.term range.entries ∧
      range.committedIndex = range.previous.index + range.entries.length ∧
      (range.entries ≠ [] → range.committedIndex ≤ u64Max) := by
  obtain ⟨-, h⟩ := guard_ok.mp h
  split at h
  · cases h
  split at h
  · cases h
  rename_i last hlast
  obtain ⟨hindex, h⟩ := guard_ok.mp h
  rw [not_not] at hindex
  rw [← hindex]
  exact validateCommittedFrom_spec hlast

variable {position previous : LogPosition} {append entries : List LogEntry}
  {truncateFrom : Option Nat} {digest : Digest} {input : CoreInput}

theorem LogEntry.new_spec {operationId : OperationId} {version : Nat} {command : List Nat}
    (h : LogEntry.new position operationId version command = .ok e) :
    e.position = position ∧ e.operationId = operationId ∧ e.commandVersion = version ∧
      e.command = command ∧ e.validate = .ok () := by
  obtain ⟨hchecks, h⟩ := guard_ok.mp h
  cases h
  refine ⟨rfl, rfl, rfl, rfl, ?_⟩
  unfold LogEntry.validate
  rw [if_neg]
  simpa only [not_or, not_not, and_true] using hchecks

namespace ConsensusCore

variable {core core' : ConsensusCore}

/-! ## The suffix an append asks for -/

def keptLog (core : ConsensusCore) (truncateFrom : Option Nat) : List LogEntry :=
  match truncateFrom with
  | none => core.log
  | some index => core.log.take (index - 1)

theorem logDelta_skips (hlog : Contiguous core.log) (hvalid : ValidEntries core.log) :
    ∀ {entries : List LogEntry} {first : Nat} {truncateFrom : Option Nat} {append : List LogEntry},
      Follows first entries → ValidEntries entries → first ≤ core.log.length →
      core.logDelta entries = .ok (truncateFrom, append) →
      ∃ held, held ≤ entries.length ∧ append = entries.drop held ∧
        (core.log.drop first).take held = entries.take held ∧
        (∀ index, truncateFrom = some index → append ≠ [] ∧
          index = first + held + 1 ∧ index ≤ core.log.length ∧ core.commitIndex < index) ∧
        (truncateFrom = none → append = [] ∨ first + held = core.log.length)
  | [], first, truncateFrom, append, _, _, _, h => by
    cases h
    exact ⟨0, le_rfl, rfl, by simp, nofun, fun _ => .inl rfl⟩
  | e :: es, first, truncateFrom, append, hfollows, hentries, hfirst, h => by
    have hindex := hfollows.head
    have hentry : core.entry e.position.index = core.log[first]? := by
      rw [hindex, entry_of_contiguous hlog (by omega)]
      simp
    unfold logDelta at h
    rw [hentry] at h
    split at h
    · rename_i existing hexisting
      have hlt : first < core.log.length := (List.getElem?_eq_some_iff.mp hexisting).1
      have hmem : existing ∈ core.log := mem_of_getElem? hexisting
      split at h
      · rename_i hsame
        -- the log holds this entry: go on behind it
        have heq : existing = e :=
          LogEntry.eq_of_entryDigest (hvalid _ hmem) (hentries e mem_cons_self) hsame.2
        subst heq
        obtain ⟨held, hle, hdrop, htake, htrunc, hnone⟩ := logDelta_skips hlog hvalid hfollows.tail
          (fun x hx => hentries x (mem_cons_of_mem _ hx)) (by omega) h
        refine ⟨held + 1, by simpa using hle, by simpa using hdrop, ?_, ?_, ?_⟩
        · rw [drop_eq_getElem_cons hlt, take_succ_cons, take_succ_cons, htake]
          rw [getElem?_eq_getElem hlt] at hexisting
          rw [some.inj hexisting]
        · intro index hi
          obtain ⟨h0, h1, h2, h3⟩ := htrunc index hi
          exact ⟨h0, by omega, h2, h3⟩
        · intro hn
          rcases hnone hn with h1 | h1
          · exact .inl h1
          · exact .inr (by omega)
      · obtain ⟨hcommit, h⟩ := guard_ok.mp h
        cases h
        refine ⟨0, by simp, rfl, by simp, ?_, nofun⟩
        intro index hi
        cases hi
        exact ⟨nofun, hindex, by omega, by omega⟩
    · rename_i hnone
      cases h
      have hge := List.getElem?_eq_none_iff.mp hnone
      exact ⟨0, by simp, rfl, by simp, nofun, fun _ => .inr (by omega)⟩

/-- Installing the delta leaves the log alone if it holds all entries, and otherwise turns it into
the part below the received entries followed by them. -/
theorem logDelta_merges (hlog : Contiguous core.log) (hvalid : ValidEntries core.log)
    (hfollows : Follows first entries) (hentries : ValidEntries entries)
    (hfirst : first ≤ core.log.length) (h : core.logDelta entries = .ok (truncateFrom, append)) :
    (truncateFrom = none ∧ append = [] ∧ core.log.take first ++ entries <+: core.log) ∨
    (append ≠ [] ∧ core.keptLog truncateFrom ++ append = core.log.take first ++ entries) := by
  obtain ⟨held, hle, rfl, htake, htrunc, hnone⟩ :=
    logDelta_skips hlog hvalid hfollows hentries hfirst h
  have hheld : core.log.take (first + held) = core.log.take first ++ entries.take held := by
    rw [take_add, htake]
  by_cases hnil : entries.drop held = []
  · have hall : entries.take held = entries := by
      simpa [hnil] using take_append_drop held entries
    have htf : truncateFrom = none := by
      cases htf : truncateFrom with
      | none => rfl
      | some index => exact absurd hnil (htrunc index htf).1
    refine .inl ⟨htf, hnil, ?_⟩
    rw [← hall, ← hheld]
    exact take_prefix _ _
  · have hkept : core.keptLog truncateFrom = core.log.take (first + held) := by
      cases htf : truncateFrom with
      | none =>
        have hend := (hnone htf).resolve_left hnil
        simp [keptLog, hend]
      | some index =>
        obtain ⟨-, rfl, -, -⟩ := htrunc index htf
        rfl
    refine .inr ⟨hnil, ?_⟩
    rw [hkept, hheld, append_assoc, take_append_drop]

theorem positionMatches_spec (h : core.positionMatches previous digest) :
    previous = .genesis ∨ ∃ e, core.entry previous.index = some e ∧
      e.position.term = previous.term ∧ e.entryDigest = digest := by
  unfold positionMatches at h
  split at h
  · exact .inl (by assumption)
  cases he : core.entry previous.index with
  | none => simp [he] at h
  | some e =>
    simp only [he, any_some, decide_eq_true_eq] at h
    exact .inr ⟨e, rfl, h⟩

theorem entry_le (hlog : Contiguous core.log) {index : Nat} {e : LogEntry}
    (h : core.entry index = some e) : 0 < index ∧ index ≤ core.log.length := by
  rcases eq_zero_or_pos index with rfl | hpos
  · simp [entry] at h
  · rw [entry_of_contiguous hlog hpos] at h
    have := (List.getElem?_eq_some_iff.mp h).1
    exact ⟨hpos, by omega⟩

theorem positionMatches_le (hlog : Contiguous core.log)
    (h : core.positionMatches previous digest) : previous.index ≤ core.log.length := by
  rcases positionMatches_spec h with rfl | ⟨e, he, -⟩
  · exact Nat.zero_le _
  · exact (entry_le hlog he).2

/-! ## Mutations that fit -/

/-- A mutation the core can install: terms rise, votes are cast once, only entries above the commit
index go, and the new ones are valid and take their place. -/
structure Fits (core : ConsensusCore) (m : DurableMutation) : Prop where
  vote : ∀ term votedFor, m.voteState = some (term, votedFor) →
    term ≠ 0 ∧ core.currentTerm ≤ term ∧ (term = core.currentTerm → core.votedFor = none)
  truncate : ∀ index, m.truncateFrom = some index → core.commitIndex < index ∧ index ≤ core.log.length
  follows : Follows (core.keptLog m.truncateFrom).length m.append
  valid : ValidEntries m.append
  bounded : (core.keptLog m.truncateFrom).length + m.append.length ≤ u64Max
  phase : m.membershipEpoch = m.quorumPlan.map (·.activePlan.membershipEpoch)
  epoch : ∀ epoch, m.membershipEpoch = some epoch →
    epoch = core.activeEpoch ∨ epoch = saturatingAdd core.activeEpoch 1

theorem Fits.of_vote {votedFor : Option NodeId} (hinv : core.LocalInv) (hpos : term ≠ 0)
    (hterm : core.currentTerm ≤ term) (honce : term = core.currentTerm → core.votedFor = none) :
    core.Fits { voteState := some (term, votedFor) } := by
  refine ⟨fun t v h => ?_, nofun, .nil _, nofun, hinv.bounded, rfl, nofun⟩
  cases h
  exact ⟨hpos, hterm, honce⟩

theorem Fits.of_delta (term : Nat) (hinv : core.LocalInv) (hvalid : ValidEntries core.log)
    (hfollows : Follows first entries) (hentries : ValidEntries entries)
    (hfirst : first ≤ core.log.length) (hbound : entries ≠ [] → first + entries.length ≤ u64Max)
    (h : core.logDelta entries = .ok (truncateFrom, append)) :
    core.Fits { voteState := core.observe term, truncateFrom, append } := by
  obtain ⟨held, hle, rfl, htake, htrunc, hnone⟩ :=
    logDelta_skips hinv.contiguous hvalid hfollows hentries hfirst h
  have hkept : entries.drop held ≠ [] → (core.keptLog truncateFrom).length = first + held := by
    intro hne
    cases htf : truncateFrom with
    | none => exact ((hnone htf).resolve_left hne).symm
    | some index =>
      obtain ⟨-, rfl, hlen, -⟩ := htrunc index htf
      simp only [keptLog, length_take]
      omega
  refine ⟨fun t v hv => ?_, fun index hi => ?_, ?_, fun e he => ?_, ?_, rfl, nofun⟩
  · simp only [observe] at hv
    split at hv
    · cases hv
      exact ⟨by omega, by omega, by omega⟩
    · cases hv
  · obtain ⟨-, -, h2, h3⟩ := htrunc index hi
    exact ⟨h3, h2⟩
  · by_cases hne : entries.drop held = []
    · rw [hne]
      exact .nil _
    · rw [hkept hne]
      exact hfollows.drop held
  · exact hentries e (mem_of_mem_drop he)
  · by_cases hne : entries.drop held = []
    · simp only [hne, length_nil, add_zero]
      refine le_trans ?_ hinv.bounded
      cases truncateFrom with
      | none => exact le_rfl
      | some index => simp [keptLog]
    · have hb := hbound (by rintro rfl; simp at hne)
      simp only [hkept hne, length_drop]
      omega

theorem validAppliedTransitionPosition_spec (h : core.validAppliedTransitionPosition position) :
    ∃ e, core.entry position.index = some e ∧ e.position.term = position.term ∧
      position.index ≤ core.appliedIndex := by
  unfold validAppliedTransitionPosition at h
  simp only [Bool.and_eq_true, decide_eq_true_eq] at h
  cases he : core.entry position.index with
  | none => simp [he] at h
  | some e =>
    simp only [he, any_some, decide_eq_true_eq] at h
    exact ⟨e, rfl, h.2, h.1.2⟩

variable {m : DurableMutation}

/-- Every mutation a handler begins fits the core. -/
theorem Begins.fits (hinv : core.LocalInv) (hvalid : ValidEntries core.log)
    (h : core.Begins input m action) : core.Fits m := by
  cases h with
  | campaign hrole heligible hterm =>
    obtain ⟨rfl, -⟩ := checkedAdd_some hterm
    exact .of_vote hinv (by omega) (by omega) (by omega)
  | voteReply hplan hcandidate hpos hterm hvoter hgranted hnew =>
    refine .of_vote hinv hpos hterm fun heq => ?_
    rcases hnew with hgt | ⟨hg, hother⟩
    · omega
    rw [hg] at hgranted
    simp only [Bool.true_eq, Bool.and_eq_true, decide_eq_true_eq] at hgranted
    rcases hgranted.2 with h | h | h
    · omega
    · exact h
    · exact absurd h hother
  | voteStepDown hterm => exact .of_vote hinv (by omega) (by omega) (by omega)
  | appendStepDown hterm => exact .of_vote hinv (by omega) (by omega) (by omega)
  | appendRefused hvalid' hleader hplan hterm => exact .of_vote hinv (by omega) (by omega) (by omega)
  | appendAccepted hvalid' hleader hplan hterm hmatch hdelta hnew =>
    obtain ⟨-, hfollows, hentries, -, hbound⟩ := validateAppendEntries_spec hvalid'
    exact .of_delta _ hinv hvalid hfollows hentries (positionMatches_le hinv.contiguous hmatch)
      (fun hne => (hbound hne).le) hdelta
  | committedPrefix hvalid' hsender hplan happlied hmatch hdelta hnew =>
    obtain ⟨hfollows, hentries, -, hindex, hbound⟩ := validateCommittedPrefix_spec hvalid'
    exact .of_delta _ hinv hvalid hfollows hentries (positionMatches_le hinv.contiguous hmatch)
      (hindex ▸ hbound ·) hdelta
  | proposal hinput hrole hindex hnew =>
    obtain ⟨rfl, hbound⟩ := checkedAdd_some hindex
    obtain ⟨hposition, -, -, -, hok⟩ := LogEntry.new_spec hnew
    rw [lastPosition_of_contiguous hinv.contiguous] at hbound hposition
    refine ⟨nofun, nofun, .cons (by rw [hposition]; rfl) (.nil _), fun x hx => ?_, by simpa [keptLog] using hbound,
      rfl, nofun⟩
    rw [mem_singleton.mp hx]
    exact hok
  | @activateJoint current joint incarnations position hactive hdigest hepoch hinc hpres hposition =>
    refine ⟨nofun, nofun, .nil _, nofun, hinv.bounded, rfl, fun epoch he => ?_⟩
    cases he
    right
    rw [activeEpoch, hactive]
    show joint.membershipEpoch = saturatingAdd current.spec.membershipEpoch 1
    rw [hepoch, ← joint.adjacent]
    exact joint.epoch_eq
  | @activateStable joint plan incarnations position hactive hdigest hepoch hinc hpres hposition =>
    refine ⟨nofun, nofun, .nil _, nofun, hinv.bounded, rfl, fun epoch he => ?_⟩
    cases he
    left
    rw [activeEpoch, hactive]
    exact hepoch

/-! ## Acknowledged mutations -/

def installed (core : ConsensusCore) (m : DurableMutation) : ConsensusCore :=
  { core.installVote m.voteState with log := core.keptLog m.truncateFrom ++ m.append }

theorem appendDurable_ok : ∀ {entries : List LogEntry} {core : ConsensusCore}, Contiguous core.log →
    Follows core.log.length entries → ValidEntries entries → core.log.length + entries.length ≤ u64Max →
    core.appendDurable entries = ({ core with log := core.log ++ entries }, .ok ())
  | [], core, _, _, _, _ => by simp [appendDurable]
  | e :: es, core, hlog, hfollows, hvalid, hbound => by
    have hindex := hfollows.head
    have hnext : checkedAdd core.lastPosition.index 1 = some (core.log.length + 1) := by
      rw [lastPosition_of_contiguous hlog]
      exact if_pos (by simp only [length_cons] at hbound; omega)
    have hrest := @appendDurable_ok es { core with log := core.log ++ [e] } (hlog.concat hindex)
      (by simpa using hfollows.tail) (fun x hx => hvalid x (mem_cons_of_mem _ hx))
      (by simp only [length_append, length_cons, length_nil] at hbound ⊢; omega)
    unfold appendDurable
    simp only [hvalid e mem_cons_self, hnext, hindex, ne_eq, not_true_eq_false, if_false]
    rw [hrest]
    simp

theorem keptLog_contiguous (h : Contiguous core.log) (truncateFrom : Option Nat) :
    Contiguous (core.keptLog truncateFrom) := by
  cases truncateFrom with
  | none => exact h
  | some index => exact h.take _

/-- Installing a vote changes term and vote as it says, and otherwise only role and leader. -/
theorem installVote_spec (core : ConsensusCore) (voteState : Option (Nat × Option NodeId)) :
    (core.installVote voteState).currentTerm = (voteState.map (·.1)).getD core.currentTerm ∧
      (core.installVote voteState).votedFor = (voteState.map (·.2)).getD core.votedFor ∧
      core.installVote voteState = { core with
        role := (core.installVote voteState).role
        leaderId := (core.installVote voteState).leaderId
        currentTerm := (core.installVote voteState).currentTerm
        votedFor := (core.installVote voteState).votedFor } := by
  rcases voteState with _ | ⟨term, votedFor⟩
  · exact ⟨rfl, rfl, rfl⟩
  · simp only [installVote]
    split <;> exact ⟨rfl, rfl, rfl⟩

/-- A mutation that fits is installed whole. -/
theorem applyDurableMutation_installed (hinv : core.LocalInv)
    (hfits : core.Fits m) : core.applyDurableMutation m = (core.installed m, .ok ()) := by
  have hframe := (installVote_spec core m.voteState).2.2
  have hlogv := congrArg ConsensusCore.log hframe
  have hcommitv := congrArg ConsensusCore.commitIndex hframe
  have hepoch : m.membershipEpoch.any (fun epoch =>
      (epoch ≠ core.activeEpoch ∧ epoch ≠ saturatingAdd core.activeEpoch 1)) = false := by
    cases he : m.membershipEpoch with
    | none => rfl
    | some epoch =>
      have := hfits.epoch epoch he
      simp only [any_some, decide_eq_false_iff_not]
      tauto
  have hvote : m.voteState.any (fun v => v.1 < core.currentTerm ∨ v.1 = 0) = false := by
    cases hv : m.voteState with
    | none => rfl
    | some v =>
      obtain ⟨h1, h2, -⟩ := hfits.vote v.1 v.2 hv
      simp only [any_some, decide_eq_false_iff_not]
      omega
  have htrunc : m.truncateFrom.any (fun index => decide
      (index ≤ (core.installVote m.voteState).commitIndex ∨ index = 0)) = false := by
    cases ht : m.truncateFrom with
    | none => rfl
    | some index =>
      have := (hfits.truncate index ht).1
      simp only [any_some, decide_eq_false_iff_not, hcommitv]
      omega
  have hkept : (core.installVote m.voteState).truncateLog m.truncateFrom =
      { core.installVote m.voteState with log := core.keptLog m.truncateFrom } := by
    cases ht : m.truncateFrom with
    | none =>
      simp only [truncateLog, keptLog]
      rw [← hlogv]
    | some index =>
      simp only [truncateLog, keptLog, hlogv]
      rw [hinv.contiguous.filter_lt]
  unfold applyDurableMutation
  simp only [hepoch, hvote, htrunc, Bool.false_eq_true, if_false, hkept]
  exact appendDurable_ok (keptLog_contiguous hinv.contiguous _) hfits.follows hfits.valid hfits.bounded

/-- The core that has just installed an acknowledged mutation. -/
def acknowledged (core : ConsensusCore) (m : DurableMutation) : ConsensusCore :=
  { core with nextPersistenceId := core.nextPersistenceId + 1 }.installed m

section

variable (core : ConsensusCore) (m : DurableMutation)

theorem acknowledged_log : (core.acknowledged m).log = core.keptLog m.truncateFrom ++ m.append := rfl

theorem acknowledged_currentTerm :
    (core.acknowledged m).currentTerm = (m.voteState.map (·.1)).getD core.currentTerm :=
  (installVote_spec _ m.voteState).1

theorem acknowledged_votedFor :
    (core.acknowledged m).votedFor = (m.voteState.map (·.2)).getD core.votedFor :=
  (installVote_spec _ m.voteState).2.1

theorem acknowledged_indices : (core.acknowledged m).commitIndex = core.commitIndex ∧
      (core.acknowledged m).appliedIndex = core.appliedIndex ∧
      (core.acknowledged m).activePlan = core.activePlan := by
  unfold acknowledged installed
  rw [(installVote_spec _ m.voteState).2.2]
  exact ⟨rfl, rfl, rfl⟩

theorem acknowledged_pending : (core.acknowledged m).pending = core.pending := by
  unfold acknowledged installed
  rw [(installVote_spec _ m.voteState).2.2]

end

/-- Acknowledging the mutation a core waits for installs it and runs its action. -/
theorem persisted_step (hpending : core.pending = none) (hinv : core.LocalInv)
    (hfits : core.Fits m) (action : AfterPersistence) :
    (core.awaiting m action).step (.persisted core.nextPersistenceId) =
      (core.acknowledged m).finishAction { id := core.nextPersistenceId, mutation := m, action } := by
  have happly : applyDurableMutation { core with nextPersistenceId := core.nextPersistenceId + 1 } m =
      (core.acknowledged m, .ok ()) := by
    refine applyDurableMutation_installed ?_ ?_
    · exact { hinv with }
    · exact { hfits with }
  have hbase : ({ core.awaiting m action with pending := none } : ConsensusCore) =
      { core with nextPersistenceId := core.nextPersistenceId + 1 } := by
    rw [awaiting, ← hpending]
  show (core.awaiting m action).finishPersistence core.nextPersistenceId = _
  unfold finishPersistence
  simp only [awaiting, ne_eq, not_true_eq_false, if_false]
  simp only [awaiting] at hbase
  rw [hbase, happly]

/-- The phase an acknowledged mutation enters, if it carries one. -/
inductive Entered (core : ConsensusCore) (m : DurableMutation) : ConsensusCore → Prop
  | same (h : m.quorumPlan = none) : Entered core m core
  | plan {durable : DurableQuorumPlan} (h : m.quorumPlan = some durable)
      (incarnations : MemberIncarnations) :
      Entered core m (core.enterPlan durable.activePlan incarnations durable.activatedPosition)

theorem finishPlanActivation_light (core : ConsensusCore) (plan : ActiveQuorumPlan)
    (incarnations : MemberIncarnations) (position : LogPosition) :
    (core.enterPlan plan incarnations position).Light
      (core.finishPlanActivation plan incarnations position) := by
  unfold finishPlanActivation
  simp only
  split
  · exact .error .refl _
  · exact (settlePlan_routine _).light.of_volatile (rebaseLeader_books _ _).volatile

/-- After the action of a begun mutation only volatile fields differ from what it installed. -/
theorem finishAction_light (h : core.Begins input m action) (base : ConsensusCore) (id : Nat) :
    ∃ entered, Entered base m entered ∧
      entered.Light (base.finishAction { id, mutation := m, action }) := by
  have same : m.quorumPlan = none → base.Light (base.finishAction { id, mutation := m, action }) →
      ∃ entered, Entered base m entered ∧
        entered.Light (base.finishAction { id, mutation := m, action }) :=
    fun hm hl => ⟨base, .same hm, hl⟩
  cases h with
  | campaign => exact same rfl (finishCampaign_routine _).light
  | voteReply => exact same rfl (.one (by rfl) rfl)
  | voteStepDown => exact same rfl (.one (by rfl) rfl)
  | appendStepDown => exact same rfl (.one (by rfl) rfl)
  | appendRefused => exact same rfl (.one (by rfl) rfl)
  | appendAccepted =>
    exact same rfl (thenReply_light (fun _ => rfl)
      (Light.of_volatile (advanceFollowerCommit_light _ _) (by rfl)))
  | committedPrefix => exact same rfl (finishCommittedPrefix_light _ _ _)
  | proposal => exact same rfl (finishProposal_light _ _ _)
  | activateJoint => exact ⟨_, .plan rfl _, finishPlanActivation_light _ _ _ _⟩
  | activateStable => exact ⟨_, .plan rfl _, finishPlanActivation_light _ _ _ _⟩

end ConsensusCore

end MeshSpan
