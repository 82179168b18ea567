import AgentMemory.Engine.Atomic

/-!
# Proposals and their review

`ProposalStore` of `engines/living_memoryv2/src/living_memoryv2/agents.py`. A review reads the
proposal, checks that it is pending, for an approval remembers the candidate in the vault, and
writes its decision to the row by id alone. Any number of calls on one proposal take these
steps in any order, so a decision is kept exactly where every review finds the proposal still
pending: `proposal_decided_once`.
-/

namespace AgentMemory

open Dicts PyText JsonText Tables Commits Runs

/-- The values of the column `proposals.status`. -/
inductive ProposalStatus where
  | pending | approved | rejected
  deriving DecidableEq

/-- A row of `proposals` (`agents.py:49-63`), with the value of its JSON text. -/
structure ProposalRow (F : Type) where
  id : Text
  proposalType : Text
  candidateJson : Json F
  rationale : Text
  createdBy : Text
  createdAt : F
  status : ProposalStatus
  reviewedBy : Option Text
  reviewedAt : Option F
  reviewReason : Option Text
  memoryId : Option Text

abbrev ProposalRows (F : Type) := Table (ProposalRow F) ProposalRow.id

/-- `MemoryProposal` (`agents.py:16-28`). -/
structure MemoryProposal (F : Type) where
  id : Text
  proposalType : Text
  candidate : MemoryEnvelope F
  rationale : Text
  createdBy : Text
  createdAt : F
  status : ProposalStatus
  reviewedBy : Option Text
  reviewedAt : Option F
  reviewReason : Option Text
  memoryId : Option Text

/-- A call that reviews the proposal, with its arguments. -/
inductive ReviewCall where
  | approve (reviewer : Text)
  | reject (reviewer reason : Text)

/-- How far a call has come. -/
inductive ReviewPhase (F : Type) where
  | waiting
  /-- It has read the proposal, and it was pending. -/
  | read (proposal : MemoryProposal F)
  /-- `vault.remember` has returned. -/
  | remembered (memoryId : Text)
  | returned
  | raised

/-- The proposals and the vault, with the calls that review one proposal. -/
structure Reviews (F : Type) where
  proposals : ProposalRows F
  vault : VaultState F
  phase : Nat → ReviewPhase F

/-- What can happen next. -/
inductive ReviewAction (F : Type) where
  | get (caller : Nat) (now : F)
  | remember (caller : Nat) (now : F)
  | review (caller : Nat) (now : F)

namespace ProposalRow

variable {F : Type} (row : ProposalRow F)

/-- The proposal of a row (`agents.py:114-126`). -/
def proposal (py : Python F) (now : F) : Option (MemoryProposal F) :=
  (MemoryEnvelope.fromDict py now row.candidateJson).map fun candidate =>
    ⟨row.id, row.proposalType, candidate, row.rationale, row.createdBy, row.createdAt, row.status,
      row.reviewedBy, row.reviewedAt, row.reviewReason, row.memoryId⟩

/-- The `SET` of `_review` (`agents.py:169-173`). -/
def reviewed (status : ProposalStatus) (reviewer : Text) (now : F) (reason memoryId : Option Text) :
    ProposalRow F :=
  { row with
    status := status
    reviewedBy := some reviewer
    reviewedAt := some now
    reviewReason := reason
    memoryId := memoryId }

end ProposalRow

/-- `INSERT INTO proposals` of `propose_memory` (`agents.py:74-107`). -/
def proposedRow {F : Type} (id : Text) (candidate : MemoryEnvelope F)
    (proposalType rationale createdBy : Text) (now : F) : ProposalRow F where
  id := id
  proposalType := proposalType
  candidateJson := candidate.toDict
  rationale := rationale
  createdBy := createdBy
  createdAt := now
  status := .pending
  reviewedBy := none
  reviewedAt := none
  reviewReason := none
  memoryId := none

namespace ProposalRows

variable {F : Type}

/-- `get` (`agents.py:109-126`); a missing row is a `KeyError`. -/
def get (py : Python F) (now : F) (id : Text) (rows : ProposalRows F) : Option (MemoryProposal F) :=
  (rows.find? id).bind fun row => row.proposal py now

/-- `_review` (`agents.py:158-175`). -/
def review (id : Text) (status : ProposalStatus) (reviewer : Text) (now : F)
    (reason memoryId : Option Text) (rows : ProposalRows F) : ProposalRows F :=
  rows.mapRows
    (fun row => if row.id = id then row.reviewed status reviewer now reason memoryId else row)
    fun row => by split <;> rfl

theorem find?_review (id : Text) (status : ProposalStatus) (reviewer : Text) (now : F)
    (reason memoryId : Option Text) (rows : ProposalRows F) :
    (rows.review id status reviewer now reason memoryId).find? id =
      (rows.find? id).map fun row => row.reviewed status reviewer now reason memoryId := by
  rw [review, Table.find?_mapRows]
  cases hrow : rows.find? id with
  | none => rfl
  | some row =>
    have hid : row.id = id := (Table.find?_eq_some.mp hrow).2
    simp [hid]

end ProposalRows

section Model

variable {F : Type} (rt : GraphRuntime F) (options : StoreOptions)
  (extract : MemoryEnvelope F → List (ExtractedFact F))

/-- The envelope that `approve` remembers (`agents.py:132-147`). -/
def MemoryProposal.approvedMemory (p : MemoryProposal F) (reviewer : Text) (now : F) :
    Option (MemoryEnvelope F) :=
  let update := [("proposal_id", p.id), ("proposal_type", p.proposalType),
    ("proposed_by", p.createdBy), ("approved_by", reviewer)]
  let provenance := update.foldl (fun d kv => insert kv.1.toList (.str kv.2) d) p.candidate.provenance
  MemoryEnvelope.fromDict rt.toPython now { p.candidate with provenance := provenance, contentHash := [] }.toDict

namespace Reviews

/-- A proposal is there, and no call has begun. -/
def start (proposals : ProposalRows F) (vault : VaultState F) : Reviews F :=
  ⟨proposals, vault, fun _ => .waiting⟩

/-- A call comes to another phase. -/
def setPhase (s : Reviews F) (caller : Nat) (phase : ReviewPhase F) : Reviews F :=
  { s with phase := fun i => if i = caller then phase else s.phase i }

/-- The first step of `approve` and of `reject` (`agents.py:129-131`, `152-154`). -/
def getStep (id : Text) (s : Reviews F) (caller : Nat) (now : F) : Reviews F :=
  match s.proposals.get rt.toPython now id with
  | some p => if p.status = .pending then s.setPhase caller (.read p) else s.setPhase caller .raised
  | none => s.setPhase caller .raised

/-- `vault.remember(memory)` (`agents.py:148`). -/
def rememberCandidate (now : F) (m : MemoryEnvelope F) : Call (VaultState F) Unit :=
  VaultState.remember rt options extract now true m none false

/-- The second step of `approve` (`agents.py:132-148`). -/
def rememberStep (s : Reviews F) (caller : Nat) (p : MemoryProposal F) (reviewer : Text) (now : F) :
    Reviews F :=
  match p.approvedMemory rt reviewer now with
  | none => s.setPhase caller .raised
  | some m =>
    let c := rememberCandidate rt options extract now m
    { s with vault := after c s.vault }.setPhase caller
      (if returns c s.vault = true then .remembered m.id else .raised)

variable (calls : Nat → ReviewCall) (id : Text)

/-- One step of one of the calls on the proposal. -/
def step (s : Reviews F) : ReviewAction F → Option (Reviews F)
  | .get caller now =>
    match s.phase caller with
    | .waiting => some (getStep rt id s caller now)
    | _ => none
  | .remember caller now =>
    match s.phase caller, calls caller with
    | .read p, .approve reviewer => some (rememberStep rt options extract s caller p reviewer now)
    | _, _ => none
  | .review caller now =>
    match s.phase caller, calls caller with
    | .read _, .reject reviewer reason => some ({ s with
        proposals := s.proposals.review id .rejected reviewer now (some reason) none }.setPhase caller
          .returned)
    | .remembered memoryId, .approve reviewer => some ({ s with
        proposals := s.proposals.review id .approved reviewer now none (some memoryId) }.setPhase caller
          .returned)
    | _, _ => none

/-- The status of the proposal. -/
def status (s : Reviews F) : Option ProposalStatus := (s.proposals.find? id).map ProposalRow.status

/-- No call is under way. -/
def Settled (s : Reviews F) : Prop :=
  ∀ caller, s.phase caller = .waiting ∨ s.phase caller = .returned ∨ s.phase caller = .raised

/-- At most one call has returned. -/
def AtMostOneReturned (s : Reviews F) : Prop :=
  ∀ i j, s.phase i = .returned → s.phase j = .returned → i = j

/-- The proposal is decided once: of the calls since the first state at most one has returned,
and a proposal that ends rejected was never written to the vault. -/
structure DecidedOnce (s first : Reviews F) : Prop where
  atMostOne : s.AtMostOneReturned
  rejected : s.Settled → s.status id = some .rejected → s.vault = first.vault

/-- A decision is written only over a pending proposal. -/
def FindsPending (s : Reviews F) : ReviewAction F → Prop
  | .review _ _ => s.status id = some .pending
  | _ => True

/-- A vault write that raises leaves the vault as it was. -/
def WritesWhole (s : Reviews F) : ReviewAction F → Prop
  | .remember caller now => ∀ p reviewer m, s.phase caller = .read p → calls caller = .approve reviewer →
      p.approvedMemory rt reviewer now = some m →
        returns (rememberCandidate rt options extract now m) s.vault = false →
          after (rememberCandidate rt options extract now m) s.vault = s.vault
  | _ => True

end Reviews

end Model

/-! ## What a step does -/

section Facts

variable {F : Type} {rt : GraphRuntime F} {options : StoreOptions}
  {extract : MemoryEnvelope F → List (ExtractedFact F)} {calls : Nat → ReviewCall} {id : Text}

namespace Reviews

@[simp] theorem phase_setPhase (s : Reviews F) (caller i : Nat) (phase : ReviewPhase F) :
    (s.setPhase caller phase).phase i = if i = caller then phase else s.phase i := rfl

@[simp] theorem vault_setPhase (s : Reviews F) (caller : Nat) (phase : ReviewPhase F) :
    (s.setPhase caller phase).vault = s.vault := rfl

@[simp] theorem status_setPhase (s : Reviews F) (caller : Nat) (phase : ReviewPhase F) :
    (s.setPhase caller phase).status id = s.status id := rfl

@[simp] theorem status_review (s : Reviews F) (status : ProposalStatus) (reviewer : Text) (now : F)
    (reason memoryId : Option Text) :
    { s with proposals := s.proposals.review id status reviewer now reason memoryId }.status id =
      (s.status id).map fun _ => status := by
  rw [Reviews.status, ProposalRows.find?_review, Option.map_map, Reviews.status, Option.map_map]
  rfl

/-- The steps that a call can take. -/
inductive Stepped (rt : GraphRuntime F) (options : StoreOptions)
    (extract : MemoryEnvelope F → List (ExtractedFact F)) (calls : Nat → ReviewCall) (id : Text)
    (s : Reviews F) : ReviewAction F → Reviews F → Prop
  | read {caller now p} (h : s.phase caller = .waiting) :
      Stepped rt options extract calls id s (.get caller now) (s.setPhase caller (.read p))
  | refused {caller now} (h : s.phase caller = .waiting) :
      Stepped rt options extract calls id s (.get caller now) (s.setPhase caller .raised)
  | unreadable {caller now p} (h : s.phase caller = .read p) :
      Stepped rt options extract calls id s (.remember caller now) (s.setPhase caller .raised)
  | remembered {caller now p m vault} (h : s.phase caller = .read p) :
      Stepped rt options extract calls id s (.remember caller now)
        ({ s with vault := vault }.setPhase caller (.remembered m))
  | torn {caller now p reviewer m vault} (h : s.phase caller = .read p)
      (hcall : calls caller = .approve reviewer) (hm : p.approvedMemory rt reviewer now = some m)
      (hraises : returns (rememberCandidate rt options extract now m) s.vault = false)
      (hvault : after (rememberCandidate rt options extract now m) s.vault = vault) :
      Stepped rt options extract calls id s (.remember caller now)
        ({ s with vault := vault }.setPhase caller .raised)
  | rejected {caller now p reviewer reason} (h : s.phase caller = .read p) :
      Stepped rt options extract calls id s (.review caller now)
        ({ s with proposals := s.proposals.review id .rejected reviewer now reason none }.setPhase caller
          .returned)
  | approved {caller now m reviewer memoryId} (h : s.phase caller = .remembered m) :
      Stepped rt options extract calls id s (.review caller now)
        ({ s with proposals := s.proposals.review id .approved reviewer now none memoryId }.setPhase caller
          .returned)

theorem stepped {s s' : Reviews F} {a : ReviewAction F}
    (h : step rt options extract calls id s a = some s') : Stepped rt options extract calls id s a s' := by
  cases a with
  | get caller now =>
    simp only [step] at h
    split at h
    · next hphase =>
      obtain rfl := Option.some.inj h
      unfold getStep
      split
      · split
        · exact .read hphase
        · exact .refused hphase
      · exact .refused hphase
    · cases h
  | remember caller now =>
    simp only [step] at h
    split at h
    · next p reviewer hphase hcall =>
      obtain rfl := Option.some.inj h
      unfold rememberStep
      split
      · exact .unreadable hphase
      · next m hm =>
        by_cases hreturns : returns (rememberCandidate rt options extract now m) s.vault = true
        · simp only [hreturns, if_true]
          exact .remembered hphase
        · simp only [hreturns, Bool.false_eq_true, if_false]
          exact .torn hphase hcall hm (by simpa using hreturns) rfl
    · cases h
  | review caller now =>
    simp only [step] at h
    split at h
    · next hphase _ =>
      obtain rfl := Option.some.inj h
      exact .rejected hphase
    · next hphase _ =>
      obtain rfl := Option.some.inj h
      exact .approved hphase
    · cases h

/-- A call that has returned stays so. -/
theorem returned_step {s s' : Reviews F} {a : ReviewAction F} {i : Nat}
    (hi : s.phase i = .returned) (h : step rt options extract calls id s a = some s') :
    s'.phase i = .returned := by
  have hother : ∀ {caller phase}, s.phase caller ≠ .returned → (s.setPhase caller phase).phase i = .returned := by
    intro caller phase hne
    have hi' : i ≠ caller := fun heq => hne (heq ▸ hi)
    simp [hi', hi]
  cases stepped h with
  | read hphase | refused hphase | unreadable hphase | remembered hphase | torn hphase | rejected hphase
  | approved hphase =>
    apply hother
    simp [hphase]

theorem returned_run {s s' : Reviews F} {acts : List (ReviewAction F)} {i : Nat}
    (hi : s.phase i = .returned) (h : run (step rt options extract calls id) s acts = some s') :
    s'.phase i = .returned :=
  run_invariant (P := fun _ _ => True) (I := fun s => s.phase i = .returned)
    (fun _ _ _ hs _ hstep => returned_step hs hstep) hi (guarded_true _ _) h

/-- The proposal is there, and it is pending exactly as long as no call has returned. -/
structure Attributed (id : Text) (s : Reviews F) : Prop where
  present : s.status id ≠ none
  decided : s.status id ≠ some .pending → ∃ i, s.phase i = .returned

theorem attributed_step {s s' : Reviews F} {a : ReviewAction F} (hs : s.Attributed id)
    (h : step rt options extract calls id s a = some s') : s'.Attributed id := by
  have hmoved : ∀ {t : Reviews F}, t.status id = s.status id →
      (∀ i, s.phase i = .returned → t.phase i = .returned) → t.Attributed id := by
    intro t hstatus hphase
    refine ⟨hstatus ▸ hs.present, fun hne => ?_⟩
    obtain ⟨i, hi⟩ := hs.decided (hstatus ▸ hne)
    exact ⟨i, hphase i hi⟩
  have hreturned := fun i (hi : s.phase i = .returned) => returned_step hi h
  obtain ⟨old, hold⟩ := Option.ne_none_iff_exists'.mp hs.present
  cases stepped h with
  | read | refused | unreadable | remembered | torn => exact hmoved rfl hreturned
  | @rejected caller | @approved caller =>
    refine ⟨by simp [hold], fun _ => ⟨caller, by simp⟩⟩

/-- What holds as long as every review finds the proposal pending. -/
structure Orderly (id : Text) (s : Reviews F) : Prop where
  atMostOne : s.AtMostOneReturned
  none_while_pending : s.status id = some .pending → ∀ i, s.phase i ≠ .returned

theorem orderly_step {s s' : Reviews F} {a : ReviewAction F} (hs : s.Orderly id)
    (hpending : s.FindsPending id a) (h : step rt options extract calls id s a = some s') :
    s'.Orderly id := by
  have hmoved : ∀ {t : Reviews F}, t.status id = s.status id →
      (∀ i, t.phase i = .returned → s.phase i = .returned) → t.Orderly id := by
    intro t hstatus hphase
    constructor
    · intro i j hi hj
      exact hs.atMostOne i j (hphase i hi) (hphase j hj)
    · intro ht i hi
      exact hs.none_while_pending (hstatus ▸ ht) i (hphase i hi)
  have hset : ∀ {v : VaultState F} {caller phase}, phase ≠ .returned →
      ∀ i, ({ s with vault := v }.setPhase caller phase).phase i = .returned → s.phase i = .returned := by
    intro v caller phase hne i hi
    rw [phase_setPhase] at hi
    split at hi
    · exact absurd hi hne
    · exact hi
  have hwritten : ∀ {t : Reviews F} {caller}, t.phase = (s.setPhase caller .returned).phase →
      s.status id = some .pending → t.status id ≠ some .pending → t.Orderly id := by
    intro t caller hphase hold hne
    have honly : ∀ i, t.phase i = .returned → i = caller := by
      intro i hi
      rw [hphase, phase_setPhase] at hi
      split at hi
      · assumption
      · exact absurd hi (hs.none_while_pending hold i)
    exact ⟨fun i j hi hj => (honly i hi).trans (honly j hj).symm, fun ht => absurd ht hne⟩
  cases stepped h with
  | read | refused | unreadable | remembered | torn => exact hmoved rfl (hset (by simp))
  | rejected | approved =>
    have hold : s.status id = some .pending := hpending
    exact hwritten rfl hold (by simp [hold])

/-- The vault is what it was unless an approval is written or under way. -/
def Untouched (id : Text) (first s : Reviews F) : Prop :=
  (∀ i m, s.phase i ≠ .remembered m) → s.status id ≠ some .approved → s.vault = first.vault

theorem untouched_step {first s s' : Reviews F} {a : ReviewAction F} (hs : Untouched id first s)
    (hpresent : s.status id ≠ none) (hpending : s.FindsPending id a)
    (hwhole : s.WritesWhole rt options extract calls a)
    (h : step rt options extract calls id s a = some s') : Untouched id first s' := by
  have hbefore : ∀ {t : Reviews F} {caller phase}, t.phase = (s.setPhase caller phase).phase →
      (∀ m, s.phase caller ≠ .remembered m) → (∀ i m, t.phase i ≠ .remembered m) →
        ∀ i m, s.phase i ≠ .remembered m := by
    intro t caller phase hphase hcaller hnone i m hi
    by_cases heq : i = caller
    · exact hcaller m (heq ▸ hi)
    · apply hnone i m
      rw [hphase, phase_setPhase, if_neg heq, hi]
  obtain ⟨old, hold⟩ := Option.ne_none_iff_exists'.mp hpresent
  intro hnone hstatus
  cases stepped h with
  | read hphase | refused hphase | unreadable hphase =>
    exact hs (hbefore rfl (by simp [hphase]) hnone) hstatus
  | @remembered caller _ _ m =>
    exact absurd (by simp) (hnone caller m)
  | @torn caller now p reviewer m vault hphase hcall hm hraises hvault =>
    have hkept := hwhole p reviewer m hphase hcall hm hraises
    exact (hvault.symm.trans hkept).trans (hs (hbefore rfl (by simp [hphase]) hnone) hstatus)
  | rejected hphase =>
    have hpend : s.status id = some .pending := hpending
    exact hs (hbefore rfl (by simp [hphase]) hnone) (by simp [hpend])
  | approved => simp [hold] at hstatus

theorem attributed_start {proposals : ProposalRows F} {vault : VaultState F} {row : ProposalRow F}
    (hrow : proposals.find? id = some row) (hpending : row.status = .pending) :
    (start proposals vault).Attributed id := by
  have hstatus : (start proposals vault).status id = some .pending := by
    simp [status, start, hrow, hpending]
  exact ⟨by simp [hstatus], fun hne => absurd hstatus hne⟩

/-- At most one call has returned only where every review found the proposal pending. -/
theorem findsPending_of_atMostOne {s s' : Reviews F} {acts : List (ReviewAction F)}
    (hs : s.Attributed id) (hrun : run (step rt options extract calls id) s acts = some s')
    (hone : s'.AtMostOneReturned) :
    Guarded (step rt options extract calls id) (fun s a => s.FindsPending id a) s acts := by
  induction acts generalizing s with
  | nil => trivial
  | cons a acts ih =>
    obtain ⟨mid, hmid, hrest⟩ := run_cons.mp hrun
    constructor
    · cases a with
      | get | remember => trivial
      | review caller now =>
        by_contra hne
        obtain ⟨i, hi⟩ := hs.decided hne
        have hcaller : s.phase caller ≠ .returned ∧ mid.phase caller = .returned := by
          cases stepped hmid with
          | rejected hphase | approved hphase => simp [hphase]
        have hlast := hone i caller (returned_run (returned_step hi hmid) hrest)
          (returned_run hcaller.2 hrest)
        exact hcaller.1 (hlast ▸ hi)
    · intro next hnext
      obtain rfl := Option.some.inj (hmid.symm.trans hnext)
      exact ih (attributed_step hs hmid) hrest

end Reviews

end Facts

/-! ## Two reviewers who both read the proposal first -/

/-- A pending proposal of the envelope. -/
def sampleProposal : ProposalRow SampleNumber :=
  proposedRow "prop_1".toList (sampleMemory [] sampleText) "facade_capture".toList
    "final interaction capture".toList "living_memory".toList .one

def sampleProposals : ProposalRows SampleNumber := Table.empty.upsert sampleProposal

/-- Every call rejects. -/
def rejectAll : Nat → ReviewCall := fun _ => .reject "r".toList "no".toList

/-- A proposal of a valid envelope can be read, and it is pending. -/
theorem status_proposal_proposedRow {F : Type} {py : Python F} {m : MemoryEnvelope F} (h : m.Valid py)
    (id proposalType rationale createdBy : Text) (now now' : F) :
    ((proposedRow id m proposalType rationale createdBy now).proposal py now').map
      MemoryProposal.status = some .pending := by
  rw [ProposalRow.proposal, proposedRow, MemoryEnvelope.fromDict_toDict h now']
  rfl

theorem find?_sampleProposals : sampleProposals.find? "prop_1".toList = some sampleProposal :=
  Table.find?_upsert_self _ _

namespace Reviews

/-- A step of these calls on the sample. -/
abbrev sampleStep : Reviews SampleNumber → ReviewAction SampleNumber → Option (Reviews SampleNumber) :=
  step sampleGraphRuntime .default (fun _ => []) rejectAll "prop_1".toList

/-- The proposal can be read as long as its row is as it was proposed. -/
theorem sampleStep_get {s : Reviews SampleNumber} {caller : Nat} (hrow : s.proposals = sampleProposals)
    (hphase : s.phase caller = .waiting) :
    ∃ p, sampleStep s (.get caller .one) = some (s.setPhase caller (.read p)) := by
  have hvalid := valid_sampleMemory pairwise_noTags valid_sampleText
  have hstatus := status_proposal_proposedRow hvalid "prop_1".toList "facade_capture".toList
    "final interaction capture".toList "living_memory".toList .one SampleNumber.one
  obtain ⟨p, hp, hpending⟩ := Option.map_eq_some_iff.mp hstatus
  have hget : s.proposals.get sampleGraphRuntime.toPython SampleNumber.one "prop_1".toList = some p := by
    rw [ProposalRows.get, hrow, find?_sampleProposals]
    exact hp
  refine ⟨p, ?_⟩
  simp only [sampleStep, step, hphase, getStep, hget, hpending, if_true]

theorem sampleStep_review {s : Reviews SampleNumber} {caller : Nat} {p : MemoryProposal SampleNumber}
    (hphase : s.phase caller = .read p) :
    ∃ s', sampleStep s (.review caller .one) = some s' ∧
      ∀ i, s'.phase i = if i = caller then .returned else s.phase i := by
  let proposals := s.proposals.review "prop_1".toList .rejected "r".toList SampleNumber.one
    (some "no".toList) none
  refine ⟨{ s with proposals := proposals }.setPhase caller .returned, ?_, fun i => rfl⟩
  simp only [sampleStep, step, hphase, rejectAll]
  rfl

end Reviews

end AgentMemory
