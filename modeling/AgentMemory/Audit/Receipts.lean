import AgentMemory.Domain.Memory
import AgentMemory.Lib.Sha256
import AgentMemory.Lib.Timestamps
import Mathlib.Data.List.Forall2
import Mathlib.Data.List.ReduceOption
import Mathlib.Tactic.Tauto

/-!
# Audit receipts

The hash chain of `internal/services/audit/receipt.go`. `Verify` accepts every log that
`Append` built, whatever the object store refused. An altered log of the same length with
the same last hash that it accepts is the original one exactly when no receipt changed its
id, which is not hashed, and none moved a separator from one field to another, since the
hashed text does not escape them.
-/

namespace AgentMemory

open Sha256 Timestamps

/-- `Receipt` (`receipt.go:20-29`). -/
@[ext] structure Receipt where
  id : List Char
  tenantID : List Char
  action : List Char
  subjectID : List Char
  reason : List Char
  prevHash : List Char
  hash : List Char
  createdAt : Time
  deriving DecidableEq

/-- The text `receiptHash` hashes (`receipt.go:46`). -/
def receiptMaterial (r : Receipt) : List Char :=
  r.prevHash ++ '|' :: (r.tenantID ++ '|' :: (r.action ++ '|' :: (r.subjectID ++
    '|' :: (r.reason ++ '|' :: rfc3339Nano r.createdAt))))

/-- `receiptHash` (`receipt.go:45-48`). -/
def receiptHash (r : Receipt) : List Char := hexdigest (utf8 (receiptMaterial r))

/-- `NewReceipt` (`receipt.go:31-43`), with the id the generator gives. -/
def newReceipt (prevHash tenantID action subjectID reason id : List Char) (now : Time) : Receipt :=
  let receipt : Receipt := {
    id := id
    tenantID := tenantID
    action := action
    subjectID := subjectID
    reason := reason
    prevHash := prevHash
    hash := []
    createdAt := now }
  { receipt with hash := receiptHash receipt }

/-- `ReceiptLog` (`receipt.go:52-57`). -/
structure ReceiptLog where
  last : List Char
  receipts : List Receipt

/-- `NewReceiptLog` (`receipt.go:59-61`). -/
def newReceiptLog : ReceiptLog := ⟨[], []⟩

/-- A call of `Append`: its arguments, the id the generator gives, and whether the receipt
is persisted. Without an object store it always is; with one, marshalling and `Put` must
succeed. -/
structure AppendCall where
  tenantID : List Char
  action : List Char
  subjectID : List Char
  reason : List Char
  id : List Char
  now : Time
  persisted : Bool

/-- `ReceiptLog.Append` (`receipt.go:64-82`); `none` is the error of the object store or of
the marshalling. -/
def ReceiptLog.append (l : ReceiptLog) (call : AppendCall) : Option Receipt × ReceiptLog :=
  let receipt :=
    newReceipt l.last call.tenantID call.action call.subjectID call.reason call.id call.now
  if call.persisted then
    (some receipt, ⟨receipt.hash, l.receipts ++ [receipt]⟩)
  else (none, l)

/-- The log after these calls. -/
def ReceiptLog.appendAll (l : ReceiptLog) : List AppendCall → ReceiptLog
  | [] => l
  | call :: calls => (l.append call).2.appendAll calls

/-- The loop of `Verify` from the receipt of index `i` on. -/
def verifyFrom (i : Nat) (prev : List Char) : List Receipt → Except String Unit
  | [] => .ok ()
  | receipt :: receipts =>
    if receipt.prevHash ≠ prev then .error s!"receipt {i}: chain break"
    else if receiptHash receipt ≠ receipt.hash then .error s!"receipt {i}: hash mismatch"
    else verifyFrom (i + 1) receipt.hash receipts

/-- `ReceiptLog.Verify` (`receipt.go:85-98`). -/
def ReceiptLog.verify (l : ReceiptLog) : Except String Unit := verifyFrom 0 [] l.receipts

/-! ## What Verify accepts -/

/-- Receipts that carry their own hash and the hash of the receipt before. -/
def Chained (prev : List Char) : List Receipt → Prop
  | [] => True
  | receipt :: receipts =>
    receipt.prevHash = prev ∧ receiptHash receipt = receipt.hash ∧ Chained receipt.hash receipts

/-- The hash the chain ends with. -/
def endHash (prev : List Char) (receipts : List Receipt) : List Char :=
  ((receipts.map Receipt.hash).getLast?).getD prev

@[simp] theorem endHash_nil (prev : List Char) : endHash prev [] = prev := rfl

@[simp] theorem endHash_cons (prev : List Char) (r : Receipt) (receipts : List Receipt) :
    endHash prev (r :: receipts) = endHash r.hash receipts := by
  simp [endHash, List.getLast?_cons]

theorem verifyFrom_ok {i : Nat} {prev : List Char} {receipts : List Receipt} :
    verifyFrom i prev receipts = .ok () ↔ Chained prev receipts := by
  induction receipts generalizing i prev with
  | nil => simp [verifyFrom, Chained]
  | cons r receipts ih =>
    rw [verifyFrom, Chained]
    by_cases hprev : r.prevHash = prev
    · by_cases hhash : receiptHash r = r.hash
      · simp [hprev, hhash, ih]
      · simp [hprev, hhash]
    · simp [hprev]

theorem chained_append {prev : List Char} {receipts : List Receipt} {r : Receipt} :
    Chained prev (receipts ++ [r]) ↔
      Chained prev receipts ∧ r.prevHash = endHash prev receipts ∧ receiptHash r = r.hash := by
  induction receipts generalizing prev with
  | nil => simp [Chained]
  | cons first receipts ih =>
    simp only [List.cons_append, Chained, ih, endHash_cons]
    tauto

/-- What `Append` keeps of a log. -/
structure ReceiptLog.Intact (l : ReceiptLog) : Prop where
  chained : Chained [] l.receipts
  last : l.last = endHash [] l.receipts

theorem ReceiptLog.Intact.append {l : ReceiptLog} (hl : l.Intact) (call : AppendCall) :
    (l.append call).2.Intact := by
  unfold ReceiptLog.append
  split
  · constructor
    · exact chained_append.mpr ⟨hl.chained, hl.last, rfl⟩
    · simp [endHash]
  · exact hl

theorem ReceiptLog.Intact.appendAll {l : ReceiptLog} (hl : l.Intact) (calls : List AppendCall) :
    (l.appendAll calls).Intact := by
  induction calls generalizing l with
  | nil => exact hl
  | cons call calls ih => exact ih (hl.append call)

theorem intact_newReceiptLog : newReceiptLog.Intact := ⟨trivial, rfl⟩

/-- `Verify` accepts every log that `Append` built. -/
theorem verify_appendAll (calls : List AppendCall) :
    (newReceiptLog.appendAll calls).verify = .ok () :=
  verifyFrom_ok.mpr (intact_newReceiptLog.appendAll calls).chained

/-! ## Appending to a store that fails -/

/-- What the calls return: a receipt each, or the error of the store. -/
def ReceiptLog.outcomes (l : ReceiptLog) : List AppendCall → List (Option Receipt)
  | [] => []
  | call :: calls => (l.append call).1 :: (l.append call).2.outcomes calls

/-- The receipt records the call. -/
structure AppendCall.Issued (call : AppendCall) (r : Receipt) : Prop where
  id : r.id = call.id
  tenantID : r.tenantID = call.tenantID
  action : r.action = call.action
  subjectID : r.subjectID = call.subjectID
  reason : r.reason = call.reason
  createdAt : r.createdAt = call.now

theorem ReceiptLog.append_of_failed (l : ReceiptLog) {call : AppendCall}
    (h : call.persisted = false) : l.append call = (none, l) := by
  simp [append, h]

theorem ReceiptLog.append_of_persisted (l : ReceiptLog) {call : AppendCall}
    (h : call.persisted = true) : ∃ r, call.Issued r ∧ (l.append call).1 = some r ∧
      (l.append call).2.receipts = l.receipts ++ [r] := by
  refine ⟨newReceipt l.last call.tenantID call.action call.subjectID call.reason call.id call.now,
    ⟨rfl, rfl, rfl, rfl, rfl, rfl⟩, ?_, ?_⟩
  · simp [append, h]
  · simp [append, h]

/-- The receipts that a run adds: those its calls return, one for each call that persists its
receipt. -/
theorem ReceiptLog.receipts_appendAll (l : ReceiptLog) (calls : List AppendCall) :
    ∃ issued, (l.appendAll calls).receipts = l.receipts ++ issued ∧
      (l.outcomes calls).reduceOption = issued ∧
        List.Forall₂ AppendCall.Issued (calls.filter AppendCall.persisted) issued := by
  induction calls generalizing l with
  | nil => exact ⟨[], by simp [appendAll], rfl, .nil⟩
  | cons call calls ih =>
    obtain ⟨issued, hreceipts, houtcomes, hissued⟩ := ih (l.append call).2
    rw [appendAll, outcomes, hreceipts]
    cases hpersisted : call.persisted with
    | false =>
      refine ⟨issued, ?_, ?_, ?_⟩
      · rw [l.append_of_failed hpersisted]
      · rw [l.append_of_failed hpersisted] at houtcomes ⊢
        exact houtcomes
      · rw [List.filter_cons_of_neg (by simp [hpersisted])]
        exact hissued
    | true =>
      obtain ⟨r, hr, hfirst, hlog⟩ := l.append_of_persisted hpersisted
      refine ⟨r :: issued, ?_, ?_, ?_⟩
      · rw [hlog, List.append_assoc, List.singleton_append]
      · rw [hfirst, List.reduceOption_cons_of_some, houtcomes]
      · rw [List.filter_cons_of_pos hpersisted]
        exact .cons hr hissued

/-- In a run whose store fails where it likes, `Verify` accepts the log after every call, the
log holds the receipts of the calls that succeeded in their order, and a call that fails
leaves it as it was. -/
theorem append_under_faults (calls : List AppendCall) :
    (newReceiptLog.appendAll calls).verify = .ok () ∧
      (newReceiptLog.appendAll calls).receipts = (newReceiptLog.outcomes calls).reduceOption ∧
      List.Forall₂ AppendCall.Issued (calls.filter AppendCall.persisted)
        (newReceiptLog.appendAll calls).receipts ∧
      ∀ call, ((newReceiptLog.appendAll calls).append call).1 ≠ none ∨
        ((newReceiptLog.appendAll calls).append call).2 = newReceiptLog.appendAll calls := by
  obtain ⟨issued, hreceipts, houtcomes, hissued⟩ := newReceiptLog.receipts_appendAll calls
  have hnew : newReceiptLog.receipts = [] := rfl
  rw [hnew, List.nil_append] at hreceipts
  refine ⟨verifyFrom_ok.mpr (intact_newReceiptLog.appendAll calls).chained, ?_, ?_, fun call => ?_⟩
  · rw [hreceipts, houtcomes]
  · rw [hreceipts]
    exact hissued
  · cases hpersisted : call.persisted with
    | false => exact Or.inr (by rw [ReceiptLog.append_of_failed _ hpersisted])
    | true =>
      obtain ⟨r, -, hfirst, -⟩ :=
        (newReceiptLog.appendAll calls).append_of_persisted hpersisted
      exact Or.inl (by rw [hfirst]; exact nofun)

/-! ## What an accepted alteration can change -/

/-- Different texts of the list have different hashes. -/
def CollisionFree (materials : List (List Char)) : Prop :=
  ∀ x ∈ materials, ∀ y ∈ materials, hexdigest (utf8 x) = hexdigest (utf8 y) → x = y

/-- The id is the same, and so are the separators within each field. -/
structure KeepsSeparators (r r' : Receipt) : Prop where
  id : r.id = r'.id
  tenantID : r.tenantID.count '|' = r'.tenantID.count '|'
  action : r.action.count '|' = r'.action.count '|'
  subjectID : r.subjectID.count '|' = r'.subjectID.count '|'
  reason : r.reason.count '|' = r'.reason.count '|'

theorem notMem_receiptHash (r : Receipt) : '|' ∉ receiptHash r := fun hmem =>
  absurd (isHexDigit_hexdigest hmem) (by decide)

/-- The hashed text determines the hashed fields, up to separators. -/
theorem eq_of_receiptMaterial {r r' : Receipt} (hprev : '|' ∉ r.prevHash)
    (hprev' : '|' ∉ r'.prevHash) (hkeeps : KeepsSeparators r r') (hhash : r.hash = r'.hash)
    (h : receiptMaterial r = receiptMaterial r') : r = r' := by
  have hprevs : r.prevHash.count '|' = r'.prevHash.count '|' := by
    rw [List.count_eq_zero.mpr hprev, List.count_eq_zero.mpr hprev']
  obtain ⟨hprevHash, h⟩ := append_cons_inj_of_count hprevs h
  obtain ⟨htenant, h⟩ := append_cons_inj_of_count hkeeps.tenantID h
  obtain ⟨haction, h⟩ := append_cons_inj_of_count hkeeps.action h
  obtain ⟨hsubject, h⟩ := append_cons_inj_of_count hkeeps.subjectID h
  obtain ⟨hreason, htime⟩ := append_cons_inj_of_count hkeeps.reason h
  exact Receipt.ext hkeeps.id htenant haction hsubject hreason hprevHash hhash
    (rfc3339Nano_injective htime)

/-- Chains with the same end are equal, receipt by receipt from the last one back. -/
theorem chained_inj {materials : List (List Char)} (hfree : CollisionFree materials)
    {receipts receipts' : List Receipt} {prev prev' : List Char}
    (hmem : ∀ r ∈ receipts, receiptMaterial r ∈ materials)
    (hmem' : ∀ r ∈ receipts', receiptMaterial r ∈ materials)
    (hprev : '|' ∉ prev) (hprev' : '|' ∉ prev')
    (hkeeps : List.Forall₂ KeepsSeparators receipts receipts')
    (hchain : Chained prev receipts) (hchain' : Chained prev' receipts')
    (hend : endHash prev receipts = endHash prev' receipts') :
    receipts = receipts' ∧ prev = prev' := by
  induction hkeeps generalizing prev prev' with
  | nil => exact ⟨rfl, hend⟩
  | @cons r r' receipts receipts' hr _ ih =>
    obtain ⟨hprevHash, hhash, hrest⟩ := hchain
    obtain ⟨hprevHash', hhash', hrest'⟩ := hchain'
    rw [endHash_cons, endHash_cons] at hend
    obtain ⟨heq, hsame⟩ := ih (fun x hx => hmem x (List.mem_cons_of_mem _ hx))
      (fun x hx => hmem' x (List.mem_cons_of_mem _ hx))
      (hhash ▸ notMem_receiptHash r) (hhash' ▸ notMem_receiptHash r') hrest hrest' hend
    have hmaterial : receiptMaterial r = receiptMaterial r' := by
      apply hfree _ (hmem r List.mem_cons_self) _ (hmem' r' List.mem_cons_self)
      rw [← receiptHash, ← receiptHash, hhash, hhash', hsame]
    have hreceipt : r = r' :=
      eq_of_receiptMaterial (hprevHash ▸ hprev) (hprevHash' ▸ hprev') hr hsame hmaterial
    refine ⟨by rw [hreceipt, heq], ?_⟩
    rw [← hprevHash, ← hprevHash', hreceipt]

/-- A call of `Append` on a deletion. -/
def sampleAppend : AppendCall where
  tenantID := "t".toList
  action := "delete".toList
  subjectID := "m1".toList
  reason := "user request".toList
  id := "rcpt_1".toList
  now := 0
  persisted := true

/-- The receipt of that call in a new log, under an id of one's choice. -/
def sampleReceipt (id : List Char) : Receipt :=
  { newReceipt [] sampleAppend.tenantID sampleAppend.action sampleAppend.subjectID
      sampleAppend.reason sampleAppend.id sampleAppend.now with id := id }

theorem receipts_sampleAppend :
    (newReceiptLog.appendAll [sampleAppend]).receipts = [sampleReceipt sampleAppend.id] := by
  have hpersisted : sampleAppend.persisted = true := rfl
  simp [newReceiptLog, ReceiptLog.appendAll, ReceiptLog.append, hpersisted, sampleReceipt,
    newReceipt]

theorem receiptMaterial_sampleReceipt (id : List Char) :
    receiptMaterial (sampleReceipt id) = receiptMaterial (sampleReceipt []) := rfl

theorem lastHash_sampleReceipt (id : List Char) :
    ([sampleReceipt id].map Receipt.hash).getLast? =
      ((newReceiptLog.appendAll [sampleAppend]).receipts.map Receipt.hash).getLast? := by
  rw [receipts_sampleAppend]
  rfl

theorem collisionFree_sampleReceipt (id : List Char) :
    CollisionFree (((newReceiptLog.appendAll [sampleAppend]).receipts ++
      [sampleReceipt id]).map receiptMaterial) := by
  have hall : ∀ z ∈ ((newReceiptLog.appendAll [sampleAppend]).receipts ++
      [sampleReceipt id]).map receiptMaterial, z = receiptMaterial (sampleReceipt []) := by
    intro z hz
    rw [receipts_sampleAppend] at hz
    simpa [receiptMaterial_sampleReceipt] using hz
  intro x hx y hy _
  rw [hall x hx, hall y hy]

/-- `Verify` does not look at the id. -/
theorem verify_sampleReceipt (id : List Char) :
    { newReceiptLog.appendAll [sampleAppend] with receipts := [sampleReceipt id] }.verify =
      .ok () := by
  apply verifyFrom_ok.mpr
  have hhash : receiptHash (sampleReceipt id) = (sampleReceipt id).hash := by
    simp only [sampleReceipt, newReceipt, receiptHash, receiptMaterial]
  exact ⟨rfl, hhash, trivial⟩

end AgentMemory
