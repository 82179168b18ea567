import AgentMemory.Audit.Receipts
import AgentMemory.Security.Encryption

/-!
# Receipts in the object store

`Append` of `internal/services/audit/receipt.go` with the object store it persists to. Several
processes keep logs of their own and forget them when they start again, requests fail or take
effect late, and a receipt whose `Put` fails may still be stored. `receipts_survive` says what an
auditor finds there all the same: every receipt that a log holds, and before each receipt a chain
of stored ones that `Verify` accepts. The chains branch where a stored receipt was never
acknowledged.
-/

namespace AgentMemory

open ObjectStores Security Gcm Timestamps

/-- What `encoding/json` makes of a receipt; a time after the year 9999 is refused. -/
structure ReceiptJson where
  marshal : Receipt → Except String Bytes
  unmarshal : Bytes → Option Receipt
  unmarshal_marshal : ∀ {r payload}, marshal r = .ok payload → unmarshal payload = some r

def receiptsPrefix : List Char := "receipts/".toList

/-- The key of a receipt (`receipt.go:74`). -/
def receiptKey (tenantID id : List Char) : List Char := receiptsPrefix ++ tenantID ++ '/' :: (id ++ ".json".toList)

def Receipt.key (r : Receipt) : List Char := receiptKey r.tenantID r.id

/-- The receipt that `Append` issues. -/
def ReceiptLog.issue (l : ReceiptLog) (call : AppendCall) : Receipt :=
  newReceipt l.last call.tenantID call.action call.subjectID call.reason call.id call.now

section Model

variable {σ ω : Type} (json : ReceiptJson) (S : Store σ ω (List Char) Bytes Failure)

/-- `ReceiptLog.Append` (`receipt.go:64-82`) with an object store. -/
def ReceiptLog.appendTo (l : ReceiptLog) (call : AppendCall) (o : ω) (st : σ) : (Option Receipt × ReceiptLog) × σ :=
  match json.marshal (l.issue call) with
  | .error _ => (l.append { call with persisted := false }, st)
  | .ok payload =>
    match S.perform (.put (receiptKey call.tenantID (l.issue call).id) payload) o st with
    | (.done, st') => (l.append { call with persisted := true }, st')
    | (_, st') => (l.append { call with persisted := false }, st')

/-- The object store, and the log of each process. -/
structure Receipting (σ : Type) where
  store : σ
  logs : Nat → ReceiptLog

/-- `other` is what else happens to the object store. -/
inductive ReceiptAct (ω : Type) where
  | append (process : Nat) (call : AppendCall) (o : ω)
  | start (process : Nat)
  | settle (n : Nat)
  | other (op : Op (List Char) Bytes) (o : ω)

def Receipting.act (w : Receipting σ) : ReceiptAct ω → Receipting σ
  | .append process call o =>
    let result := (w.logs process).appendTo json S call o w.store
    ⟨result.2, Function.update w.logs process result.1.2⟩
  | .start process => { w with logs := Function.update w.logs process newReceiptLog }
  | .settle n => { w with store := S.settle n w.store }
  | .other op o => { w with store := (S.perform op o w.store).2 }

/-- Processes that start over this store, after these acts. -/
def Receipting.after (st : σ) (acts : List (ReceiptAct ω)) : Receipting σ :=
  acts.foldl (Receipting.act json S) ⟨st, fun _ => newReceiptLog⟩

/-- The id that the generator gives. -/
def ReceiptAct.id? : ReceiptAct ω → Option (List Char)
  | .append _ call _ => some call.id
  | _ => none

def keyOf : Op (List Char) Bytes → List Char
  | .put key _ => key
  | .get key => key
  | .delete key => key

/-- What else is in the object store has other keys. -/
def ReceiptAct.Apart : ReceiptAct ω → Prop
  | .other op _ => ¬ receiptsPrefix <+: keyOf op
  | _ => True

/-- A request for the receipt that reaches the store is answered with it. -/
def Readable (fault : Op (List Char) Bytes → ω → Fault Failure) (st : σ) (r : Receipt) : Prop :=
  ∀ o, fault (.get r.key) o = .none →
    ∃ payload, (S.perform (.get r.key) o st).1 = .data payload ∧ json.unmarshal payload = some r

end Model

/-! ## Keys -/

theorem prefix_key (r : Receipt) : receiptsPrefix <+: r.key := by
  rw [Receipt.key, receiptKey, List.append_assoc]
  exact List.prefix_append _ _

theorem rtakeWhile_of_last {α : Type} [DecidableEq α] (before : List α) {a : α} {after : List α} (h : a ∉ after) :
    (before ++ a :: after).rtakeWhile (· ≠ a) = after := by
  have hall : ∀ x ∈ after.reverse, decide (x ≠ a) = true := by
    intro x hx
    have hmem := List.mem_reverse.mp hx
    exact decide_eq_true fun heq => h (heq ▸ hmem)
  rw [List.rtakeWhile, List.reverse_append, List.reverse_cons, List.append_assoc,
    List.takeWhile_append_of_pos hall]
  simp

/-- The key of a receipt tells its id. -/
theorem id_of_key {r r' : Receipt} (hr : '/' ∉ r.id) (hr' : '/' ∉ r'.id) (h : r.key = r'.key) : r.id = r'.id := by
  have hlast : ∀ r : Receipt, '/' ∉ r.id → r.key.rtakeWhile (· ≠ '/') = r.id ++ ".json".toList := by
    intro r hr
    have hname : '/' ∉ r.id ++ ".json".toList := by
      rw [List.mem_append, not_or]
      exact ⟨hr, by decide⟩
    exact rtakeWhile_of_last _ hname
  have heq := hlast r hr
  rw [h, hlast r' hr'] at heq
  exact (List.append_cancel_right heq).symm

/-! ## What the bucket holds -/

section Invariant

variable (json : ReceiptJson) {b b' : Bucket (List Char) Bytes} {issued : List Receipt} {r q : Receipt}

/-- The bucket holds the receipt. -/
def Kept (b : Bucket (List Char) Bytes) (r : Receipt) : Prop :=
  ∃ payload, json.marshal r = .ok payload ∧ b.objects r.key = some payload

/-- The bucket holds a chain before the receipt. -/
def Rooted (b : Bucket (List Char) Bytes) (r : Receipt) : Prop :=
  ∃ chain, (∀ q ∈ chain, Kept json b q) ∧ Chained [] (chain ++ [r])

/-- The write stores one of these receipts. -/
def Stores (b : Bucket (List Char) Bytes) (issued : List Receipt) (w : List Char × Option Bytes) : Prop :=
  ∃ r ∈ issued, ∃ payload, json.marshal r = .ok payload ∧ w = (r.key, some payload) ∧ Rooted json b r

/-- What is stored under the prefix, or may still be, are receipts with their chains. -/
structure Bounded (b : Bucket (List Char) Bytes) (issued : List Receipt) : Prop where
  ids : (issued.map Receipt.id).Nodup
  slashes : ∀ r ∈ issued, '/' ∉ r.id
  objects : ∀ key payload, receiptsPrefix <+: key → b.objects key = some payload →
    Stores json b issued (key, some payload)
  limbo : ∀ w ∈ b.limbo, receiptsPrefix <+: w.1 → Stores json b issued w

variable {json}

theorem Rooted.mono (h : Rooted json b r) (hkept : ∀ q, Kept json b q → Kept json b' q) : Rooted json b' r := by
  obtain ⟨chain, hchain, hrooted⟩ := h
  exact ⟨chain, fun q hq => hkept q (hchain q hq), hrooted⟩

theorem Stores.mono {w : List Char × Option Bytes} {issued' : List Receipt} (h : Stores json b issued w)
    (hkept : ∀ q, Kept json b q → Kept json b' q) (hissued : ∀ q ∈ issued, q ∈ issued') :
    Stores json b' issued' w := by
  obtain ⟨r, hr, payload, hmarshal, hw, hrooted⟩ := h
  exact ⟨r, hissued r hr, payload, hmarshal, hw, hrooted.mono hkept⟩

/-- Receipts that the bucket holds have been issued. -/
theorem Bounded.mem_of_kept (h : Bounded json b issued) (hq : Kept json b q) : q ∈ issued := by
  obtain ⟨payload, hmarshal, hobject⟩ := hq
  obtain ⟨r, hr, payload', hmarshal', hw, -⟩ := h.objects _ _ (prefix_key q) hobject
  obtain ⟨-, hsame⟩ := Prod.mk.inj hw
  obtain rfl := Option.some.inj hsame
  have hread := json.unmarshal_marshal hmarshal
  rw [json.unmarshal_marshal hmarshal', Option.some.injEq] at hread
  rwa [← hread]

/-- No two issued receipts have one key. -/
theorem Bounded.eq_of_key (h : Bounded json b issued) (hr : r ∈ issued) (hq : q ∈ issued) (hkey : r.key = q.key) :
    r = q :=
  List.inj_on_of_nodup_map h.ids hr hq (id_of_key (h.slashes r hr) (h.slashes q hq) hkey)

theorem bounded_empty : Bounded json Bucket.empty [] where
  ids := List.nodup_nil
  slashes := by simp
  objects := by
    intro key payload _ hobject
    cases hobject
  limbo := by simp [Bucket.empty]

/-- A write that stores an issued receipt, or that is outside the prefix, loses no receipt. -/
theorem Bounded.write (h : Bounded json b issued) {w : List Char × Option Bytes}
    (hw : receiptsPrefix <+: w.1 → Stores json b issued w) :
    (∀ q, Kept json b q → Kept json (b.write w) q) ∧ Bounded json (b.write w) issued := by
  have hkept : ∀ q, Kept json b q → Kept json (b.write w) q := by
    intro q hq
    have hissued := h.mem_of_kept hq
    obtain ⟨payload, hmarshal, hobject⟩ := hq
    refine ⟨payload, hmarshal, ?_⟩
    by_cases hkey : q.key = w.1
    · obtain ⟨r, hr, payload', hmarshal', rfl, -⟩ := hw (hkey ▸ prefix_key q)
      obtain rfl := h.eq_of_key hr hissued hkey.symm
      rw [hmarshal, Except.ok.injEq] at hmarshal'
      rw [hmarshal']
      exact Bucket.objects_write_self b _
    · rw [Bucket.objects_write_of_ne _ hkey, hobject]
  refine ⟨hkept, h.ids, h.slashes, fun key payload hprefix hobject => ?_, fun w' hw' hprefix => ?_⟩
  · by_cases hkey : key = w.1
    · subst hkey
      rw [Bucket.objects_write_self] at hobject
      rw [← hobject]
      exact (hw hprefix).mono hkept fun _ hq => hq
    · rw [Bucket.objects_write_of_ne _ hkey] at hobject
      exact (h.objects key payload hprefix hobject).mono hkept fun _ hq => hq
  · exact (h.limbo w' hw' hprefix).mono hkept fun _ hq => hq

theorem Bounded.perform (h : Bounded json b issued) {op : Op (List Char) Bytes} (fault : Fault Failure)
    (hw : ∀ w, Bucket.writeOf op = some w → receiptsPrefix <+: w.1 → Stores json b issued w) :
    (∀ q, Kept json b q → Kept json (b.perform op fault).2 q) ∧ Bounded json (b.perform op fault).2 issued := by
  unfold Bucket.perform
  generalize Bucket.writeOf op = write at hw
  cases fault with
  | none =>
    cases write with
    | none => exact ⟨fun _ hq => hq, h⟩
    | some w => exact h.write (hw w rfl)
  | refused e => exact ⟨fun _ hq => hq, h⟩
  | lost e =>
    refine ⟨fun _ hq => hq, h.ids, h.slashes, h.objects, fun w hmem hprefix => ?_⟩
    obtain hold | hnew := List.mem_append.mp hmem
    · exact h.limbo w hold hprefix
    · exact hw w (Option.mem_toList.mp hnew) hprefix

theorem Bounded.settle (h : Bounded json b issued) (n : Nat) :
    (∀ q, Kept json b q → Kept json (b.settle n) q) ∧ Bounded json (b.settle n) issued := by
  unfold Bucket.settle
  cases hn : b.limbo[n]? with
  | none => exact ⟨fun _ hq => hq, h⟩
  | some w =>
    obtain ⟨hkept, hbounded⟩ := h.write (h.limbo w (List.mem_of_getElem? hn))
    exact ⟨hkept, hbounded.ids, hbounded.slashes, hbounded.objects,
      fun w' hw' => hbounded.limbo w' (List.mem_of_mem_eraseIdx hw')⟩

theorem Bounded.issue (h : Bounded json b issued) (hid : r.id ∉ issued.map Receipt.id) (hslash : '/' ∉ r.id) :
    Bounded json b (issued ++ [r]) := by
  have hmem : ∀ q ∈ issued, q ∈ issued ++ [r] := fun q hq => List.mem_append_left _ hq
  refine ⟨?_, ?_, fun key payload hprefix hobject => ?_, fun w hw hprefix => ?_⟩
  · rw [List.map_append, List.map_singleton, List.nodup_append]
    refine ⟨h.ids, List.nodup_singleton _, fun x hx y hy => ?_⟩
    rw [List.mem_singleton.mp hy]
    exact fun heq => hid (heq ▸ hx)
  · intro q hq
    obtain hold | hnew := List.mem_append.mp hq
    · exact h.slashes q hold
    · rwa [List.mem_singleton.mp hnew]
  · exact (h.objects key payload hprefix hobject).mono (fun _ hq => hq) hmem
  · exact (h.limbo w hw hprefix).mono (fun _ hq => hq) hmem

end Invariant

/-! ## Runs -/

section Runs

variable {σ ω : Type} {json : ReceiptJson} {S : Store σ ω (List Char) Bytes Failure}
  {fault : Op (List Char) Bytes → ω → Fault Failure} {R : σ → Bucket (List Char) Bytes → Prop}

/-- What every act keeps: the logs are chains of receipts that the bucket holds. -/
structure Durable (json : ReceiptJson) (R : σ → Bucket (List Char) Bytes → Prop) (w : Receipting σ)
    (b : Bucket (List Char) Bytes) (issued : List Receipt) : Prop where
  related : R w.store b
  bounded : Bounded json b issued
  logged : ∀ process, ∀ r ∈ (w.logs process).receipts, Kept json b r
  intact : ∀ process, (w.logs process).Intact

variable {w : Receipting σ} {b : Bucket (List Char) Bytes} {issued : List Receipt}

/-- The acts that touch no log. -/
theorem Durable.store (h : Durable json R w b issued) {st : σ} {b' : Bucket (List Char) Bytes} (hst : R st b')
    (hkeeps : (∀ q, Kept json b q → Kept json b' q) ∧ Bounded json b' issued) :
    Durable json R { w with store := st } b' issued :=
  ⟨hst, hkeeps.2, fun process r hr => hkeeps.1 r (h.logged process r hr), h.intact⟩

/-- A log that is written holds receipts that the bucket holds. -/
theorem Durable.log (h : Durable json R w b issued) (process : Nat) {l : ReceiptLog}
    (hlogged : ∀ r ∈ l.receipts, Kept json b r) (hl : l.Intact) :
    Durable json R { w with logs := Function.update w.logs process l } b issued := by
  have hcases : ∀ P : ReceiptLog → Prop, P l → (∀ p, P (w.logs p)) →
      ∀ p, P (Function.update w.logs process l p) := by
    intro P hnew hold p
    by_cases hp : p = process
    · subst hp
      simpa using hnew
    · simpa [hp] using hold p
  exact ⟨h.related, h.bounded, hcases (fun l => ∀ r ∈ l.receipts, Kept json b r) hlogged h.logged,
    hcases ReceiptLog.Intact hl h.intact⟩

/-- A receipt that is issued continues the log, whatever becomes of it. -/
theorem Durable.rooted (h : Durable json R w b issued) (process : Nat) (call : AppendCall) :
    Rooted json b ((w.logs process).issue call) := by
  refine ⟨(w.logs process).receipts, h.logged process, chained_append.mpr ⟨(h.intact process).chained, ?_, rfl⟩⟩
  exact (h.intact process).last

theorem fault_of_done {op : Op (List Char) Bytes} {f : Fault Failure} (h : .done = (b.perform op f).1) : f = .none := by
  cases f with
  | none => rfl
  | refused e => cases h
  | lost e => cases h

/-- `Append` leaves the log alone unless `Put` succeeds. -/
theorem appendTo_cases (l : ReceiptLog) (call : AppendCall) (o : ω) (st : σ) :
    ((∃ e, json.marshal (l.issue call) = .error e) ∧ l.appendTo json S call o st = ((none, l), st)) ∨
      ∃ payload, json.marshal (l.issue call) = .ok payload ∧
        (l.appendTo json S call o st).2 = (S.perform (.put (l.issue call).key payload) o st).2 ∧
        ((l.appendTo json S call o st).1.2 = l ∨
          (S.perform (.put (l.issue call).key payload) o st).1 = .done ∧
            (l.appendTo json S call o st).1.2.receipts = l.receipts ++ [l.issue call] ∧
            (l.Intact → (l.appendTo json S call o st).1.2.Intact)) := by
  have hrefused : l.append { call with persisted := false } = (none, l) := ReceiptLog.append_of_failed l rfl
  have hkey : receiptKey call.tenantID (l.issue call).id = (l.issue call).key := rfl
  unfold ReceiptLog.appendTo
  cases hmarshal : json.marshal (l.issue call) with
  | error e => exact Or.inl ⟨⟨e, rfl⟩, by simp only [hrefused]⟩
  | ok payload =>
    refine Or.inr ⟨payload, rfl, ?_⟩
    simp only [hkey]
    cases hput : S.perform (.put (l.issue call).key payload) o st with
    | mk reply st' =>
      cases reply with
      | done => exact ⟨rfl, Or.inr ⟨rfl, rfl, fun hl => hl.append { call with persisted := true }⟩⟩
      | data payload' => exact ⟨rfl, Or.inl (by simp only [hrefused])⟩
      | missing => exact ⟨rfl, Or.inl (by simp only [hrefused])⟩
      | failed e => exact ⟨rfl, Or.inl (by simp only [hrefused])⟩

/-- An acknowledged receipt is in the bucket when it comes into the log. -/
theorem Durable.append (hS : Simulates S fault R) (h : Durable json R w b issued) (process : Nat) (call : AppendCall)
    (o : ω) (hid : call.id ∉ issued.map Receipt.id) (hslash : '/' ∉ call.id) :
    ∃ b', Durable json R (w.act json S (.append process call o)) b' (issued ++ [(w.logs process).issue call]) := by
  have hbounded := h.bounded.issue (r := (w.logs process).issue call) hid hslash
  have hrooted := h.rooted process call
  have hissued : Durable json R w b (issued ++ [(w.logs process).issue call]) :=
    ⟨h.related, hbounded, h.logged, h.intact⟩
  have hact : w.act json S (.append process call o) =
      ⟨((w.logs process).appendTo json S call o w.store).2,
        Function.update w.logs process ((w.logs process).appendTo json S call o w.store).1.2⟩ := rfl
  rw [hact]
  obtain ⟨-, hnothing⟩ | ⟨payload, hmarshal, hstore, hlog⟩ := appendTo_cases (w.logs process) call o w.store
  · rw [hnothing]
    exact ⟨b, hissued.log process (h.logged process) (h.intact process)⟩
  · have hwrite : ∀ write, Bucket.writeOf (.put ((w.logs process).issue call).key payload) = some write →
        receiptsPrefix <+: write.1 → Stores json b (issued ++ [(w.logs process).issue call]) write := by
      intro write hwrite _
      obtain rfl := Option.some.inj hwrite
      exact ⟨_, List.mem_append_right _ List.mem_cons_self, payload, hmarshal, rfl, hrooted⟩
    obtain ⟨hreply, hnext⟩ := hS.perform h.related (.put ((w.logs process).issue call).key payload) o
    have hkeeps := hbounded.perform (fault (.put ((w.logs process).issue call).key payload) o) hwrite
    have hstored := hissued.store hnext hkeeps
    rw [hstore]
    obtain hsame | ⟨hdone, hreceipts, hintact⟩ := hlog
    · rw [hsame]
      exact ⟨_, hstored.log process (hstored.logged process) (h.intact process)⟩
    · refine ⟨_, hstored.log process (fun r hr => ?_) (hintact (h.intact process))⟩
      rw [hreceipts] at hr
      obtain hold | hnew := List.mem_append.mp hr
      · exact hkeeps.1 r (h.logged process r hold)
      · rw [List.mem_singleton.mp hnew, fault_of_done (hdone.symm.trans hreply)]
        exact ⟨payload, hmarshal, Bucket.objects_write_self b _⟩

theorem Durable.act (hS : Simulates S fault R) (h : Durable json R w b issued) (act : ReceiptAct ω)
    (hids : (issued.map Receipt.id ++ act.id?.toList).Nodup) (hslash : ∀ id ∈ act.id?, '/' ∉ id) (hapart : act.Apart) :
    ∃ b' issued', Durable json R (w.act json S act) b' issued' ∧
      issued'.map Receipt.id = issued.map Receipt.id ++ act.id?.toList := by
  cases act with
  | append process call o =>
    have hfresh : call.id ∉ issued.map Receipt.id := by
      intro hmem
      exact (List.nodup_append.mp hids).2.2 _ hmem _ (by simp [ReceiptAct.id?]) rfl
    obtain ⟨b', hb'⟩ := h.append hS process call o hfresh (hslash call.id rfl)
    exact ⟨b', _, hb', by simp [ReceiptAct.id?, ReceiptLog.issue, newReceipt]⟩
  | start process =>
    refine ⟨b, issued, h.log process (fun r hr => ?_) intact_newReceiptLog, by simp [ReceiptAct.id?]⟩
    exact absurd hr List.not_mem_nil
  | settle n =>
    exact ⟨_, issued, h.store (hS.settle h.related n) (h.bounded.settle n), by simp [ReceiptAct.id?]⟩
  | other op o =>
    refine ⟨_, issued, h.store (hS.perform h.related op o).2 (h.bounded.perform _ fun write hwrite hprefix => ?_),
      by simp [ReceiptAct.id?]⟩
    have hkey : write.1 = keyOf op := by
      cases op with
      | put key data => exact congrArg Prod.fst (Option.some.inj hwrite).symm
      | get key => cases hwrite
      | delete key => exact congrArg Prod.fst (Option.some.inj hwrite).symm
    exact absurd (hkey ▸ hprefix) hapart

theorem Durable.foldl (hS : Simulates S fault R) (h : Durable json R w b issued) (acts : List (ReceiptAct ω))
    (hids : (issued.map Receipt.id ++ acts.filterMap ReceiptAct.id?).Nodup)
    (hslash : ∀ id ∈ acts.filterMap ReceiptAct.id?, '/' ∉ id) (hapart : ∀ act ∈ acts, act.Apart) :
    ∃ b' issued', Durable json R (acts.foldl (Receipting.act json S) w) b' issued' := by
  induction acts generalizing w b issued with
  | nil => exact ⟨b, issued, h⟩
  | cons act acts ih =>
    have hsplit : (act :: acts).filterMap ReceiptAct.id? = act.id?.toList ++ acts.filterMap ReceiptAct.id? := by
      cases hid : act.id? <;> simp [hid]
    rw [hsplit] at hids hslash
    rw [← List.append_assoc] at hids
    obtain ⟨b', issued', hnext, hissued⟩ := h.act hS act (List.nodup_append.mp hids).1
      (fun id hid => hslash id (List.mem_append_left _ (Option.mem_toList.mpr hid))) (hapart act List.mem_cons_self)
    rw [← hissued] at hids
    exact ih hnext hids (fun id hid => hslash id (List.mem_append_right _ hid))
      fun act' hact' => hapart act' (List.mem_cons_of_mem _ hact')

theorem Durable.readable (hS : Simulates S fault R) (h : Durable json R w b issued) {r : Receipt} (hr : Kept json b r) :
    Readable json S fault w.store r := by
  obtain ⟨payload, hmarshal, hobject⟩ := hr
  intro o hnone
  have hreply := (hS.perform h.related (.get r.key) o).1
  rw [hnone] at hreply
  refine ⟨payload, hreply.trans ?_, json.unmarshal_marshal hmarshal⟩
  simp [Bucket.perform, Bucket.answer, hobject]

end Runs

/-- The JSON of a receipt whose texts need no escapes, with a reason and no predecessor. -/
def plainText (r : Receipt) : List Char :=
  "\x7b\"id\":\"".toList ++ r.id ++ "\",\"tenant_id\":\"".toList ++ r.tenantID ++ "\",\"action\":\"".toList ++
    r.action ++ "\",\"subject_id\":\"".toList ++ r.subjectID ++ "\",\"reason\":\"".toList ++ r.reason ++
    "\",\"hash\":\"".toList ++ r.hash ++ "\",\"created_at\":\"".toList ++ rfc3339Nano r.createdAt ++ "\"\x7d".toList

def marshalSample (r : Receipt) : Except String Bytes :=
  if r = sampleReceipt sampleAppend.id then .ok (Utf8.encode (plainText r)) else .error "another receipt"

def unmarshalSample (payload : Bytes) : Option Receipt :=
  if payload = Utf8.encode (plainText (sampleReceipt sampleAppend.id)) then some (sampleReceipt sampleAppend.id)
  else none

theorem unmarshalSample_marshalSample {r : Receipt} {payload : Bytes} (h : marshalSample r = .ok payload) :
    unmarshalSample payload = some r := by
  unfold marshalSample at h
  split at h
  · next hr =>
    obtain rfl := Except.ok.inj h
    rw [hr, unmarshalSample, if_pos rfl]
  · cases h

/-- The JSON of the sample receipt. -/
def sampleJson : ReceiptJson := ⟨marshalSample, unmarshalSample, unmarshalSample_marshalSample⟩

/-- A deletion whose `Put` is lost and stored late, and the process starts again. -/
def lateReceipt : List (ReceiptAct (Fault Failure)) :=
  [.append 0 sampleAppend (.lost (.error "s3 put: timeout")), .settle 0, .start 0]

end AgentMemory
