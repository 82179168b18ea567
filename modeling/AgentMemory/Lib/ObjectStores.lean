import Mathlib.Logic.Function.Basic
import Mathlib.Data.List.Forall2

/-!
# Stores of objects

A store of whole objects behind a network. A request that fails may be refused, or it may be
lost: then its write waits in limbo and takes effect at any later time, or never. `Simulates` says
that a store answers as a bucket with such faults would; `Simulates.coded` keeps it where the
objects are stored in a coded form, and `Simulates.replies` takes it to whole runs.
-/

namespace ObjectStores

variable {κ δ δ' ε σ ω ρ : Type}

/-- A request. -/
inductive Op (κ δ : Type) where
  | put (key : κ) (data : δ)
  | get (key : κ)
  | delete (key : κ)

/-- An answer. -/
inductive Reply (δ ε : Type) where
  | done
  | data (d : δ)
  | missing
  | failed (e : ε)

/-- What becomes of a request: a refused one has no effect, a lost one may have its effect
later. -/
inductive Fault (ε : Type) where
  | none
  | refused (e : ε)
  | lost (e : ε)

/-- A store: `ω` is what the outside decides about a request, and `settle n` lets the write
number `n` in limbo take effect. -/
structure Store (σ ω κ δ ε : Type) where
  perform : Op κ δ → ω → σ → Reply δ ε × σ
  settle : Nat → σ → σ

/-- The objects, and the writes in limbo; a write of `none` deletes. -/
structure Bucket (κ δ : Type) where
  objects : κ → Option δ
  limbo : List (κ × Option δ)

namespace Bucket

def empty : Bucket κ δ := ⟨fun _ => none, []⟩

/-- The write that a request asks for. -/
def writeOf : Op κ δ → Option (κ × Option δ)
  | .put key data => some (key, some data)
  | .get _ => none
  | .delete key => some (key, none)

/-- The answer to a request that reaches the bucket. -/
def answer (b : Bucket κ δ) : Op κ δ → Reply δ ε
  | .put _ _ => .done
  | .get key =>
    match b.objects key with
    | some d => .data d
    | none => .missing
  | .delete _ => .done

variable [DecidableEq κ]

def write (b : Bucket κ δ) (w : κ × Option δ) : Bucket κ δ :=
  { b with objects := Function.update b.objects w.1 w.2 }

@[simp] theorem objects_write_self (b : Bucket κ δ) (w : κ × Option δ) : (b.write w).objects w.1 = w.2 :=
  Function.update_self _ _ _

theorem objects_write_of_ne (b : Bucket κ δ) {w : κ × Option δ} {key : κ} (h : key ≠ w.1) :
    (b.write w).objects key = b.objects key :=
  Function.update_of_ne h _ _

def perform (op : Op κ δ) (fault : Fault ε) (b : Bucket κ δ) : Reply δ ε × Bucket κ δ :=
  match fault with
  | .none => (b.answer op, (writeOf op).elim b b.write)
  | .refused e => (.failed e, b)
  | .lost e => (.failed e, { b with limbo := b.limbo ++ (writeOf op).toList })

def settle (n : Nat) (b : Bucket κ δ) : Bucket κ δ :=
  match b.limbo[n]? with
  | none => b
  | some w => { b.write w with limbo := b.limbo.eraseIdx n }

/-- The bucket as a store. -/
def store : Store (Bucket κ δ) (Fault ε) κ δ ε := ⟨perform, settle⟩

end Bucket

/-! ## Runs -/

/-- A request with what the outside decides about it, or a write that takes effect late. -/
inductive Act (ω κ δ : Type) where
  | request (op : Op κ δ) (o : ω)
  | settle (n : Nat)

namespace Store

variable (S : Store σ ω κ δ ε)

def act (s : σ) : Act ω κ δ → σ
  | .request op o => (S.perform op o s).2
  | .settle n => S.settle n s

/-- The answers of a run. -/
def replies (s : σ) : List (Act ω κ δ) → List (Reply δ ε)
  | [] => []
  | .request op o :: acts => (S.perform op o s).1 :: replies (S.perform op o s).2 acts
  | .settle n :: acts => replies (S.settle n s) acts

/-- The store after a run. -/
def run (s : σ) (acts : List (Act ω κ δ)) : σ := acts.foldl S.act s

end Store

/-- The act of a bucket with the fault that the act of a store amounts to. -/
def Act.explain (fault : Op κ δ → ω → Fault ε) : Act ω κ δ → Act (Fault ε) κ δ
  | .request op o => .request op (fault op o)
  | .settle n => .settle n

/-- In related states the store answers as the bucket does. -/
structure Simulates [DecidableEq κ] (S : Store σ ω κ δ ε) (fault : Op κ δ → ω → Fault ε)
    (R : σ → Bucket κ δ → Prop) : Prop where
  perform : ∀ {s b}, R s b → ∀ op o, (S.perform op o s).1 = (b.perform op (fault op o)).1 ∧
    R (S.perform op o s).2 (b.perform op (fault op o)).2
  settle : ∀ {s b}, R s b → ∀ n, R (S.settle n s) (b.settle n)

section Refinement

variable [DecidableEq κ] {S : Store σ ω κ δ ε} {fault : Op κ δ → ω → Fault ε} {R : σ → Bucket κ δ → Prop}

theorem refines_store : Simulates (Bucket.store : Store (Bucket κ δ) (Fault ε) κ δ ε) (fun _ fault => fault) Eq where
  perform := by
    rintro s _ rfl op o
    exact ⟨rfl, rfl⟩
  settle := by
    rintro s _ rfl n
    rfl

/-- Each run of the store is the run of a bucket, with the same answers. -/
theorem Simulates.replies (h : Simulates S fault R) {s : σ} {b : Bucket κ δ} (hs : R s b)
    (acts : List (Act ω κ δ)) : S.replies s acts = Bucket.store.replies b (acts.map (Act.explain fault)) := by
  induction acts generalizing s b with
  | nil => rfl
  | cons act acts ih =>
    cases act with
    | request op o =>
      obtain ⟨hreply, hnext⟩ := h.perform hs op o
      exact congrArg₂ List.cons hreply (ih hnext)
    | settle n => exact ih (h.settle hs n)

theorem Simulates.run (h : Simulates S fault R) {s : σ} {b : Bucket κ δ} (hs : R s b) (acts : List (Act ω κ δ)) :
    R (S.run s acts) (Bucket.store.run b (acts.map (Act.explain fault))) := by
  induction acts generalizing s b with
  | nil => exact hs
  | cons act acts ih =>
    cases act with
    | request op o => exact ih (h.perform hs op o).2
    | settle n => exact ih (h.settle hs n)

end Refinement

/-! ## Coded objects -/

/-- How objects are coded: coding takes a choice of the outside's and may fail. -/
structure Code (ρ δ δ' ε : Type) where
  encode : ρ → δ → Except ε δ'
  decode : δ' → Except ε δ
  decode_encode : ∀ {r d d'}, encode r d = .ok d' → decode d' = .ok d

/-- What a request for coded objects answers for the objects. -/
def Code.reply (c : Code ρ δ δ' ε) : Reply δ' ε → Reply δ ε
  | .done => .done
  | .data d' =>
    match c.decode d' with
    | .ok d => .data d
    | .error e => .failed e
  | .missing => .missing
  | .failed e => .failed e

/-- The store of objects over a store of coded objects. -/
def Code.store (c : Code ρ δ δ' ε) (S : Store σ ω κ δ' ε) : Store σ (ρ × ω) κ δ ε where
  perform op o s :=
    match op with
    | .put key data =>
      match c.encode o.1 data with
      | .ok coded => ((c.reply (S.perform (.put key coded) o.2 s).1), (S.perform (.put key coded) o.2 s).2)
      | .error e => (.failed e, s)
    | .get key => (c.reply (S.perform (.get key) o.2 s).1, (S.perform (.get key) o.2 s).2)
    | .delete key => (c.reply (S.perform (.delete key) o.2 s).1, (S.perform (.delete key) o.2 s).2)
  settle := S.settle

/-- The one object codes the other. -/
def Code.Codes (c : Code ρ δ δ' ε) (d' : Option δ') (d : Option δ) : Prop :=
  Option.Rel (fun d' d => ∃ r, c.encode r d = .ok d') d' d

/-- A bucket of coded objects. -/
structure Code.Coded (c : Code ρ δ δ' ε) (b' : Bucket κ δ') (b : Bucket κ δ) : Prop where
  objects : ∀ key, c.Codes (b'.objects key) (b.objects key)
  limbo : List.Forall₂ (fun w' w => w'.1 = w.1 ∧ c.Codes w'.2 w.2) b'.limbo b.limbo

namespace Code

variable {c : Code ρ δ δ' ε} {b' : Bucket κ δ'} {b : Bucket κ δ}

theorem coded_empty : c.Coded (Bucket.empty : Bucket κ δ') Bucket.empty :=
  ⟨fun _ => .none, .nil⟩

theorem reply_get (h : c.Coded b' b) (key : κ) :
    c.reply (b'.answer (.get key) : Reply δ' ε) = b.answer (.get key) := by
  have hcodes := h.objects key
  unfold Bucket.answer
  simp only
  generalize b'.objects key = d' at hcodes
  generalize b.objects key = d at hcodes
  cases hcodes with
  | none => rfl
  | some hcoded =>
    obtain ⟨r, hencode⟩ := hcoded
    simp [reply, c.decode_encode hencode]

variable [DecidableEq κ]

theorem Coded.write (h : c.Coded b' b) {w' : κ × Option δ'} {w : κ × Option δ} (hkey : w'.1 = w.1)
    (hcodes : c.Codes w'.2 w.2) : c.Coded (b'.write w') (b.write w) := by
  refine ⟨fun key => ?_, h.limbo⟩
  by_cases hsame : key = w.1
  · subst hsame
    rw [Bucket.objects_write_self, ← hkey, Bucket.objects_write_self]
    exact hcodes
  · rw [Bucket.objects_write_of_ne _ hsame, Bucket.objects_write_of_ne _ (hkey ▸ hsame)]
    exact h.objects key

/-- A request that asks for coded writes leaves coded buckets, whatever becomes of it. -/
theorem Coded.perform (h : c.Coded b' b) {op' : Op κ δ'} {op : Op κ δ} (fault : Fault ε)
    (hwrite : Option.Rel (fun w' w => w'.1 = w.1 ∧ c.Codes w'.2 w.2) (Bucket.writeOf op') (Bucket.writeOf op)) :
    c.Coded (b'.perform op' fault).2 (b.perform op fault).2 := by
  unfold Bucket.perform
  generalize Bucket.writeOf op' = w' at hwrite
  generalize Bucket.writeOf op = w at hwrite
  cases fault with
  | none =>
    cases hwrite with
    | some hw => exact h.write hw.1 hw.2
    | none => exact h
  | refused e => exact h
  | lost e =>
    cases hwrite with
    | some hw => exact ⟨h.objects, List.rel_append h.limbo (.cons hw .nil)⟩
    | none => exact ⟨h.objects, List.rel_append h.limbo .nil⟩

theorem Coded.settle (h : c.Coded b' b) (n : Nat) : c.Coded (b'.settle n) (b.settle n) := by
  have hlimbo := h.limbo
  unfold Bucket.settle
  have hlength := hlimbo.length_eq
  cases hw' : b'.limbo[n]? with
  | none =>
    have hnone : b.limbo[n]? = none := by
      rw [List.getElem?_eq_none_iff] at hw' ⊢
      omega
    rw [hnone]
    exact h
  | some w' =>
    obtain ⟨hlt', hget'⟩ := List.getElem?_eq_some_iff.mp hw'
    have hlt : n < b.limbo.length := hlength ▸ hlt'
    have hw := hlimbo.get hlt' hlt
    rw [List.getElem?_eq_getElem hlt]
    simp only [List.get_eq_getElem, hget'] at hw
    refine ⟨(h.write hw.1 hw.2).objects, ?_⟩
    simp only [List.eraseIdx_eq_take_drop_succ]
    exact List.rel_append (List.forall₂_take n hlimbo) (List.forall₂_drop (n + 1) hlimbo)

end Code

/-- A request whose object cannot be coded is refused. -/
def Code.fault (c : Code ρ δ δ' ε) (fault : Op κ δ' → ω → Fault ε) : Op κ δ → ρ × ω → Fault ε
  | .put key data, o =>
    match c.encode o.1 data with
    | .ok coded => fault (.put key coded) o.2
    | .error e => .refused e
  | .get key, o => fault (.get key) o.2
  | .delete key, o => fault (.delete key) o.2

/-- A store of coded objects refines a bucket of the objects. -/
theorem Simulates.coded [DecidableEq κ] {S : Store σ ω κ δ' ε} {fault : Op κ δ' → ω → Fault ε}
    {R : σ → Bucket κ δ' → Prop} (h : Simulates S fault R) (c : Code ρ δ δ' ε) :
    Simulates (c.store S) (c.fault fault) fun s b => ∃ b', R s b' ∧ c.Coded b' b := by
  have hreply : ∀ {b' : Bucket κ δ'} {b : Bucket κ δ} {op' : Op κ δ'} {op : Op κ δ} (f : Fault ε),
      c.reply (b'.answer op') = b.answer op → c.reply (b'.perform op' f).1 = (b.perform op f).1 := by
    intro b' b op' op f hanswer
    cases f with
    | none => exact hanswer
    | refused e => rfl
    | lost e => rfl
  constructor
  · rintro s b ⟨b', hs, hcoded⟩ op o
    cases op with
    | put key data =>
      simp only [Code.store, Code.fault]
      cases hencode : c.encode o.1 data with
      | error e => exact ⟨rfl, b', hs, hcoded⟩
      | ok coded =>
        obtain ⟨hsame, hnext⟩ := h.perform hs (.put key coded) o.2
        simp only [hsame]
        exact ⟨hreply _ rfl, _, hnext, hcoded.perform _ (.some ⟨rfl, .some ⟨o.1, hencode⟩⟩)⟩
    | get key =>
      obtain ⟨hsame, hnext⟩ := h.perform hs (.get key) o.2
      simp only [Code.store, Code.fault, hsame]
      exact ⟨hreply _ (Code.reply_get hcoded key), _, hnext, hcoded.perform _ .none⟩
    | delete key =>
      obtain ⟨hsame, hnext⟩ := h.perform hs (.delete key) o.2
      simp only [Code.store, Code.fault, hsame]
      exact ⟨hreply _ rfl, _, hnext, hcoded.perform _ (.some ⟨rfl, .none⟩)⟩
  · rintro s b ⟨b', hs, hcoded⟩ n
    exact ⟨b'.settle n, h.settle hs n, hcoded.settle n⟩

end ObjectStores
