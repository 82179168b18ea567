import AgentMemory.Engine.Capture

/-!
# What a raising capture leaves

A capture writes its items, the lessons of its trace and its relations one after the other,
and checks each of them just before it writes it. `raising_capture_iff` says which captures
that raise leave every store as it was.
-/

namespace AgentMemory

open Dicts PyText JsonText Tables Commits

/-- What a request tries to write before its relations. -/
inductive Attempt (F : Type) where
  /-- An item, or the trace, that does not pass the checks. -/
  | invalid
  | memory (now : F) (m : MemoryEnvelope F)
  | proposal (id : Text)

section Model

variable {F : Type} (rt : FacadeRuntime F) (options : StoreOptions)
  (extract : MemoryEnvelope F → List (ExtractedFact F))
  (lessons : List (Text × Json F) → Option (List (MemoryEnvelope F)))

/-- The store takes the envelope: it reads back, its modalities are externalised and the
numeric columns take its fields. -/
def storable (py : Python F) (now : F) (m : MemoryEnvelope F) : Bool :=
  (MemoryEnvelope.fromDict py now m.toDict).any fun original =>
    (original.externalize py options now).any fun stored => stored.1.fitsColumns py

/-- The blobs that are written for the envelope even if the store does not take it. -/
def looseBlobs (py : Python F) (now : F) (m : MemoryEnvelope F) : List Blob :=
  match MemoryEnvelope.fromDict py now m.toDict with
  | some original => writtenBlobs options py original.modalities
  | none => []

/-- The attempt raises and leaves everything as it is: it is invalid, the store does not take
the envelope and has its blobs already, or the id of the proposal is taken. -/
def Attempt.RefusedBy (s : Facade F) : Attempt F → Prop
  | .invalid => True
  | .memory now m => storable options rt.toPython now m = false ∧
      ∀ b ∈ looseBlobs options rt.toPython now m, s.vault.store.blobs.find? b.sha ≠ none
  | .proposal id => s.proposals.find? id ≠ none

namespace CaptureRequest

variable (req : CaptureRequest F)

/-- What an item tries to write, if anything. -/
def attempt (now : F) (newId : Text) (item : CaptureItem F) : Option (Attempt F) :=
  match item.envelope rt req now with
  | none => some .invalid
  | some none => none
  | some (some m) => some (if req.propose = true then .proposal newId else .memory now m)

/-- What the items try to write, in order. -/
def itemAttempts (now : Nat → F) (newId : Nat → Text) : List (Attempt F) :=
  req.items.zipIdx.filterMap fun (item, i) => req.attempt rt (now i) (newId i) item

/-- What the tool trace tries to write. -/
def traceAttempts (now : F) : List (Attempt F) :=
  let trace := (field req.args "tool_trace").getD .null
  if truthy rt trace = true then
    match (dictOf rt trace).bind fun d =>
        lessons (if valueAt "scope".toList d = none then insert "scope".toList (.obj req.scope) d else d) with
    | none => [.invalid]
    | some memories => memories.map (.memory now)
  else []

/-- The first thing the request tries to write is refused whole; or it tries to write no
memory and no proposal, and its relations leave the graphs as they are. -/
def Harmless (now : Nat → F) (newId : Nat → Text) (s : Facade F) : Prop :=
  match req.itemAttempts rt now newId ++ req.traceAttempts rt lessons (now req.items.length) with
  | attempt :: _ => attempt.RefusedBy rt options s
  | [] => (after (Facade.captureRelations rt req now) s).vault.graphs = s.vault.graphs

end CaptureRequest

end Model

/-! ## The store -/

section Facts

variable {F : Type} {rt : FacadeRuntime F} {options : StoreOptions}
  {extract : MemoryEnvelope F → List (ExtractedFact F)}
  {lessons : List (Text × Json F) → Option (List (MemoryEnvelope F))}

namespace TemporalStore

variable {py : Python F} {now : F} {m : MemoryEnvelope F}

theorem isSome_remember (appendLog : Bool) (s : TemporalStore F) :
    (TemporalStore.remember py options now appendLog m s).isSome = storable options py now m := by
  unfold TemporalStore.remember storable
  cases MemoryEnvelope.fromDict py now m.toDict with
  | none => rfl
  | some original =>
    simp only [Option.bind_eq_bind, Option.bind_some, Option.any_some]
    cases original.externalize py options now with
    | none => rfl
    | some stored =>
      simp only [Option.bind_some, Option.any_some]
      split <;> simp_all

/-- What an envelope that the store does not take leaves. -/
theorem after_rememberCall_of_not_storable {appendLog : Bool} (h : storable options py now m = false)
    (s : TemporalStore F) :
    returns (TemporalStore.rememberCall options py now appendLog m) s = false ∧
      after (TemporalStore.rememberCall options py now appendLog m) s =
        { s with blobs := (looseBlobs options py now m).foldl Table.putNew s.blobs } := by
  have hnone : TemporalStore.remember py options now appendLog m s = none := by
    rw [← Option.not_isSome_iff_eq_none, isSome_remember, h]
    decide
  unfold returns after TemporalStore.rememberCall looseBlobs
  rw [hnone]
  cases MemoryEnvelope.fromDict py now m.toDict <;> exact ⟨rfl, rfl⟩

/-- A new call of the store, by what it appends to the log and adds to the blobs. -/
theorem after_rememberCall_grows (s : TemporalStore F) : ∃ line blobs,
    (after (TemporalStore.rememberCall options py now true m) s).log = s.log ++ line ∧
      (after (TemporalStore.rememberCall options py now true m) s).blobs = List.foldl Table.putNew s.blobs blobs ∧
        (storable options py now m = true → line ≠ []) := by
  by_cases hstorable : storable options py now m = true
  · rw [← isSome_remember true s, Option.isSome_iff_exists] at hstorable
    obtain ⟨s', hs'⟩ := hstorable
    have hafter : after (TemporalStore.rememberCall options py now true m) s = s' := by
      unfold after TemporalStore.rememberCall
      rw [hs']
    rw [hafter]
    simp only [TemporalStore.remember, Option.bind_eq_bind, Option.bind_eq_some_iff] at hs'
    obtain ⟨original, -, stored, -, hs'⟩ := hs'
    split at hs'
    · obtain rfl := Option.some.inj hs'
      exact ⟨_, _, rfl, rfl, fun _ => by simp⟩
    · cases hs'
  · rw [Bool.not_eq_true] at hstorable
    obtain ⟨-, hafter⟩ := @after_rememberCall_of_not_storable _ options py now m true hstorable s
    exact ⟨[], _, by rw [hafter, List.append_nil], by rw [hafter], fun h => by simp [hstorable] at h⟩

end TemporalStore

/-! ## What no part of a capture takes back -/

/-- A relation changes the graphs and nothing else. -/
theorem Facade.preserves_captureRelation {J : VaultState F → Prop}
    (hgraphs : ∀ graphs v, J v → J { v with graphs := graphs }) (time : F) (ids : List Text)
    (item : Json F) : Preserves J (Facade.captureRelation rt time ids item) := by
  unfold Facade.captureRelation
  apply Preserves.callIf
  split
  · apply preserves_check
  · apply Preserves.bind
    · apply preserves_on
      exact hgraphs
    · apply preserves_reading
      intro v
      split
      · apply preserves_on
        exact hgraphs
      · apply preserves_check

/-- What holds of a vault whatever a capture does to it after. -/
structure LastingVault (rt : FacadeRuntime F) (options : StoreOptions) (J : VaultState F → Prop) :
    Prop where
  graphs : ∀ graphs v, J v → J { v with graphs := graphs }
  boxes : ∀ boxMemories v, J v → J { v with boxMemories := boxMemories }
  store : ∀ now m v, J v →
    J { v with store := after (TemporalStore.rememberCall options rt.toPython now true m) v.store }

namespace LastingVault

variable {J : VaultState F → Prop} {time : F} {m : MemoryEnvelope F} {v : VaultState F}

/-- A log that is longer. -/
theorem longer (n : Nat) : LastingVault rt options fun v => n < v.store.log.length where
  graphs _ _ h := h
  boxes _ _ h := h
  store now m v h := by
    obtain ⟨line, -, hlog, -⟩ := @TemporalStore.after_rememberCall_grows _ options rt.toPython now m v.store
    simp only [hlog, List.length_append]
    omega

/-- A blob that is there. -/
theorem blob (sha : Text) : LastingVault rt options fun v => v.store.blobs.find? sha ≠ none where
  graphs _ _ h := h
  boxes _ _ h := h
  store now m v h := by
    obtain ⟨-, blobs, -, hblobs, -⟩ :=
      @TemporalStore.after_rememberCall_grows _ options rt.toPython now m v.store
    simp only [hblobs, Table.find?_foldl_putNew]
    simp [Option.or_eq_none_iff, h]

/-- What holds once the store has the envelope holds after the call. -/
theorem after_remember (h : LastingVault rt options J)
    (hv : J { v with store := after (TemporalStore.rememberCall options rt.toPython time true m) v.store }) :
    J (after (VaultState.remember rt.toGraphRuntime options extract time true m none false) v) := by
  rw [VaultState.remember]
  apply Preserves.after_bind
  · apply VaultState.preserves_later
    · exact h.graphs
    · exact h.boxes
    · intro hextract
      cases hextract
  · rw [VaultState.onStore, after_on]
    exact hv

theorem preserves_remember (h : LastingVault rt options J) (time : F) (m : MemoryEnvelope F) :
    Preserves J (VaultState.remember rt.toGraphRuntime options extract time true m none false) :=
  fun v hv => h.after_remember (h.store time m v hv)

/-- What holds once the store has the envelope holds after the box has it. -/
theorem after_rememberIn (h : LastingVault rt options J) (boxId : Json F)
    (hv : J { v with store := after (TemporalStore.rememberCall options rt.toPython time true m) v.store }) :
    J (after (Facade.rememberIn rt options extract time boxId m) v) := by
  rw [Facade.rememberIn]
  apply Preserves.after_bind
  · split
    · apply preserves_forM
      intro boxId _
      unfold VaultState.putInBox VaultState.onBoxes
      apply preserves_on
      exact h.boxes
    · apply preserves_check
  · exact h.after_remember hv

theorem preserves_rememberIn (h : LastingVault rt options J) (time : F) (boxId : Json F)
    (m : MemoryEnvelope F) : Preserves J (Facade.rememberIn rt options extract time boxId m) :=
  fun v hv => h.after_rememberIn boxId (h.store time m v hv)

theorem preserves_captureRelation (h : LastingVault rt options J) (time : F) (ids : List Text)
    (item : Json F) : Preserves J (Facade.captureRelation rt time ids item) :=
  Facade.preserves_captureRelation h.graphs time ids item

end LastingVault

/-- What holds whatever a part of a capture does after it. -/
structure Lasting (rt : FacadeRuntime F) (options : StoreOptions) (I : Facade F → Prop) : Prop where
  tasks : ∀ tasks (t : Facade F), I t → I { t with tasks := tasks }
  proposals : ∀ (row : ProposalRow F) (t : Facade F), I t → t.proposals.find? row.id = none →
    I { t with proposals := t.proposals.upsert row }
  vault : ∀ t : Facade F, LastingVault rt options fun v => I { t with vault := v }

namespace Lasting

variable {I : Facade F → Prop} {req : CaptureRequest F} {now : Nat → F} {newId : Nat → Text}

theorem of_vault {J : VaultState F → Prop} (h : LastingVault rt options J) :
    Lasting rt options fun t => J t.vault :=
  ⟨fun _ _ ht => ht, fun _ _ ht _ => ht, fun _ => h⟩

/-- A proposal that is there. -/
theorem proposal (id : Text) : Lasting rt options fun t => t.proposals.find? id ≠ none where
  tasks _ _ h := h
  proposals row t h _ := by
    simp only [Table.find?_upsert]
    split
    · simp
    · exact h
  vault _ := ⟨fun _ _ h => h, fun _ _ h => h, fun _ _ _ h => h⟩

/-- On the vault of a facade. -/
theorem preserves_onVault {c : Call (VaultState F) Unit}
    (h : ∀ t : Facade F, Preserves (fun v => I { t with vault := v }) c) :
    Preserves I (Facade.onVault c) := by
  intro t ht
  rw [Facade.onVault, after_on]
  exact h t t.vault ht

theorem preserves_propose (h : Lasting rt options I) (time : F) (id : Text) (data : Json F)
    (m : MemoryEnvelope F) : Preserves I (Facade.onProposals (Facade.propose rt time id data m)) := by
  intro t ht
  rw [Facade.onProposals, after_on, Facade.propose, after_commit]
  split
  · exact ht
  · next hfree =>
    rw [Option.not_isSome_iff_eq_none] at hfree
    exact h.proposals _ t ht hfree

theorem preserves_captureItem (h : Lasting rt options I) (time : F) (id : Text) (item : CaptureItem F) :
    Preserves I (Facade.captureItem rt options extract req time id item) := by
  unfold Facade.captureItem
  split
  · apply preserves_check
  · exact preserves_pure
  · split
    · apply h.preserves_propose
    · apply preserves_onVault
      exact fun t => (h.vault t).preserves_rememberIn _ _ _

theorem preserves_captureTrace (h : Lasting rt options I) (time : F) :
    Preserves I (Facade.captureTrace rt options extract lessons req time) := by
  unfold Facade.captureTrace
  apply Preserves.callIf
  split
  · apply preserves_check
  · apply preserves_forM
    intro m _
    apply preserves_onVault
    exact fun t => (h.vault t).preserves_remember _ _

theorem preserves_captureRelations (h : Lasting rt options I) :
    Preserves I (Facade.captureRelations rt req now) := by
  apply preserves_forM
  intro item _
  apply preserves_onVault
  exact fun t => (h.vault t).preserves_captureRelation _ _ _

theorem preserves_captureTask (h : Lasting rt options I) : Preserves I (Facade.captureTask rt req now) := by
  apply preserves_reading
  intro t
  split
  · apply preserves_check
  · exact preserves_pure
  · apply preserves_on
    exact h.tasks

/-- What the items and the trace have left is there when the request ends. -/
theorem preserves_rest (h : Lasting rt options I) : Preserves I (do
    Facade.captureRelations rt req now
    Facade.captureTask rt req now
    Facade.captureReport rt req now) := by
  apply h.preserves_captureRelations.bind
  apply h.preserves_captureTask.bind
  apply preserves_reading
  exact fun t => preserves_check _

end Lasting

/-! ## The first attempt -/

/-- The call makes the attempt: it raises and leaves the state where the attempt is refused,
and leaves a lasting mark where it is not. -/
structure Makes (rt : FacadeRuntime F) (options : StoreOptions) (s : Facade F) (attempt : Attempt F)
    (c : Call (Facade F) Unit) : Prop where
  refused : attempt.RefusedBy rt options s → returns c s = false ∧ after c s = s
  marked : ¬ attempt.RefusedBy rt options s → ∃ I, Lasting rt options I ∧ ¬ I s ∧ I (after c s)

theorem makes_invalid (s : Facade F) : Makes rt options s .invalid (check false) :=
  ⟨fun _ => ⟨returns_check false s, after_check false s⟩, fun h => absurd trivial h⟩

theorem remember_of_refused {s : Facade F} {time : F} {m : MemoryEnvelope F}
    (h : (Attempt.memory time m).RefusedBy rt options s) :
    returns (VaultState.remember rt.toGraphRuntime options extract time true m none false) s.vault = false ∧
      after (VaultState.remember rt.toGraphRuntime options extract time true m none false) s.vault = s.vault := by
  obtain ⟨hstorable, hblobs⟩ := h
  obtain ⟨hreturns, hafter⟩ :=
    @TemporalStore.after_rememberCall_of_not_storable _ options rt.toPython time m true hstorable s.vault.store
  have hkept : after (TemporalStore.rememberCall options rt.toPython time true m) s.vault.store =
      s.vault.store := by
    rw [hafter, Table.foldl_putNew_eq_self.mpr hblobs]
  unfold VaultState.remember
  rw [returns_bind, after_bind, VaultState.onStore, returns_on, hreturns, after_on, hkept]
  exact ⟨rfl, rfl⟩

/-- The mark of an envelope that is not refused: its line in the log, or a blob. -/
theorem marked_store {s : Facade F} {time : F} {m : MemoryEnvelope F}
    (h : ¬ (Attempt.memory time m).RefusedBy rt options s) :
    ∃ J, LastingVault rt options J ∧ ¬ J s.vault ∧ J { s.vault with
      store := after (TemporalStore.rememberCall options rt.toPython time true m) s.vault.store } := by
  by_cases hstorable : storable options rt.toPython time m = true
  · obtain ⟨line, -, hlog, -, hline⟩ :=
      @TemporalStore.after_rememberCall_grows _ options rt.toPython time m s.vault.store
    have hlength := List.length_pos_of_ne_nil (hline hstorable)
    refine ⟨_, LastingVault.longer s.vault.store.log.length, by simp, ?_⟩
    simp only [hlog, List.length_append]
    omega
  · rw [Bool.not_eq_true] at hstorable
    have hblobs : ¬ ∀ b ∈ looseBlobs options rt.toPython time m, s.vault.store.blobs.find? b.sha ≠ none :=
      fun hall => h ⟨hstorable, hall⟩
    simp only [not_forall, not_not] at hblobs
    obtain ⟨b, hb, hnone⟩ := hblobs
    obtain ⟨-, hafter⟩ := @TemporalStore.after_rememberCall_of_not_storable _ options rt.toPython time m
      true hstorable s.vault.store
    refine ⟨_, LastingVault.blob b.sha, by simp [hnone], ?_⟩
    simp only [hafter, Table.find?_foldl_putNew, hnone, Option.none_or, ne_eq, List.find?_eq_none]
    intro hall
    simpa using hall b hb

theorem vault_after_onVault (c : Call (VaultState F) Unit) (s : Facade F) :
    (after (Facade.onVault c) s).vault = after c s.vault := by
  rw [Facade.onVault, after_on]

theorem makes_remember (s : Facade F) (time : F) (m : MemoryEnvelope F) :
    Makes rt options s (.memory time m) (Facade.onVault
      (VaultState.remember rt.toGraphRuntime options extract time true m none false)) := by
  constructor
  · intro h
    obtain ⟨hreturns, hafter⟩ := @remember_of_refused _ _ _ extract _ _ _ h
    rw [Facade.onVault, returns_on, after_on, hreturns, hafter]
    exact ⟨rfl, rfl⟩
  · intro h
    obtain ⟨J, hlasting, hbefore, hmark⟩ := marked_store h
    refine ⟨fun t => J t.vault, Lasting.of_vault hlasting, hbefore, ?_⟩
    simp only [vault_after_onVault]
    exact hlasting.after_remember hmark

theorem makes_rememberIn (s : Facade F) (time : F) (boxId : Json F) (m : MemoryEnvelope F) :
    Makes rt options s (.memory time m) (Facade.onVault (Facade.rememberIn rt options extract time boxId m)) := by
  constructor
  · intro h
    obtain ⟨hreturns, hafter⟩ := @remember_of_refused _ _ _ extract _ _ _ h
    rw [Facade.onVault, returns_on, after_on, Facade.rememberIn, returns_bind, after_bind, hreturns, hafter]
    exact ⟨rfl, rfl⟩
  · intro h
    obtain ⟨J, hlasting, hbefore, hmark⟩ := marked_store h
    refine ⟨fun t => J t.vault, Lasting.of_vault hlasting, hbefore, ?_⟩
    simp only [vault_after_onVault]
    exact hlasting.after_rememberIn boxId hmark

theorem makes_propose (s : Facade F) (time : F) (id : Text) (data : Json F) (m : MemoryEnvelope F) :
    Makes rt options s (.proposal id) (Facade.onProposals (Facade.propose rt time id data m)) := by
  constructor
  · intro h
    have htaken : (s.proposals.find? id).isSome = true := Option.isSome_iff_ne_none.mpr h
    rw [Facade.onProposals, returns_on, after_on, Facade.propose, returns_commit, after_commit, if_pos htaken]
    exact ⟨rfl, rfl⟩
  · intro h
    have hfree : s.proposals.find? id = none := not_not.mp h
    refine ⟨_, Lasting.proposal id, by simp [hfree], ?_⟩
    rw [Facade.onProposals, after_on, Facade.propose, after_commit]
    simp [hfree, proposedRow]

/-- The call begins with the first of the attempts; what it does later takes no mark back. -/
structure Begins (rt : FacadeRuntime F) (options : StoreOptions) (s : Facade F)
    (attempts : List (Attempt F)) (c : Call (Facade F) Unit) : Prop where
  idle : attempts = [] → IdleFrom s c
  first : ∀ attempt rest, attempts = attempt :: rest → ∃ (d later : Call (Facade F) Unit),
    Makes rt options s attempt d ∧ (∀ I, Lasting rt options I → Preserves I later) ∧
      SameFrom s c (d >>= fun _ => later)

theorem begins_forM {ι : Type} {attempt : ι → Option (Attempt F)} {f : ι → Call (Facade F) Unit}
    {s : Facade F} (hidle : ∀ i, attempt i = none → IdleFrom s (f i))
    (hmakes : ∀ i a, attempt i = some a → Makes rt options s a (f i))
    (hlasting : ∀ I, Lasting rt options I → ∀ i, Preserves I (f i)) (items : List ι) :
    Begins rt options s (items.filterMap attempt) (forM items f) := by
  obtain ⟨hnone, hsome⟩ := forM_from_first hidle items
  refine ⟨hnone, fun a rest h => ?_⟩
  obtain ⟨i, later, hi, hsame⟩ := hsome a rest h
  refine ⟨f i, forM later f, hmakes i a hi, fun I hI => ?_, hsame⟩
  exact preserves_forM fun i _ => hlasting I hI i

theorem Begins.bind {s : Facade F} {attempts attempts' : List (Attempt F)} {c d : Call (Facade F) Unit}
    (hc : Begins rt options s attempts c) (hd : Begins rt options s attempts' d)
    (hlasting : ∀ I, Lasting rt options I → Preserves I d) :
    Begins rt options s (attempts ++ attempts') (c >>= fun _ => d) := by
  cases attempts with
  | nil =>
    have hskip : SameFrom s (c >>= fun _ => d) d := (hc.idle rfl).bind fun _ => d
    refine ⟨fun h => hskip.trans (hd.idle h), fun a rest h => ?_⟩
    obtain ⟨first, later, hmakes, hlater, hsame⟩ := hd.first a rest h
    exact ⟨first, later, hmakes, hlater, hskip.trans hsame⟩
  | cons a rest =>
    refine ⟨fun h => absurd h (List.cons_ne_nil _ _), fun a' rest' h => ?_⟩
    obtain ⟨rfl, -⟩ := List.cons.inj h
    obtain ⟨first, later, hmakes, hlater, hsame⟩ := hc.first a rest rfl
    refine ⟨first, later >>= fun _ => d, hmakes, fun I hI => (hlater I hI).bind (hlasting I hI), ?_⟩
    exact (hsame.bind fun _ => d).trans (bind_assoc_from s first later d)

/-- A call that begins with an attempt leaves everything as it is exactly where the attempt is
refused. -/
theorem Begins.after_eq_iff {s : Facade F} {a : Attempt F} {rest : List (Attempt F)}
    {c d : Call (Facade F) Unit} (hc : Begins rt options s (a :: rest) c)
    (hd : ∀ I, Lasting rt options I → Preserves I d) :
    after (c >>= fun _ => d) s = s ↔ a.RefusedBy rt options s := by
  obtain ⟨first, later, hmakes, hlater, hsame⟩ := hc.first a rest rfl
  have hwhole := (hsame.bind fun _ => d).trans (bind_assoc_from s first later d)
  rw [SameFrom.after hwhole]
  constructor
  · intro hkept
    by_contra hnot
    obtain ⟨I, hI, hbefore, hmark⟩ := hmakes.marked hnot
    have hrest : Preserves I (later >>= fun _ => d) := (hlater I hI).bind (hd I hI)
    have hafter := hrest.after_bind (d := fun _ => later >>= fun _ => d) hmark
    rw [hkept] at hafter
    exact hbefore hafter
  · intro hrefused
    obtain ⟨hreturns, hafter⟩ := hmakes.refused hrefused
    rw [after_bind, hreturns, hafter]
    rfl

variable {req : CaptureRequest F} {now : Nat → F} {newId : Nat → Text}

theorem begins_items (s : Facade F) : Begins rt options s (req.itemAttempts rt now newId)
    (forM req.items.zipIdx fun (item, i) =>
      Facade.captureItem rt options extract req (now i) (newId i) item) := by
  apply begins_forM
  · rintro ⟨item, i⟩ h
    simp only [CaptureRequest.attempt, Facade.captureItem] at h ⊢
    cases henvelope : item.envelope rt req (now i) with
    | none =>
      rw [henvelope] at h
      cases h
    | some envelope =>
      rw [henvelope] at h
      cases envelope with
      | none => rfl
      | some m => cases h
  · rintro ⟨item, i⟩ a h
    simp only [CaptureRequest.attempt, Facade.captureItem] at h ⊢
    cases henvelope : item.envelope rt req (now i) with
    | none =>
      rw [henvelope] at h
      obtain rfl := Option.some.inj h
      exact makes_invalid s
    | some envelope =>
      rw [henvelope] at h
      cases envelope with
      | none => cases h
      | some m =>
        obtain rfl := Option.some.inj h
        simp only
        split
        · apply makes_propose
        · apply makes_rememberIn
  · rintro I hI ⟨item, i⟩
    exact hI.preserves_captureItem _ _ _

theorem begins_trace (s : Facade F) (time : F) : Begins rt options s (req.traceAttempts rt lessons time)
    (Facade.captureTrace rt options extract lessons req time) := by
  unfold CaptureRequest.traceAttempts Facade.captureTrace
  by_cases htruthy : truthy rt ((field req.args "tool_trace").getD .null) = true
  · simp only [htruthy, if_true, callIf]
    generalize ((dictOf rt ((field req.args "tool_trace").getD .null)).bind fun d =>
      lessons (if valueAt "scope".toList d = none then insert "scope".toList (.obj req.scope) d
        else d)) = lessonsRead
    cases lessonsRead with
    | none =>
      refine ⟨fun h => absurd h (List.cons_ne_nil _ _), fun a rest h => ?_⟩
      obtain ⟨rfl, -⟩ := List.cons.inj h
      exact ⟨check false, pure (), makes_invalid s, fun I _ => preserves_pure, rfl⟩
    | some memories =>
      simp only
      rw [← List.filterMap_eq_map]
      apply begins_forM
      · exact fun m h => absurd h (Option.some_ne_none _)
      · intro m a h
        obtain rfl := Option.some.inj h
        apply makes_remember
      · intro I hI m
        apply Lasting.preserves_onVault
        exact fun t => (hI.vault t).preserves_remember _ _
  · rw [Bool.not_eq_true] at htruthy
    simp only [htruthy, callIf]
    exact ⟨fun _ => rfl, fun a rest h => absurd h.symm (List.cons_ne_nil _ _)⟩

/-! ## A request that raises -/

namespace Facade

/-- What is not in the graphs is the same. -/
structure SameBesideGraphs (s t : Facade F) : Prop where
  store : t.vault.store = s.vault.store
  facts : t.vault.facts = s.vault.facts
  boxMemories : t.vault.boxMemories = s.vault.boxMemories
  proposals : t.proposals = s.proposals
  tasks : t.tasks = s.tasks

theorem SameBesideGraphs.eq_iff {s t : Facade F} (h : SameBesideGraphs s t) :
    t = s ↔ t.vault.graphs = s.vault.graphs := by
  obtain ⟨⟨store, graphs, facts, boxMemories⟩, proposals, tasks⟩ := s
  obtain ⟨⟨store', graphs', facts', boxMemories'⟩, proposals', tasks'⟩ := t
  obtain ⟨rfl, rfl, rfl, rfl, rfl⟩ := h
  simp

theorem sameBesideGraphs_captureRelations (s : Facade F) :
    SameBesideGraphs s (after (captureRelations rt req now) s) := by
  have hkeeps : Preserves (SameBesideGraphs s) (captureRelations rt req now) := by
    apply preserves_forM
    intro item _
    apply Lasting.preserves_onVault
    intro t
    apply preserves_captureRelation
    exact fun graphs v hv => ⟨hv.store, hv.facts, hv.boxMemories, hv.proposals, hv.tasks⟩
  exact hkeeps s ⟨rfl, rfl, rfl, rfl, rfl⟩

/-- A task that is not updated is as it was. -/
theorem after_captureTask_of_raises {s : Facade F} (h : returns (captureTask rt req now) s = false) :
    after (captureTask rt req now) s = s := by
  unfold captureTask at h ⊢
  rw [returns_reading] at h
  rw [after_reading]
  split at h
  · rw [after_check]
  · simp at h
  · next patch _ =>
    rw [onTasks, after_on]
    rw [onTasks, returns_on] at h
    unfold returns updateTask TaskStateStore.update at h
    unfold after updateTask TaskStateStore.update
    cases hprepared : TaskStateStore.prepared rt.objects ⟨req.taskId, .obj req.scope, patch, now⟩
        (s.tasks.find? req.taskId) with
    | ok saved => simp [hprepared] at h
    | error e => rfl

/-- A request that captures nothing and raises leaves what its relations leave. -/
theorem after_rest_of_nothing {s : Facade F} (hcaptured : req.captured rt now = [])
    (h : returns (do
      captureRelations rt req now
      captureTask rt req now
      captureReport rt req now) s = false) :
    after (do
      captureRelations rt req now
      captureTask rt req now
      captureReport rt req now) s = after (captureRelations rt req now) s := by
  rw [returns_bind] at h
  rw [after_bind]
  split
  · next hrelations =>
    have hreport : ∀ t, returns (captureReport rt req now) t = true := by
      intro t
      rw [captureReport, returns_reading, hcaptured]
      simp [idsOf]
    rw [hrelations, Bool.true_and, returns_bind, hreport, Bool.and_true] at h
    rw [after_bind, h, if_neg (by simp), after_captureTask_of_raises h]
  · rfl

end Facade

/-- Without attempts nothing is captured. -/
theorem captured_of_no_attempts (h : req.itemAttempts rt now newId = []) : req.captured rt now = [] := by
  unfold CaptureRequest.itemAttempts at h
  unfold CaptureRequest.captured
  rw [List.filterMap_eq_nil_iff] at h
  split
  · rfl
  · rw [List.filterMap_eq_nil_iff]
    intro entry hentry
    have hnone := h entry hentry
    simp only [CaptureRequest.attempt] at hnone
    split at hnone
    · cases hnone
    · next henvelope => simp [henvelope]
    · cases hnone

/-- A request that raises leaves every store as it was exactly where it is harmless. -/
theorem after_captureRequest_eq_iff {s : Facade F}
    (h : returns (Facade.captureRequest rt options extract lessons req now newId) s = false) :
    after (Facade.captureRequest rt options extract lessons req now newId) s = s ↔
      req.Harmless rt options lessons now newId s := by
  have hwrites := (@begins_items _ rt options extract req now newId s).bind
    (@begins_trace _ rt options extract lessons req s (now req.items.length))
    fun I hI => hI.preserves_captureTrace _
  have hsame := SameFrom.symm (bind_assoc_from s
    (forM req.items.zipIdx fun (item, i) =>
      Facade.captureItem rt options extract req (now i) (newId i) item)
    (Facade.captureTrace rt options extract lessons req (now req.items.length)) (do
      Facade.captureRelations rt req now
      Facade.captureTask rt req now
      Facade.captureReport rt req now))
  rw [Facade.captureRequest, hsame.returns] at h
  rw [Facade.captureRequest, hsame.after]
  unfold CaptureRequest.Harmless
  split
  · next attempt rest hattempts =>
    rw [hattempts] at hwrites
    exact hwrites.after_eq_iff fun I hI => hI.preserves_rest
  · next hnone =>
    have hidle := (hwrites.idle hnone).bind fun _ => (do
      Facade.captureRelations rt req now
      Facade.captureTask rt req now
      Facade.captureReport rt req now)
    rw [hidle.returns] at h
    obtain ⟨hitems, -⟩ := List.append_eq_nil_iff.mp hnone
    rw [hidle.after, Facade.after_rest_of_nothing (captured_of_no_attempts hitems) h]
    exact (Facade.sameBesideGraphs_captureRelations s).eq_iff

end Facts

/-! ## A relation without a predicate -/

/-- A capture into new stores. -/
def captureNew (args : Json SampleNumber) : Call (Facade SampleNumber) Unit :=
  Facade.capture sampleFacadeRuntime .default (fun _ => []) (fun _ => none) args (fun _ => .one)
    fun _ => "prop_1".toList

/-- New stores. -/
def newFacade : Facade SampleNumber := ⟨VaultState.empty, Table.empty, Table.empty⟩

/-- A relation that raises. -/
def bareRelation : Json SampleNumber :=
  dict [("subject", .str "a".toList), ("memory_id", .str "m".toList)]

/-- A relation of a memory. -/
def fullRelation : Json SampleNumber :=
  dict [("subject", .str "a".toList), ("predicate", .str "p".toList), ("object", .str "b".toList),
    ("memory_id", .str "m".toList)]

/-- A request of relations. -/
def relationRequest (items : List (Json SampleNumber)) : Json SampleNumber := dict [("relations", .arr items)]

end AgentMemory
