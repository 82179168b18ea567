import Mathlib
import AgentMemory.Services.Indexing
import AgentMemory.Lib.Placement

/-!
# Embedding a batch of memories

`IndexMemories` (`embedding/service.go`) over the `Batcher` (`embedding/batcher.go`) over the
OpenAI embedder (`embeddings/openai/embedder.go`). A run keeps the log of its exchanges with
the provider, each with the position in the whole list at which its batch starts; what the
provider answers next may depend on all of it. `PostJSON` with its own retries is one
exchange.

The size of a response and the range of its indexes are checked, and an item is placed by its
index. A response of the right size that repeats an index passes both checks and leaves the
missing index at the nil vector it started with, as an item without an embedding does:
`aligned_iff_sound` says that nothing else goes wrong.
-/

namespace AgentMemory.Embedding

open Placement

/-- A vector as Go has it, `none` for the nil slice. -/
abbrev Vec := Option (List ℚ)

/-- An item of `embedResponse.Data` (`openai/embedder.go:46-51`). -/
structure EmbedItem where
  index : Int
  embedding : Vec
  deriving DecidableEq

/-- A request to the provider and what `PostJSON` gave back. `start` is the position of the
batch in the list being embedded. -/
structure Exchange where
  start : Nat
  texts : List String
  answer : Except String (List EmbedItem)

/-- The provider and the context: what `PostJSON` answers after the exchanges so far, and the
error of the context where it is done by then. -/
structure Provider where
  post : List Exchange → List String → Except String (List EmbedItem)
  done : List Exchange → Option String

/-- The loop that places the items (`openai/embedder.go:81-86`). -/
def placeItems (out : List Vec) : List EmbedItem → Except String (List Vec)
  | [] => .ok out
  | item :: rest =>
    if item.index < 0 ∨ (out.length : Int) ≤ item.index then
      .error "openai embeddings: index out of range"
    else placeItems (out.set item.index.toNat item.embedding) rest

/-- What the embedder makes of a decoded response (`openai/embedder.go:77-87`). -/
def readResponse (texts : List String) (data : List EmbedItem) : Except String (List Vec) :=
  if data.length ≠ texts.length then .error "openai embeddings: response size mismatch"
  else placeItems (List.replicate texts.length none) data

/-- `EmbedBatch` of the OpenAI embedder (`openai/embedder.go:61-88`). -/
def openaiEmbedBatch (p : Provider) (start : Nat) (texts : List String) (log : List Exchange) :
    Except String (List Vec) × List Exchange :=
  if texts = [] then (.ok [], log)
  else
    let answer := p.post log texts
    (answer.bind (readResponse texts), log ++ [⟨start, texts, answer⟩])

/-- `Batcher` (`batcher.go:14-19`) without the delay between attempts. -/
structure Batcher where
  maxBatch : Nat
  maxRetries : Nat
  maxBatch_pos : 0 < maxBatch

theorem defaultBatch_pos (maxBatch : Int) : 0 < if maxBatch ≤ 0 then 64 else maxBatch.toNat := by
  split
  · decide
  · omega

/-- `NewBatcher` (`batcher.go:21-34`). -/
def newBatcher (maxBatch maxRetries : Int) : Batcher where
  maxBatch := if maxBatch ≤ 0 then 64 else maxBatch.toNat
  maxRetries := if maxRetries < 0 then 0 else maxRetries.toNat
  maxBatch_pos := defaultBatch_pos maxBatch

/-- `withRetry` around the call of one batch (`batcher.go:71-87`), with the retries left. -/
def withRetry (p : Provider) (start : Nat) (texts : List String) :
    Nat → List Exchange → Except String (List Vec) × List Exchange
  | 0, log => openaiEmbedBatch p start texts log
  | retries + 1, log =>
    match openaiEmbedBatch p start texts log with
    | (.ok vectors, log') => (.ok vectors, log')
    | (.error _, log') =>
      match p.done log' with
      | some err => (.error err, log')
      | none => withRetry p start texts retries log'

/-- The loop over the batches (`batcher.go:51-68`). -/
def embedChunks (p : Provider) (b : Batcher) (texts : List String) (start : Nat)
    (out : List Vec) (log : List Exchange) : Except String (List Vec) × List Exchange :=
  if start < texts.length then
    match withRetry p start ((texts.drop start).take b.maxBatch) b.maxRetries log with
    | (.error err, log') => (.error err, log')
    | (.ok vectors, log') =>
      embedChunks p b texts (start + b.maxBatch) (out ++ vectors) log'
  else (.ok out, log)
  termination_by texts.length - start
  decreasing_by
    have := b.maxBatch_pos
    omega

/-- `EmbedBatch` of the batcher (`batcher.go:46-69`). -/
def embedBatch (p : Provider) (b : Batcher) (texts : List String) :
    Except String (List Vec) × List Exchange :=
  if texts = [] then (.ok [], []) else embedChunks p b texts 0 [] []

/-- `IndexMemories` (`service.go:67-90`): the items handed to `Upsert`, which may fail. The
loop stops at the end of the shorter list. -/
def indexMemories (p : Provider) (b : Batcher) (upsert : List (Memory × Vec) → Option String)
    (memories : List Memory) : Except String (List (Memory × Vec)) × List Exchange :=
  if memories = [] then (.ok [], [])
  else
    match embedBatch p b (memories.map Memory.content) with
    | (.error err, log) => (.error err, log)
    | (.ok vectors, log) =>
      match upsert (memories.zip vectors) with
      | some err => (.error err, log)
      | none => (.ok (memories.zip vectors), log)

/-! ### One response -/

/-- The response passes both checks of the embedder. -/
def Fits (texts : List String) (data : List EmbedItem) : Prop :=
  data.length = texts.length ∧
    ∀ item ∈ data, 0 ≤ item.index ∧ item.index < (texts.length : Int)

/-- No response that passes the checks repeats an index or lacks an embedding. -/
def Exchange.Sound (ex : Exchange) : Prop :=
  ∀ data, ex.answer = .ok data → Fits ex.texts data →
    (data.map EmbedItem.index).Nodup ∧ ∀ item ∈ data, item.embedding ≠ none

/-- An item under its index as a position. -/
def EmbedItem.slot (item : EmbedItem) : Nat × Vec := (item.index.toNat, item.embedding)

theorem placeItems_ok {out vectors : List Vec} {data : List EmbedItem}
    (h : placeItems out data = .ok vectors) :
    (∀ item ∈ data, 0 ≤ item.index ∧ item.index < (out.length : Int)) ∧
      vectors = place out (data.map EmbedItem.slot) := by
  induction data generalizing out with
  | nil =>
    cases h
    exact ⟨fun _ hitem => absurd hitem List.not_mem_nil, rfl⟩
  | cons item rest ih =>
    unfold placeItems at h
    split at h
    · cases h
    · rename_i hin
      obtain ⟨hrest, hvectors⟩ := ih h
      rw [List.length_set] at hrest
      refine ⟨?_, hvectors⟩
      intro other hother
      rcases List.mem_cons.mp hother with rfl | hmem
      · omega
      · exact hrest other hmem

theorem placeItems_of_range {out : List Vec} {data : List EmbedItem}
    (h : ∀ item ∈ data, 0 ≤ item.index ∧ item.index < (out.length : Int)) :
    placeItems out data = .ok (place out (data.map EmbedItem.slot)) := by
  induction data generalizing out with
  | nil => rfl
  | cons item rest ih =>
    have hitem := h item List.mem_cons_self
    rw [placeItems, if_neg (by omega)]
    apply ih
    intro other hother
    rw [List.length_set]
    exact h other (List.mem_cons_of_mem _ hother)

/-- A response is accepted exactly when it passes the checks. -/
theorem readResponse_ok {texts : List String} {data : List EmbedItem} {vectors : List Vec} :
    readResponse texts data = .ok vectors ↔
      Fits texts data ∧
        vectors = place (List.replicate texts.length none) (data.map EmbedItem.slot) := by
  unfold readResponse
  constructor
  · intro h
    split at h
    · cases h
    · rename_i hlen
      obtain ⟨hin, hvectors⟩ := placeItems_ok h
      rw [List.length_replicate] at hin
      exact ⟨⟨not_not.mp hlen, hin⟩, hvectors⟩
  · rintro ⟨⟨hlen, hin⟩, rfl⟩
    rw [if_neg (not_not.mpr hlen)]
    apply placeItems_of_range
    rwa [List.length_replicate]

/-- The exchange was accepted and gave these vectors. -/
def Served (ex : Exchange) (vectors : List Vec) : Prop :=
  ∃ data, ex.answer = .ok data ∧ readResponse ex.texts data = .ok vectors

theorem Served.length {ex : Exchange} {vectors : List Vec} (h : Served ex vectors) :
    vectors.length = ex.texts.length := by
  obtain ⟨data, -, hread⟩ := h
  rw [(readResponse_ok.mp hread).2, length_place, List.length_replicate]

/-- A vector of an accepted response came back at that index. -/
theorem Served.item {ex : Exchange} {vectors : List Vec} {i : Nat} {v : List ℚ}
    (h : Served ex vectors) (hi : vectors[i]? = some (some v)) :
    ∃ data, ex.answer = .ok data ∧ (⟨(i : Int), some v⟩ : EmbedItem) ∈ data := by
  obtain ⟨data, hanswer, hread⟩ := h
  obtain ⟨hfits, rfl⟩ := readResponse_ok.mp hread
  refine ⟨data, hanswer, ?_⟩
  obtain ⟨⟨index, embedding⟩, hitem, hslot⟩ := List.mem_map.mp (mem_of_place_empty hi)
  obtain ⟨rfl, rfl⟩ := Prod.mk.inj hslot
  have hindex := (hfits.2 _ hitem).1
  rwa [Int.toNat_of_nonneg hindex]

theorem nodup_slots_iff {data : List EmbedItem} (h : ∀ item ∈ data, 0 ≤ item.index) :
    ((data.map EmbedItem.slot).map Prod.fst).Nodup ↔ (data.map EmbedItem.index).Nodup := by
  have hmap : (data.map EmbedItem.slot).map Prod.fst = (data.map EmbedItem.index).map Int.toNat := by
    simp only [List.map_map]
    rfl
  rw [hmap]
  constructor
  · exact List.Nodup.of_map _
  · intro hnodup
    apply hnodup.map_on
    intro i hi j hj hij
    obtain ⟨a, ha, rfl⟩ := List.mem_map.mp hi
    obtain ⟨b, hb, rfl⟩ := List.mem_map.mp hj
    have := h a ha
    have := h b hb
    omega

/-- No vector of an accepted response is nil exactly when the response is sound. -/
theorem Served.full_iff {ex : Exchange} {vectors : List Vec} (h : Served ex vectors) :
    none ∉ vectors ↔ ex.Sound := by
  obtain ⟨data, hanswer, hread⟩ := h
  obtain ⟨hfits, rfl⟩ := readResponse_ok.mp hread
  have hin : ∀ slot ∈ data.map EmbedItem.slot, slot.1 < ex.texts.length := by
    intro slot hslot
    obtain ⟨item, hitem, rfl⟩ := List.mem_map.mp hslot
    have := hfits.2 item hitem
    simp only [EmbedItem.slot]
    omega
  rw [place_full_iff (by rw [List.length_map, hfits.1]) hin,
    nodup_slots_iff fun item hitem => (hfits.2 item hitem).1]
  constructor
  · rintro ⟨hnodup, hvalues⟩ data' hdata' -
    cases hanswer.symm.trans hdata'
    exact ⟨hnodup, fun item hitem => hvalues _ (List.mem_map_of_mem hitem)⟩
  · intro hsound
    obtain ⟨hnodup, hvalues⟩ := hsound data hanswer hfits
    refine ⟨hnodup, ?_⟩
    intro slot hslot
    obtain ⟨item, hitem, rfl⟩ := List.mem_map.mp hslot
    exact hvalues item hitem

/-! ### One batch -/

/-- How an exchange ended: accepted, or rejected and so sound. -/
def Ended (ex : Exchange) : Except String (List Vec) → Prop
  | .ok vectors => Served ex vectors
  | .error _ => ex.Sound

/-- What a call of the embedder leaves in the log. -/
theorem openaiEmbedBatch_log {p : Provider} {start : Nat} {texts : List String}
    {log log' : List Exchange} {r : Except String (List Vec)} (hne : texts ≠ [])
    (h : openaiEmbedBatch p start texts log = (r, log')) :
    ∃ ex : Exchange, log' = log ++ [ex] ∧ ex.start = start ∧ ex.texts = texts ∧
      Ended ex r := by
  rw [openaiEmbedBatch, if_neg hne] at h
  obtain ⟨rfl, rfl⟩ := Prod.mk.inj h
  refine ⟨_, rfl, rfl, rfl, ?_⟩
  cases hanswer : p.post log texts with
  | error e =>
    intro data hdata
    cases hdata
  | ok data =>
    simp only [Except.bind]
    cases hread : readResponse texts data with
    | ok vectors => exact ⟨data, rfl, hread⟩
    | error e =>
      intro data' hdata' hfits
      cases hdata'
      rw [readResponse_ok.mpr ⟨hfits, rfl⟩] at hread
      cases hread

/-- A batch that went through: attempts that failed, which are sound for want of an accepted
response, and the one that was accepted. -/
theorem withRetry_ok {p : Provider} {start : Nat} {texts : List String} {retries : Nat}
    {log log' : List Exchange} {vectors : List Vec} (hne : texts ≠ [])
    (h : withRetry p start texts retries log = (.ok vectors, log')) :
    ∃ failed ex, log' = log ++ (failed ++ [ex]) ∧ (∀ f ∈ failed, f.Sound) ∧
      ex.start = start ∧ ex.texts = texts ∧ Served ex vectors := by
  induction retries generalizing log with
  | zero =>
    obtain ⟨ex, hlog, hstart, htexts, hserved⟩ := openaiEmbedBatch_log hne h
    exact ⟨[], ex, hlog, fun _ hf => absurd hf List.not_mem_nil, hstart, htexts, hserved⟩
  | succ retries ih =>
    unfold withRetry at h
    cases hcall : openaiEmbedBatch p start texts log with
    | mk r log₁ =>
      obtain ⟨first, rfl, hstart, htexts, hfirst⟩ := openaiEmbedBatch_log hne hcall
      rw [hcall] at h
      cases r with
      | ok vs =>
        cases h
        exact ⟨[], first, rfl, fun _ hf => absurd hf List.not_mem_nil, hstart, htexts, hfirst⟩
      | error e =>
        simp only at h
        split at h
        · cases h
        · obtain ⟨failed, ex, rfl, hfailed, hex⟩ := ih h
          refine ⟨first :: failed, ex, by simp, ?_, hex⟩
          intro f hf
          rcases List.mem_cons.mp hf with rfl | hmem
          · exact hfirst
          · exact hfailed f hmem

/-! ### All batches -/

/-- The provider returned the vector at the index that position `i` of the list has in its
batch of `m`. -/
def Returned (m : Nat) (texts : List String) (log : List Exchange) (i : Nat) (v : List ℚ) :
    Prop :=
  ∃ ex ∈ log, ex.start = i / m * m ∧ ex.texts = (texts.drop ex.start).take m ∧
    ∃ data, ex.answer = .ok data ∧ (⟨((i % m : Nat) : Int), some v⟩ : EmbedItem) ∈ data

theorem Returned.mono {m i : Nat} {texts : List String} {log log' : List Exchange} {v : List ℚ}
    (h : Returned m texts log i v) (hsub : log ⊆ log') : Returned m texts log' i v := by
  obtain ⟨ex, hex, hrest⟩ := h
  exact ⟨ex, hsub hex, hrest⟩

/-- What the batches from `start` on add to the vectors and to the log. -/
structure Batched (m : Nat) (texts : List String) (start : Nat) (more : List Vec)
    (added : List Exchange) : Prop where
  length : more.length = texts.length - start
  full : none ∉ more ↔ ∀ ex ∈ added, ex.Sound
  returned : ∀ j v, more[j]? = some (some v) → Returned m texts added (start + j) v

theorem Batched.nil {m start : Nat} {texts : List String} (h : texts.length ≤ start) :
    Batched m texts start [] [] where
  length := by simp only [List.length_nil]; omega
  full := by simp
  returned := by simp

/-- A batch followed by the later ones. -/
theorem Batched.cons {m start : Nat} {texts : List String} {vectors more : List Vec}
    {failed added : List Exchange} {ex : Exchange} (hm : 0 < m) (hdvd : m ∣ start)
    (hlt : start < texts.length) (hfailed : ∀ f ∈ failed, f.Sound) (hstart : ex.start = start)
    (htexts : ex.texts = (texts.drop start).take m) (hserved : Served ex vectors)
    (hmore : Batched m texts (start + m) more added) :
    Batched m texts start (vectors ++ more) (failed ++ [ex] ++ added) := by
  have hlen : vectors.length = min m (texts.length - start) := by
    rw [hserved.length, htexts, List.length_take, List.length_drop]
  have hmlen := hmore.length
  refine ⟨?_, ?_, ?_⟩
  · rw [List.length_append]
    omega
  · rw [List.mem_append, not_or, hserved.full_iff, hmore.full]
    constructor
    · rintro ⟨hex, hadded⟩ e he
      rw [List.mem_append, List.mem_append, List.mem_singleton] at he
      rcases he with (he | rfl) | he
      · exact hfailed e he
      · exact hex
      · exact hadded e he
    · intro hall
      exact ⟨hall ex (by simp), fun e he => hall e (by simp [he])⟩
  · intro j v hj
    obtain ⟨k, rfl⟩ := hdvd
    by_cases hin : j < vectors.length
    · have hjm : j < m := by omega
      rw [List.getElem?_append_left hin] at hj
      obtain ⟨data, hanswer, hitem⟩ := hserved.item hj
      refine ⟨ex, by simp, ?_, by rw [hstart, htexts], data, hanswer, ?_⟩
      · rw [hstart, Nat.mul_add_div hm, Nat.div_eq_of_lt hjm, Nat.add_zero, Nat.mul_comm]
      · rwa [Nat.mul_add_mod, Nat.mod_eq_of_lt hjm]
    · rw [List.getElem?_append_right (by omega)] at hj
      have hrest := (List.getElem?_eq_some_iff.mp hj).1
      have hfull : vectors.length = m := by omega
      have hat := hmore.returned _ v hj
      rw [hfull, Nat.add_assoc, Nat.add_sub_cancel' (by omega)] at hat
      exact hat.mono (List.subset_append_right _ _)

/-- The loop keeps the vectors aligned with the texts. -/
theorem embedChunks_ok {p : Provider} {b : Batcher} {texts : List String} {start : Nat}
    {out vectors : List Vec} {log log' : List Exchange} (hdvd : b.maxBatch ∣ start)
    (h : embedChunks p b texts start out log = (.ok vectors, log')) :
    ∃ more added, vectors = out ++ more ∧ log' = log ++ added ∧
      Batched b.maxBatch texts start more added := by
  fun_induction embedChunks p b texts start out log with
  | case1 start out log hlt err log₁ hcall => cases h
  | case2 start out log hlt vs log₁ hcall ih =>
    have hne : (texts.drop start).take b.maxBatch ≠ [] := by
      apply List.ne_nil_of_length_pos
      rw [List.length_take, List.length_drop]
      have := b.maxBatch_pos
      omega
    obtain ⟨failed, ex, rfl, hfailed, hstart, htexts, hserved⟩ := withRetry_ok hne hcall
    obtain ⟨more, added, rfl, rfl, hmore⟩ := ih (Nat.dvd_add hdvd (Nat.dvd_refl _)) h
    refine ⟨vs ++ more, failed ++ [ex] ++ added, by rw [List.append_assoc],
      by simp only [List.append_assoc], ?_⟩
    exact Batched.cons b.maxBatch_pos hdvd hlt hfailed hstart htexts hserved hmore
  | case3 start out log hge =>
    cases h
    exact ⟨[], [], by simp, by simp, Batched.nil (by omega)⟩

theorem embedBatch_ok {p : Provider} {b : Batcher} {texts : List String} {vectors : List Vec}
    {log : List Exchange} (h : embedBatch p b texts = (.ok vectors, log)) :
    Batched b.maxBatch texts 0 vectors log := by
  unfold embedBatch at h
  split at h
  · rename_i hnil
    cases h
    exact Batched.nil (by simp [hnil])
  · obtain ⟨more, added, rfl, rfl, hmore⟩ := embedChunks_ok (Nat.dvd_zero _) h
    exact hmore

/-! ### The memories and their vectors -/

/-- Every memory of the list, in order, with a vector that the provider returned at its
text's index in its batch. -/
structure Aligned (b : Batcher) (memories : List Memory) (items : List (Memory × Vec))
    (log : List Exchange) : Prop where
  complete : items.map Prod.fst = memories
  returned : ∀ i item, items[i]? = some item → ∃ v, item.2 = some v ∧
    Returned b.maxBatch (memories.map Memory.content) log i v

theorem indexMemories_ok {p : Provider} {b : Batcher}
    {upsert : List (Memory × Vec) → Option String} {memories : List Memory}
    {items : List (Memory × Vec)} {log : List Exchange}
    (h : indexMemories p b upsert memories = (.ok items, log)) :
    ∃ vectors, items = memories.zip vectors ∧ vectors.length = memories.length ∧
      Batched b.maxBatch (memories.map Memory.content) 0 vectors log := by
  unfold indexMemories at h
  split at h
  · rename_i hnil
    cases h
    subst hnil
    exact ⟨[], rfl, rfl, Batched.nil (Nat.le_refl _)⟩
  · cases hbatch : embedBatch p b (memories.map Memory.content) with
    | mk r log₁ =>
      rw [hbatch] at h
      cases r with
      | error e => cases h
      | ok vectors =>
        have hb := embedBatch_ok hbatch
        have hlen := hb.length
        rw [List.length_map] at hlen
        simp only at h
        split at h
        · cases h
        · cases h
          exact ⟨vectors, rfl, by omega, hb⟩

/-- An indexing that succeeds is aligned exactly when every response it accepted is sound. -/
theorem aligned_iff_sound (p : Provider) (b : Batcher)
    (upsert : List (Memory × Vec) → Option String) (memories : List Memory)
    (items : List (Memory × Vec)) (log : List Exchange)
    (h : indexMemories p b upsert memories = (.ok items, log)) :
    Aligned b memories items log ↔ ∀ ex ∈ log, ex.Sound := by
  obtain ⟨vectors, rfl, hlen, hb⟩ := indexMemories_ok h
  rw [← hb.full]
  constructor
  · intro ha hnone
    obtain ⟨i, hi⟩ := List.getElem?_of_mem hnone
    have hlt := (List.getElem?_eq_some_iff.mp hi).1
    obtain ⟨v, hv, -⟩ := ha.returned i (memories[i], none)
      (by rw [List.getElem?_zip_eq_some]; exact ⟨List.getElem?_eq_getElem _, hi⟩)
    cases hv
  · intro hfull
    refine ⟨List.map_fst_zip (Nat.le_of_eq hlen.symm), ?_⟩
    rintro i ⟨mem, vec⟩ hi
    have hvec := (List.getElem?_zip_eq_some.mp hi).2
    cases vec with
    | none => exact absurd (List.mem_of_getElem? hvec) hfull
    | some v =>
      have hret := hb.returned i v hvec
      rw [Nat.zero_add] at hret
      exact ⟨v, rfl, hret⟩

/-- Two memories to embed. -/
def pair : List Memory := [userFact 1 "m0" "a", userFact 1 "m1" "b"]

/-- A provider that always answers with these items. -/
def answering (data : List EmbedItem) : Provider where
  post := fun _ _ => .ok data
  done := fun _ => none

/-- The last batch ends the loop. -/
theorem embedChunks_last {p : Provider} {b : Batcher} {texts : List String} {start : Nat}
    {out vectors : List Vec} {log log' : List Exchange} (hlt : start < texts.length)
    (hlast : texts.length ≤ start + b.maxBatch)
    (h : withRetry p start ((texts.drop start).take b.maxBatch) b.maxRetries log =
      (.ok vectors, log')) :
    embedChunks p b texts start out log = (.ok (out ++ vectors), log') := by
  rw [embedChunks, if_pos hlt, h]
  simp only
  rw [embedChunks, if_neg (by omega)]

/-- One exchange for the two texts. -/
theorem run_pair (data : List EmbedItem) (vectors : List Vec)
    (h : readResponse ["a", "b"] data = .ok vectors) :
    indexMemories (answering data) (newBatcher 64 0) (fun _ => none) pair =
      (.ok (pair.zip vectors), [⟨0, ["a", "b"], .ok data⟩]) := by
  have hretry : withRetry (answering data) 0 ["a", "b"] 0 [] =
      (.ok vectors, [⟨0, ["a", "b"], .ok data⟩]) := by
    simp [withRetry, openaiEmbedBatch, answering, Except.bind, h]
  have hchunks : embedChunks (answering data) (newBatcher 64 0) ["a", "b"] 0 [] [] =
      (.ok ([] ++ vectors), [⟨0, ["a", "b"], .ok data⟩]) :=
    embedChunks_last (by decide) (by decide) hretry
  have hbatch : embedBatch (answering data) (newBatcher 64 0) (pair.map Memory.content) =
      (.ok vectors, [⟨0, ["a", "b"], .ok data⟩]) := hchunks
  rw [indexMemories, if_neg (by simp [pair]), hbatch]

/-- Out of order, each index once: both memories get their own vector. -/
theorem pair_aligned :
    Aligned (newBatcher 64 0) pair (pair.zip [some [1], some [2]])
      [⟨0, ["a", "b"], .ok [⟨1, some [2]⟩, ⟨0, some [1]⟩]⟩] := by
  refine (aligned_iff_sound (answering [⟨1, some [2]⟩, ⟨0, some [1]⟩]) _ _ pair _ _
    (run_pair _ _ rfl)).mpr ?_
  intro ex hex data hdata _
  rw [List.mem_singleton] at hex
  subst hex
  cases hdata
  exact ⟨by decide, by decide⟩

/-- Index 0 twice and no index 1: the second memory is indexed under a nil vector. -/
theorem pair_nil_vector :
    ∃ items log, indexMemories (answering [⟨0, some [1]⟩, ⟨0, some [2]⟩]) (newBatcher 64 0)
        (fun _ => none) pair = (.ok items, log) ∧
      ¬ Aligned (newBatcher 64 0) pair items log := by
  refine ⟨_, _, run_pair _ [some [2], none] rfl, ?_⟩
  intro h
  obtain ⟨v, hv, -⟩ := h.returned 1 _ rfl
  cases hv

/-! ### The service's program -/

/-- The embedder's and the vector store's calls, answered by the batcher and by a store that
takes every item. -/
def answered (p : Provider) (b : Batcher) : Calls.Step Call Resp Err (List VectorItem)
  | .embedBatch texts, stored, r, stored' =>
    stored' = stored ∧ r = match (embedBatch p b texts).1 with
      | .ok vectors => .ok (vectors.map fun vec => vec.getD [])
      | .error _ => .error .unavailable
  | .upsertVectors items, stored, r, stored' => r = .ok () ∧ stored' = stored ++ items
  | _, _, _, _ => False

/-- `IndexMemories` as the services run it stores the items given here. -/
theorem wp_indexMemories (p : Provider) (b : Batcher) (memories : List Memory) :
    Calls.wp (answered p b)
      (fun o stored => match (indexMemories p b (fun _ => none) memories).1 with
        | .ok items =>
          o = .ok () ∧ stored = items.map fun item => vectorItem item.1 (item.2.getD [])
        | .error _ => o = .error .unavailable ∧ stored = [])
      (AgentMemory.indexMemories memories) [] := by
  unfold AgentMemory.indexMemories indexMemories
  by_cases hnil : memories = []
  · rw [if_pos hnil, if_pos hnil]
    exact ⟨rfl, rfl⟩
  · rw [if_neg hnil, if_neg hnil, Calls.wp_perform_bind]
    rintro r stored ⟨rfl, rfl⟩
    cases hbatch : embedBatch p b (memories.map Memory.content) with
    | mk result log =>
      cases result with
      | error e => exact ⟨rfl, rfl⟩
      | ok vectors =>
        simp only
        intro r stored hstored
        obtain ⟨rfl, rfl⟩ := hstored
        refine ⟨rfl, ?_⟩
        rw [List.nil_append, List.zip, List.map_zipWith, List.zipWith_map_right]

end AgentMemory.Embedding
