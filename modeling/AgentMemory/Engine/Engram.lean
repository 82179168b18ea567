import AgentMemory.Engine.Vault
import AgentMemory.Lib.Buckets

/-!
# The engram cache

`EngramCache` of `engram.py`: the ids of recent answers, in buckets under a hash of the last
words of the query, told apart by a digest of the query, the scope and the tags. `EngramMap`
says what the cache is for, a map from these three to a list of ids, and `lookup_eq` that the
cache answers as the map does as long as SHA-256 tells the keys in use apart. The clock
readings of an entry are left out; nothing modelled reads them.
-/

namespace AgentMemory

open Dicts PyText JsonText Buckets

/-- The runtime with `unicodedata.normalize("NFKC", text)`. -/
structure EngramRuntime (F : Type) extends Python F where
  nfkc : Text → Text

/-- The arguments of `EngramCache.__init__`, which raises where one is not positive. -/
structure EngramOptions where
  tableSize : Nat
  cacheThreshold : Nat
  maxMemoryIds : Nat
  tableSize_pos : 0 < tableSize
  cacheThreshold_pos : 0 < cacheThreshold
  maxMemoryIds_pos : 0 < maxMemoryIds

variable {F : Type}

/-- `EngramEntry` (`engram.py:65-77`). -/
structure EngramEntry (F : Type) where
  queryText : Text
  signature : Text
  memoryIds : List Text
  scope : List (Text × Json F)
  tags : List Text
  hitCount : Nat

/-- `EngramCache`; a counter holds 0 for what it has not seen. -/
structure EngramCache (F : Type) where
  entries : Buckets.Table Nat (EngramEntry F)
  queryCounts : Text → Nat
  totalLookups : Nat
  cacheHits : Nat
  cacheMisses : Nat
  collisionRejections : Nat
  autoCached : Nat

/-- A new cache, and one after `clear` (`engram.py:191-199`). -/
def EngramCache.empty : EngramCache F := ⟨[], fun _ => 0, 0, 0, 0, 0, 0⟩

/-- The query, scope and tags that each operation takes; a scope is a dictionary. -/
structure EngramArgs (F : Type) where
  query : Text
  scope : Option (List (Text × Json F))
  tags : Option (List Text)
  canonical : ∀ d, scope = some d → Canonical (.obj d)

/-! ### Where an entry lies -/

section Hasher

variable (rt : EngramRuntime F) (o : EngramOptions)

/-- `normalize` (`engram.py:34-35`). -/
def EngramRuntime.normalize (text : Text) : Text := rt.lower (strip (rt.nfkc text))

/-- `int.from_bytes(digest[:8], "little")`. -/
def tokenHash (token : Text) : Nat :=
  ((Sha256.digest (Sha256.utf8 token)).take 8).foldr (fun b n => b.toNat + 256 * n) 0

/-- `_hash_ngram` with the first prime (`engram.py:55-62`). -/
def hashNgram (tokens : List Text) : Nat :=
  (tokens.zipIdx 1).foldl (fun value token =>
    value ^^^ (tokenHash token.1 * 31 * token.2 % o.tableSize)) 0 % o.tableSize

/-- `primary_index` of a normalised query: the hash of its last three words at most
(`engram.py:40-45`). -/
def indexOfNormalized (query : Text) : Nat :=
  let tokens := split query
  if tokens = [] then 0 else hashNgram o (tokens.drop (tokens.length - min 3 tokens.length))

/-- `primary_index`. -/
def primaryIndex (query : Text) : Nat := indexOfNormalized o (rt.normalize query)

/-- What an entry is stored under: the normalised query, the scope and the sorted tags. -/
structure EngramKey (F : Type) where
  query : Text
  scope : List (Text × Json F)
  tags : List Text

/-- The key of the arguments. -/
def EngramArgs.key (a : EngramArgs F) : EngramKey F where
  query := rt.normalize a.query
  scope := a.scope.getD []
  tags := (a.tags.getD []).mergeSort fun s t => decide (s ≤ t)

/-- The material of a signature (`engram.py:222-226`). -/
def EngramKey.material (k : EngramKey F) : Json F :=
  dict [("query", .str k.query), ("scope", .obj k.scope), ("tags", .arr (k.tags.map .str))]

/-- The text that is hashed for a key. -/
def EngramKey.text (k : EngramKey F) : Text := stableJson rt.toPython k.material

/-- `signature` (`engram.py:215-227`). -/
def engramSignature (a : EngramArgs F) : Text := sha256Text ((a.key rt).text rt)

end Hasher

/-! ### The operations -/

namespace EngramCache

variable (rt : EngramRuntime F) (o : EngramOptions)

/-- The entry that the arguments find. -/
def find (c : EngramCache F) (a : EngramArgs F) : Option (EngramEntry F) :=
  Buckets.get EngramEntry.signature c.entries (primaryIndex rt o a.query) (engramSignature rt a)

/-- An entry is put into the bucket of its query. -/
def putEntry (c : EngramCache F) (query : Text) (entry : EngramEntry F) : EngramCache F :=
  { c with entries := Buckets.put EngramEntry.signature c.entries (primaryIndex rt o query) entry }

/-- `lookup` (`engram.py:107-127`). -/
def lookup (c : EngramCache F) (a : EngramArgs F) (topK : Option Nat) : List Text × EngramCache F :=
  let c := { c with totalLookups := c.totalLookups + 1 }
  match c.find rt o a with
  | some entry =>
    (entry.memoryIds.take (topK.getD entry.memoryIds.length),
      { c.putEntry rt o a.query { entry with hitCount := entry.hitCount + 1 } with
        cacheHits := c.cacheHits + 1 })
  | none =>
    ([], { c with
      collisionRejections := c.collisionRejections +
        if (bucketAt c.entries (primaryIndex rt o a.query)).isEmpty = true then 0 else 1
      cacheMisses := c.cacheMisses + 1 })

/-- `list(dict.fromkeys(memory_ids))[: self.max_memory_ids]`. -/
def deduped (ids : List Text) : List Text := ids.eraseDups.take o.maxMemoryIds

/-- `cache` (`engram.py:147-171`): whether an entry was added, and the cache after it. -/
def cache (c : EngramCache F) (a : EngramArgs F) (ids : List Text) : Bool × EngramCache F :=
  if deduped o ids = [] then (false, c)
  else
    ((c.find rt o a).isNone,
      c.putEntry rt o a.query
        { queryText := a.query
          signature := engramSignature rt a
          memoryIds := deduped o ids
          scope := a.scope.getD []
          tags := (a.tags.getD []).mergeSort fun s t => decide (s ≤ t)
          hitCount := 0 })

/-- `record_result` (`engram.py:129-145`). -/
def recordResult (c : EngramCache F) (a : EngramArgs F) (ids : List Text) :
    Bool × EngramCache F :=
  if ids = [] then (false, c)
  else
    let signature := engramSignature rt a
    let c := { c with queryCounts := Function.update c.queryCounts signature (c.queryCounts signature + 1) }
    if c.queryCounts signature < o.cacheThreshold then (false, c)
    else
      let (created, c) := c.cache rt o a ids
      (created, { c with autoCached := c.autoCached + if created = true then 1 else 0 })

/-- The entry without an id, gone where no other id is left. -/
def without (id : Text) (entry : EngramEntry F) : Option (EngramEntry F) :=
  let kept := { entry with memoryIds := entry.memoryIds.filter (· ≠ id) }
  if kept.memoryIds = [] then none else some kept

/-- `invalidate_memory` (`engram.py:173-189`): how many entries had the id, and the cache without
it. -/
def invalidateMemory (c : EngramCache F) (id : Text) : Nat × EngramCache F :=
  ((c.entries.map fun p => p.2.countP fun entry => decide (id ∈ entry.memoryIds)).sum,
    { c with entries := Buckets.sweep (without id) c.entries })

end EngramCache

/-- The operations of a cache. -/
inductive EngramOp (F : Type) where
  | cache (a : EngramArgs F) (ids : List Text)
  | recordResult (a : EngramArgs F) (ids : List Text)
  | lookup (a : EngramArgs F) (topK : Option Nat)
  | invalidateMemory (id : Text)
  | clear

namespace EngramOp

variable (rt : EngramRuntime F) (o : EngramOptions)

/-- The cache after an operation. -/
def apply (c : EngramCache F) : EngramOp F → EngramCache F
  | .cache a ids => (c.cache rt o a ids).2
  | .recordResult a ids => (c.recordResult rt o a ids).2
  | .lookup a topK => (c.lookup rt o a topK).2
  | .invalidateMemory id => (c.invalidateMemory id).2
  | .clear => .empty

/-- The cache after a sequence of operations. -/
def run (ops : List (EngramOp F)) : EngramCache F := ops.foldl (apply rt o) .empty

/-- The arguments that an operation uses. -/
def args : EngramOp F → List (EngramArgs F)
  | .cache a _ | .recordResult a _ | .lookup a _ => [a]
  | .invalidateMemory _ | .clear => []

end EngramOp

/-! ### What the cache is for -/

/-- A map from keys to ids, and how often each key was recorded. -/
structure EngramMap (F : Type) where
  ids : EngramKey F → List Text
  counts : EngramKey F → Nat

namespace EngramMap

/-- Nothing is stored. -/
def empty : EngramMap F := ⟨fun _ => [], fun _ => 0⟩

variable (o : EngramOptions)

open Classical in
/-- The ids, without repetitions and cut off, are stored under the key, where there are any. -/
noncomputable def store (m : EngramMap F) (k : EngramKey F) (ids : List Text) : EngramMap F :=
  if EngramCache.deduped o ids = [] then m
  else { m with ids := Function.update m.ids k (EngramCache.deduped o ids) }

open Classical in
/-- A recording that is not empty counts, and from the threshold on it stores. -/
noncomputable def record (m : EngramMap F) (k : EngramKey F) (ids : List Text) : EngramMap F :=
  if ids = [] then m
  else
    let m := { m with counts := Function.update m.counts k (m.counts k + 1) }
    if m.counts k < o.cacheThreshold then m else m.store o k ids

variable (rt : EngramRuntime F)

/-- The map after an operation of the cache. -/
noncomputable def apply (m : EngramMap F) : EngramOp F → EngramMap F
  | .cache a ids => m.store o (a.key rt) ids
  | .recordResult a ids => m.record o (a.key rt) ids
  | .lookup _ _ => m
  | .invalidateMemory id => { m with ids := fun k => (m.ids k).filter (· ≠ id) }
  | .clear => empty

/-- The map after a sequence of operations. -/
noncomputable def run (ops : List (EngramOp F)) : EngramMap F := ops.foldl (apply o rt) empty

end EngramMap

/-! ### The cache answers as the map -/

section Refinement

variable {rt : EngramRuntime F} {o : EngramOptions}

theorem canonical_material {a : EngramArgs F} : Canonical (a.key rt).material := by
  apply canonical_dict
  simp only [List.forall_mem_cons, List.not_mem_nil, false_implies, implies_true, and_true]
  refine ⟨trivial, ?_, ?_⟩
  · cases hscope : a.scope with
    | none =>
      simp only [EngramArgs.key, hscope, Option.getD_none]
      exact ⟨List.Pairwise.nil, trivial⟩
    | some d =>
      simp only [EngramArgs.key, hscope, Option.getD_some]
      exact a.canonical d hscope
  · simp only [Canonical, canonicalItems_iff]
    intro j hj
    obtain ⟨tag, -, rfl⟩ := List.mem_map.mp hj
    trivial

/-- The hashed text of a key determines it. -/
theorem key_eq_of_text {a b : EngramArgs F} (h : (a.key rt).text rt = (b.key rt).text rt) :
    a.key rt = b.key rt := by
  have hmaterial := dumps_injective canonical_material canonical_material h
  have hfield : ∀ (k : EngramKey F) key, field k.material key = shown key _ := fun k key =>
    field_dict (by simp) key
  have hquery := congrArg (fun j => field j "query") hmaterial
  have hscope := congrArg (fun j => field j "scope") hmaterial
  have htags := congrArg (fun j => field j "tags") hmaterial
  simp only [hfield, shown, String.reduceEq, if_true, if_false, Option.some.injEq, Json.str.injEq,
    Json.obj.injEq, Json.arr.injEq] at hquery hscope htags
  have htags' : (a.key rt).tags = (b.key rt).tags :=
    List.map_injective_iff.mpr (fun _ _ hst => Json.str.inj hst) htags
  cases hka : a.key rt
  cases hkb : b.key rt
  simp only [hka, hkb] at hquery hscope htags'
  rw [hquery, hscope, htags']

/-- Among these arguments, SHA-256 tells keys apart. -/
def Apart (rt : EngramRuntime F) (used : List (EngramArgs F)) : Prop :=
  ∀ a ∈ used, ∀ b ∈ used, engramSignature rt a = engramSignature rt b → a.key rt = b.key rt

/-- The cache finds for these arguments what the map holds for their keys. -/
structure Refines (rt : EngramRuntime F) (o : EngramOptions) (used : List (EngramArgs F))
    (c : EngramCache F) (m : EngramMap F) : Prop where
  proper : Proper EngramEntry.signature c.entries
  ids : ∀ a ∈ used, ((c.find rt o a).map EngramEntry.memoryIds).getD [] = m.ids (a.key rt)
  counts : ∀ a ∈ used, c.queryCounts (engramSignature rt a) = m.counts (a.key rt)

/-- Arguments with the key of others look in the same place. -/
theorem same_place {a b : EngramArgs F} (h : a.key rt = b.key rt) :
    primaryIndex rt o a.query = primaryIndex rt o b.query ∧
      engramSignature rt a = engramSignature rt b := by
  have hquery : rt.normalize a.query = rt.normalize b.query := congrArg EngramKey.query h
  unfold primaryIndex engramSignature
  rw [h, hquery]
  exact ⟨rfl, rfl⟩

namespace EngramCache

/-- What the arguments find after an entry was put under the signature of others. -/
theorem find_putEntry {used : List (EngramArgs F)} (hapart : Apart rt used) {a b : EngramArgs F}
    (ha : a ∈ used) (hb : b ∈ used) (c : EngramCache F) {entry : EngramEntry F}
    (hentry : entry.signature = engramSignature rt b) [Decidable (a.key rt = b.key rt)] :
    (c.putEntry rt o b.query entry).find rt o a =
      if a.key rt = b.key rt then some entry else c.find rt o a := by
  unfold find putEntry
  rw [Buckets.get_put, hentry]
  by_cases hkey : a.key rt = b.key rt
  · rw [if_pos (same_place hkey), if_pos hkey]
  · rw [if_neg hkey, if_neg]
    rintro ⟨-, hsignature⟩
    exact hkey (hapart a ha b hb hsignature)

theorem signature_of_find {c : EngramCache F} {a : EngramArgs F} {entry : EngramEntry F}
    (h : c.find rt o a = some entry) : entry.signature = engramSignature rt a := by
  have hd := @List.find?_some _ (fun e => decide (EngramEntry.signature e = engramSignature rt a)) _ _ h
  exact of_decide_eq_true hd

end EngramCache

variable {used : List (EngramArgs F)} {c : EngramCache F} {m : EngramMap F}

/-- Putting an entry with these ids is storing them. -/
theorem Refines.putEntry (h : Refines rt o used c m) (hapart : Apart rt used) {b : EngramArgs F}
    (hb : b ∈ used) {entry : EngramEntry F} (hentry : entry.signature = engramSignature rt b)
    {m' : EngramMap F} (hcounts : m'.counts = m.counts)
    (hids : ∀ k, m'.ids k = by
      classical exact if k = b.key rt then entry.memoryIds else m.ids k) :
    Refines rt o used (c.putEntry rt o b.query entry) m' where
  proper := h.proper.put _ _
  ids := by
    classical
    intro a ha
    rw [EngramCache.find_putEntry hapart ha hb c hentry, hids]
    by_cases hkey : a.key rt = b.key rt
    · simp [hkey]
    · simp only [if_neg hkey]
      exact h.ids a ha
  counts := by
    intro a ha
    rw [hcounts]
    exact h.counts a ha

theorem Refines.lookup (h : Refines rt o used c m) (hapart : Apart rt used) {b : EngramArgs F}
    (hb : b ∈ used) (topK : Option Nat) : Refines rt o used (c.lookup rt o b topK).2 m := by
  classical
  unfold EngramCache.lookup
  simp only
  split
  · rename_i entry hfind
    have hsignature := EngramCache.signature_of_find hfind
    have hput : Refines rt o used
        (c.putEntry rt o b.query { entry with hitCount := entry.hitCount + 1 }) m := by
      apply h.putEntry hapart hb
      · exact hsignature
      · rfl
      · intro k
        by_cases hk : k = b.key rt
        · rw [if_pos hk, hk, ← h.ids b hb]
          have hfind' : c.find rt o b = some entry := hfind
          rw [hfind']
          rfl
        · rw [if_neg hk]
    exact ⟨hput.proper, hput.ids, hput.counts⟩
  · exact ⟨h.proper, h.ids, h.counts⟩

theorem Refines.cache (h : Refines rt o used c m) (hapart : Apart rt used) {b : EngramArgs F}
    (hb : b ∈ used) (ids : List Text) :
    Refines rt o used (c.cache rt o b ids).2 (m.store o (b.key rt) ids) := by
  classical
  unfold EngramCache.cache EngramMap.store
  split
  · exact h
  · refine h.putEntry hapart hb rfl rfl ?_
    intro k
    simp only [Function.update_apply]

theorem Refines.recordResult (h : Refines rt o used c m) (hapart : Apart rt used)
    {b : EngramArgs F} (hb : b ∈ used) (ids : List Text) :
    Refines rt o used (c.recordResult rt o b ids).2 (m.record o (b.key rt) ids) := by
  classical
  unfold EngramCache.recordResult EngramMap.record
  split
  · exact h
  · have hcounted : Refines rt o used
        { c with
          queryCounts :=
            Function.update c.queryCounts (engramSignature rt b)
              (c.queryCounts (engramSignature rt b) + 1) }
        { m with counts := Function.update m.counts (b.key rt) (m.counts (b.key rt) + 1) } := by
      refine ⟨h.proper, h.ids, ?_⟩
      intro a ha
      simp only [Function.update_apply]
      by_cases hkey : a.key rt = b.key rt
      · rw [if_pos hkey, if_pos (same_place (o := o) hkey).2, h.counts b hb]
      · rw [if_neg hkey, if_neg (fun hsignature => hkey (hapart a ha b hb hsignature))]
        exact h.counts a ha
    have hcount := h.counts b hb
    simp only [Function.update_self]
    by_cases hless : m.counts (b.key rt) + 1 < o.cacheThreshold
    · rw [if_pos (show c.queryCounts (engramSignature rt b) + 1 < o.cacheThreshold by omega),
        if_pos hless]
      exact hcounted
    · rw [if_neg (show ¬ c.queryCounts (engramSignature rt b) + 1 < o.cacheThreshold by omega),
        if_neg hless]
      have hcached := hcounted.cache hapart hb ids
      exact ⟨hcached.proper, hcached.ids, hcached.counts⟩

theorem Refines.invalidateMemory (h : Refines rt o used c m) (id : Text) :
    Refines rt o used (c.invalidateMemory id).2
      { m with ids := fun k => (m.ids k).filter (· ≠ id) } := by
  have hsame (entry entry' : EngramEntry F) (hentry : EngramCache.without id entry = some entry') :
      entry'.signature = entry.signature := by
    unfold EngramCache.without at hentry
    simp only at hentry
    split at hentry
    · cases hentry
    · cases hentry
      rfl
  refine ⟨h.proper.sweep hsame, ?_, h.counts⟩
  intro a ha
  unfold EngramCache.invalidateMemory EngramCache.find
  simp only
  rw [Buckets.get_sweep _ h.proper hsame, ← h.ids a ha]
  unfold EngramCache.find
  cases Buckets.get EngramEntry.signature c.entries (primaryIndex rt o a.query)
      (engramSignature rt a) with
  | none => rfl
  | some entry =>
    simp only [Option.bind_some, EngramCache.without, Option.map_some, Option.getD_some]
    split
    · rename_i hempty
      rw [hempty]
      rfl
    · rfl

theorem Refines.empty : Refines rt o used EngramCache.empty (EngramMap.empty : EngramMap F) where
  proper := proper_nil _
  ids := fun _ _ => rfl
  counts := fun _ _ => rfl

/-- Every operation does to the cache what it does to the map. -/
theorem Refines.apply (h : Refines rt o used c m) (hapart : Apart rt used) {op : EngramOp F}
    (hop : ∀ a ∈ op.args, a ∈ used) : Refines rt o used (op.apply rt o c) (m.apply o rt op) := by
  cases op with
  | cache a ids => exact h.cache hapart (hop a List.mem_cons_self) ids
  | recordResult a ids => exact h.recordResult hapart (hop a List.mem_cons_self) ids
  | lookup a topK => exact h.lookup hapart (hop a List.mem_cons_self) topK
  | invalidateMemory id => exact h.invalidateMemory id
  | clear => exact Refines.empty

theorem Refines.foldl {ops : List (EngramOp F)} (h : Refines rt o used c m)
    (hapart : Apart rt used) (hops : ∀ op ∈ ops, ∀ a ∈ op.args, a ∈ used) :
    Refines rt o used (ops.foldl (EngramOp.apply rt o) c) (ops.foldl (EngramMap.apply o rt) m) := by
  induction ops generalizing c m with
  | nil => exact h
  | cons op rest ih =>
    rw [List.forall_mem_cons] at hops
    exact ih (h.apply hapart hops.1) hops.2

theorem Refines.answer (h : Refines rt o used c m) {a : EngramArgs F} (ha : a ∈ used)
    (topK : Option Nat) :
    (c.lookup rt o a topK).1 =
      (m.ids (a.key rt)).take (topK.getD (m.ids (a.key rt)).length) := by
  have hids := h.ids a ha
  have hfind : EngramCache.find rt o { c with totalLookups := c.totalLookups + 1 } a =
      c.find rt o a := rfl
  unfold EngramCache.lookup
  simp only [hfind]
  cases hentry : c.find rt o a with
  | some entry =>
    rw [hentry] at hids
    rw [← hids]
    rfl
  | none =>
    rw [hentry] at hids
    rw [← hids]
    simp

end Refinement

/-- After any sequence of operations, `lookup` answers as the map from keys to ids does, as long
as no two of the keys in use have one hash. -/
theorem EngramCache.lookup_eq (rt : EngramRuntime F) (o : EngramOptions) (ops : List (EngramOp F))
    (a : EngramArgs F) (topK : Option Nat)
    (h : HashesApart ((a :: ops.flatMap EngramOp.args).map fun b => (b.key rt).text rt)) :
    ((EngramOp.run rt o ops).lookup rt o a topK).1 =
      ((EngramMap.run o rt ops).ids (a.key rt)).take
        (topK.getD ((EngramMap.run o rt ops).ids (a.key rt)).length) := by
  have hapart : Apart rt (a :: ops.flatMap EngramOp.args) := by
    intro b hb b' hb' hsignature
    exact key_eq_of_text (h _ (List.mem_map_of_mem hb) _ (List.mem_map_of_mem hb') hsignature)
  have hrun : Refines rt o (a :: ops.flatMap EngramOp.args) (EngramOp.run rt o ops)
      (EngramMap.run o rt ops) := by
    refine Refines.empty.foldl hapart ?_
    intro op hop b hb
    exact List.mem_cons_of_mem _ (List.mem_flatMap.mpr ⟨op, hop, hb⟩)
  exact hrun.answer List.mem_cons_self topK

/-- A runtime that leaves characters as they are. -/
def sampleEngramRuntime : EngramRuntime SampleNumber where
  toPython := samplePython
  nfkc text := text

/-- The defaults of `EngramCache.__init__`, with a threshold of one. -/
def sampleEngramOptions : EngramOptions := ⟨100003, 1, 20, by decide, by decide, by decide⟩

/-- A query without a scope. -/
def sampleArgs : EngramArgs SampleNumber :=
  ⟨"green tea".toList, none, some ["tea".toList], by intro d hd; cases hd⟩

/-- A recorded answer is found, without the repetition and what was invalidated. -/
theorem lookup_sampleArgs :
    ((EngramOp.run sampleEngramRuntime sampleEngramOptions
      [.recordResult sampleArgs ["a".toList, "b".toList, "a".toList, "c".toList],
        .invalidateMemory "b".toList]).lookup sampleEngramRuntime sampleEngramOptions sampleArgs
      (some 5)).1 = ["a".toList, "c".toList] := by
  rw [EngramCache.lookup_eq]
  · have hids : EngramCache.deduped sampleEngramOptions
        ["a".toList, "b".toList, "a".toList, "c".toList] =
        ["a".toList, "b".toList, "c".toList] := by decide
    simp only [EngramMap.run, List.foldl_cons, List.foldl_nil, EngramMap.apply, EngramMap.record,
      EngramMap.store, hids, Function.update_self, reduceCtorEq, if_false,
      show ¬ EngramMap.empty.counts (sampleArgs.key sampleEngramRuntime) + 1 <
        sampleEngramOptions.cacheThreshold by decide]
    decide
  · intro x hx y hy _
    have hall : ∀ z ∈ (sampleArgs :: List.flatMap EngramOp.args
        [.recordResult sampleArgs ["a".toList, "b".toList, "a".toList, "c".toList],
          .invalidateMemory "b".toList]).map
          (fun b => (b.key sampleEngramRuntime).text sampleEngramRuntime),
        z = (sampleArgs.key sampleEngramRuntime).text sampleEngramRuntime := by
      intro z hz
      simpa [EngramOp.args] using hz
    rw [hall x hx, hall y hy]

end AgentMemory
