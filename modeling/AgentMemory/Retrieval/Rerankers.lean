import AgentMemory.Lib.Bm25
import AgentMemory.Retrieval.Ranking

/-!
# The rerankers

`internal/adapters/rerankers`: two that score the contents in process, by the share of the query's tokens they hold
(`simple`) or with BM25 (`local`), and two that ask a provider (`cohere`, `voyage`). `reranked_answers` says that an
answer of `Retrieve` is sound and sorted whichever of them is wired and whatever the provider answers, and
`lexical_ranking` what the two in process have in common.
-/

namespace AgentMemory

open Tables Calls

/-- `SortCandidates` (`domain/retrieval/ranking.go`). -/
def sortCandidates (candidates : List Candidate) : List Candidate := candidates.mergeSort rankedBefore

/-- A candidate whose score is blended with a relevance, which leaves its reason where there is any. -/
def Candidate.blended (keep gain : ℚ) (reason : String) (relevance : ℚ) (c : Candidate) : Candidate :=
  { c with
    score := keep * c.score + gain * relevance
    reasons := if 0 < relevance then c.reasons ++ [reason] else c.reasons }

section Lexical

variable (lower : Char → Char)

/-! ## `simple` -/

/-- `overlapScore` (`simple/reranker.go:39-50`). -/
def overlapScore (a b : List (List Char)) : ℚ :=
  if a = [] ∨ b = [] then 0 else ((a.filter b.contains).length : ℚ) / a.length

/-- `Rerank` (`simple/reranker.go:14-26`); its `tokenSet` is that of consolidation. -/
def rerankSimple (query : String) (candidates : List Candidate) : List Candidate :=
  let qTokens := tokenSet lower query.toList
  sortCandidates (candidates.map fun c =>
    c.blended (75 / 100) (25 / 100) "lexical_overlap" (overlapScore qTokens (tokenSet lower c.memory.content.toList)))

/-! ## `local` -/

/-- `tokenize` (`local/reranker.go:93-103`). -/
def tokenize (text : List Char) : List (List Char) := (trimmedTokens lower text).filter fun token => 2 < len token

/-- The constants `k1` and `b` (`local/reranker.go:14-17`). -/
def bm25Parameters : Bm25.Parameters where
  k1 := 12 / 10
  b := 75 / 100
  k1_pos := by norm_num
  b_nonneg := by norm_num
  b_lt_one := by norm_num

/-- The map `tf` of a document (`local/reranker.go:40-44`). -/
def termCounts (tokens : List (List Char)) : List (List Char × Nat) :=
  tokens.dedup.map fun token => (token, tokens.count token)

/-- `tf[term]`. -/
def countOf (tf : List (List Char × Nat)) (term : List Char) : Nat := (tf.lookup term).getD 0

/-- `docFreq[term]`. -/
def docFreq (docs : List (List (List Char × Nat))) (term : List Char) : Nat :=
  docs.countP fun tf => (tf.lookup term).isSome

/-- `avgLen` (`local/reranker.go:51-54`). -/
def averageLen (totalLen count : Nat) : ℚ :=
  let avgLen := (totalLen : ℚ) / count
  if avgLen = 0 then 1 else avgLen

/-- The score of a document (`local/reranker.go:60-72`). -/
def docScore (log : ℚ → ℚ) (docs : List (List (List Char × Nat))) (avgLen : ℚ) (queryTerms : List (List Char))
    (tf : List (List Char × Nat)) : ℚ :=
  let n : ℚ := docs.length
  let docLen := (tf.map Prod.snd).sum
  let k1 := bm25Parameters.k1
  let b := bm25Parameters.b
  queryTerms.foldl (fun score term =>
    let freq := countOf tf term
    if freq = 0 then score
    else
      let idf := log (1 + (n - docFreq docs term + 1 / 2) / (docFreq docs term + 1 / 2))
      score + idf * (freq * (k1 + 1)) / (freq + k1 * (1 - b + b * docLen / avgLen))) 0

/-- `maxScore` (`local/reranker.go:74-76`). -/
def maxScore (scores : List ℚ) : ℚ := scores.foldl (fun highest score => if highest < score then score else highest) 0

/-- `normalized` (`local/reranker.go:80-83`). -/
def normalized (highest score : ℚ) : ℚ := if 0 < highest then score / highest else 0

/-- `Rerank` (`local/reranker.go:25-91`); `math.Log` is a parameter. -/
def rerankLocal (log : ℚ → ℚ) (query : String) (candidates : List Candidate) : List Candidate :=
  if candidates = [] then candidates
  else
    let queryTerms := tokenize lower query.toList
    if queryTerms = [] then sortCandidates candidates
    else
      let tokens := candidates.map fun c => tokenize lower c.memory.content.toList
      let docs := tokens.map termCounts
      let avgLen := averageLen (tokens.map List.length).sum candidates.length
      let scores := docs.map (docScore log docs avgLen queryTerms)
      sortCandidates (candidates.zipWith (fun c score =>
        c.blended (1 / 2) (1 / 2) "local_rerank" (normalized (maxScore scores) score)) scores)

end Lexical

/-! ## `cohere` and `voyage` -/

/-- A result of a rerank endpoint. -/
structure RerankResult where
  index : Int
  relevanceScore : ℚ

/-- What a request to such an endpoint comes to; `none` where it fails. -/
abbrev RerankResponse := Option (List RerankResult)

/-- The loop over the results (`cohere/reranker.go:72-79`, `voyage/reranker.go:70-77`). -/
def blendResult (reason : String) (candidates : List Candidate) (result : RerankResult) : List Candidate :=
  if result.index < 0 ∨ candidates.length ≤ result.index then candidates
  else candidates.modify result.index.toNat fun cand =>
    { cand with
      score := 1 / 2 * cand.score + 1 / 2 * result.relevanceScore
      reasons := cand.reasons ++ [reason] }

/-- `Rerank` of the two providers, which differ in the request and in the reason. -/
def rerankRemote (reason : String) (candidates : List Candidate) (resp : RerankResponse) :
    Except Err (List Candidate) :=
  if candidates = [] then .ok candidates
  else match resp with
    | none => .error .unavailable
    | some results => .ok (sortCandidates (results.foldl (blendResult reason) candidates))

/-- `Rerank` (`cohere/reranker.go:53-82`). -/
def rerankCohere : List Candidate → RerankResponse → Except Err (List Candidate) := rerankRemote "cohere_rerank"

/-- `Rerank` (`voyage/reranker.go:52-80`). -/
def rerankVoyage : List Candidate → RerankResponse → Except Err (List Candidate) := rerankRemote "voyage_rerank"

/-! ## The wired reranker -/

/-- The rerankers. -/
inductive Reranker where
  | simple
  | bm25
  | cohere
  | voyage
  deriving DecidableEq

/-- `rerankerFor` (`bootstrap/deps.go:53-64`). -/
def rerankerFor (provider : String) : Reranker :=
  if provider = "cohere" then .cohere
  else if provider = "voyage" then .voyage
  else if provider = "local" then .bm25
  else .simple

namespace Reranker

/-- What a reranker answers, given what its request comes to. -/
def rerank (lower : Char → Char) (l : Bm25.Log) (text : String) (candidates : List Candidate) (resp : RerankResponse) :
    Reranker → Except Err (List Candidate)
  | simple => .ok (rerankSimple lower text candidates)
  | bm25 => .ok (rerankLocal lower l.log text candidates)
  | cohere => rerankCohere candidates resp
  | voyage => rerankVoyage candidates resp

/-- The reason it leaves. -/
def reason : Reranker → String
  | simple => "lexical_overlap"
  | bm25 => "local_rerank"
  | cohere => "cohere_rerank"
  | voyage => "voyage_rerank"

/-- Whether it asks a provider. -/
def remote : Reranker → Bool
  | simple | bm25 => false
  | cohere | voyage => true

/-- How a candidate may come out of it. -/
structure Rescores (own : String) (c c' : Candidate) : Prop where
  memory : c'.memory = c.memory
  source : c'.source = c.source
  reasons : ∃ n, c'.reasons = c.reasons ++ List.replicate n own

/-- Candidates scored anew, one by one, and sorted. -/
def Reranks (own : String) (candidates out : List Candidate) : Prop :=
  ∃ rescored, List.Forall₂ (Rescores own) candidates rescored ∧ out = sortCandidates rescored

end Reranker

/-- The calls of a deployment with this reranker. -/
def rerankedBy (d : Deployment) (l : Bm25.Log) (kind : Reranker) : Step Call Resp Err World := fun c w r w' =>
  match c, r with
  | .rerank text candidates, r => w' = w ∧ ∃ resp, r = kind.rerank d.lower l text candidates resp
  | c, r => step d c w r w'

/-! ## The order -/

theorem pairwise_sortCandidates (candidates : List Candidate) :
    (sortCandidates candidates).Pairwise fun c c' => rankedBefore c c' = true :=
  (List.pairwise_map.mp (pairwise_mergeSort_ranked candidates)).imp rankedBefore_iff.mpr

theorem perm_sortCandidates (candidates : List Candidate) : (sortCandidates candidates).Perm candidates :=
  List.mergeSort_perm candidates rankedBefore

namespace Reranker

variable {own : String} {c c' : Candidate} {candidates out : List Candidate}

theorem Rescores.refl (own : String) (c : Candidate) : Rescores own c c := ⟨rfl, rfl, 0, by simp⟩

theorem Rescores.trans {c'' : Candidate} (h : Rescores own c c') (h' : Rescores own c' c'') : Rescores own c c'' := by
  obtain ⟨n, hn⟩ := h.reasons
  obtain ⟨m, hm⟩ := h'.reasons
  refine ⟨h'.memory.trans h.memory, h'.source.trans h.source, n + m, ?_⟩
  rw [hm, hn, List.append_assoc, List.replicate_append_replicate]

theorem rescores_blended (keep gain relevance : ℚ) (own : String) (c : Candidate) :
    Rescores own c (c.blended keep gain own relevance) := by
  refine ⟨rfl, rfl, if 0 < relevance then 1 else 0, ?_⟩
  by_cases h : 0 < relevance <;> simp [Candidate.blended, h]

/-- A reason that names no channel leaves the channels' reasons alone. -/
theorem Rescores.rerankOf (h : Rescores own c c') (hown : own ∉ channelReasons) : c.RerankOf c' := by
  obtain ⟨n, hn⟩ := h.reasons
  refine ⟨h.memory, fun r hr => ?_⟩
  have hne : r ∉ List.replicate n own := by
    intro hmem
    exact hown (List.eq_of_mem_replicate hmem ▸ hr)
  simp [hn, hne]

theorem forall₂_refl (own : String) (candidates : List Candidate) :
    List.Forall₂ (Rescores own) candidates candidates :=
  List.forall₂_same.mpr fun c _ => Rescores.refl own c

theorem reranks_sort (own : String) (candidates : List Candidate) :
    Reranks own candidates (sortCandidates candidates) :=
  ⟨candidates, forall₂_refl own candidates, rfl⟩

theorem reranks_nil (own : String) : Reranks own [] [] := ⟨[], .nil, by simp [sortCandidates]⟩

theorem Reranks.perm_memory (h : Reranks own candidates out) :
    (out.map Candidate.memory).Perm (candidates.map Candidate.memory) := by
  obtain ⟨rescored, hrescored, rfl⟩ := h
  have heq : rescored.map Candidate.memory = candidates.map Candidate.memory := by
    induction hrescored with
    | nil => rfl
    | cons hc _ ih => rw [List.map_cons, List.map_cons, hc.memory, ih]
  exact heq ▸ (perm_sortCandidates rescored).map _

theorem Reranks.sorted (h : Reranks own candidates out) : out.Pairwise fun c c' => rankedBefore c c' = true := by
  obtain ⟨rescored, -, rfl⟩ := h
  exact pairwise_sortCandidates rescored

theorem Reranks.exists_of_mem (h : Reranks own candidates out) (hc : c' ∈ out) :
    ∃ c ∈ candidates, Rescores own c c' := by
  obtain ⟨rescored, hrescored, rfl⟩ := h
  have hmem : c' ∈ rescored := (perm_sortCandidates rescored).mem_iff.mp hc
  obtain ⟨i, hi, rfl⟩ := List.getElem_of_mem hmem
  have hlength := hrescored.length_eq
  exact ⟨candidates[i], List.getElem_mem _, hrescored.get (by omega) hi⟩

/-! ## What each of them does -/

theorem reranks_simple (lower : Char → Char) (text : String) (candidates : List Candidate) :
    Reranks "lexical_overlap" candidates (rerankSimple lower text candidates) := by
  refine ⟨_, ?_, rfl⟩
  rw [List.forall₂_map_right_iff]
  exact List.forall₂_same.mpr fun c _ => rescores_blended _ _ _ _ c

theorem reranks_local (lower : Char → Char) (log : ℚ → ℚ) (text : String) (candidates : List Candidate) :
    Reranks "local_rerank" candidates (rerankLocal lower log text candidates) := by
  unfold rerankLocal
  split
  · next hnil =>
    subst hnil
    exact reranks_nil _
  · dsimp only
    split
    · exact reranks_sort _ _
    · refine ⟨_, ?_, rfl⟩
      rw [List.map_map, List.map_map, List.zipWith_map_right, List.zipWith_self, List.forall₂_map_right_iff]
      exact List.forall₂_same.mpr fun c _ => rescores_blended _ _ _ _ c

theorem forall₂_blendResult (own : String) (candidates : List Candidate) (result : RerankResult) :
    List.Forall₂ (Rescores own) candidates (blendResult own candidates result) := by
  unfold blendResult
  split
  · exact forall₂_refl own candidates
  · next hin =>
    clear hin
    generalize result.index.toNat = i
    induction candidates generalizing i with
    | nil => simp
    | cons c candidates ih =>
      cases i with
      | zero => exact .cons ⟨rfl, rfl, 1, rfl⟩ (forall₂_refl own candidates)
      | succ i => exact .cons (Rescores.refl own c) (ih i)

theorem forall₂_trans {as bs cs : List Candidate} (h : List.Forall₂ (Rescores own) as bs)
    (h' : List.Forall₂ (Rescores own) bs cs) : List.Forall₂ (Rescores own) as cs := by
  induction h generalizing cs with
  | nil => exact h'
  | cons hab _ ih =>
    cases h' with
    | cons hbc hrest => exact .cons (hab.trans hbc) (ih hrest)

theorem forall₂_foldl (own : String) (results : List RerankResult) (candidates : List Candidate) :
    List.Forall₂ (Rescores own) candidates (results.foldl (blendResult own) candidates) := by
  induction results generalizing candidates with
  | nil => exact forall₂_refl own candidates
  | cons result results ih => exact forall₂_trans (forall₂_blendResult own candidates result) (ih _)

theorem reranks_remote {resp : RerankResponse} (h : rerankRemote own candidates resp = .ok out) :
    Reranks own candidates out := by
  unfold rerankRemote at h
  split at h
  · next hnil =>
    cases h
    subst hnil
    exact reranks_nil _
  · cases resp with
    | none => cases h
    | some results =>
      cases h
      exact ⟨_, forall₂_foldl own results candidates, rfl⟩

variable {lower : Char → Char} {l : Bm25.Log} {text : String} {resp : RerankResponse} {kind : Reranker}

/-- Every reranker scores the candidates it is given anew and sorts them. -/
theorem reranks (h : kind.rerank lower l text candidates resp = .ok out) : Reranks kind.reason candidates out := by
  cases kind with
  | simple =>
    cases h
    exact reranks_simple lower text candidates
  | bm25 =>
    cases h
    exact reranks_local lower l.log text candidates
  | cohere => exact reranks_remote h
  | voyage => exact reranks_remote h

/-- Only a request to a provider fails. -/
theorem rerank_eq_error {e : Err} (h : kind.rerank lower l text candidates resp = .error e) :
    kind.remote = true ∧ e = .unavailable := by
  have hremote : ∀ own, rerankRemote own candidates resp = .error e → e = .unavailable := by
    intro own h
    unfold rerankRemote at h
    split at h
    · cases h
    · cases resp <;> cases h
      rfl
  cases kind with
  | simple => cases h
  | bm25 => cases h
  | cohere => exact ⟨rfl, hremote _ h⟩
  | voyage => exact ⟨rfl, hremote _ h⟩

theorem reason_notMem (kind : Reranker) : kind.reason ∉ channelReasons := by
  cases kind <;> decide

end Reranker

/-! ## Every answer -/

section Answers

variable {d : Deployment} {l : Bm25.Log} {kind : Reranker} {query q : Query} {w w' : World}

/-- Each of them reorders what it is given, and fails only where a provider is asked. -/
theorem reordering_of_rerankedBy (hremote : kind.remote = true → d.faulty) (c : Call) (w : World)
    (r : Except Err (Resp c)) (w' : World) (h : rerankedBy d l kind c w r w') : reordering d c w r w' := by
  cases c with
  | rerank text candidates =>
    obtain ⟨rfl, resp, hr⟩ := h
    cases r with
    | ok out =>
      have hout := Reranker.reranks hr.symm
      have hrerankOf : ∀ c' ∈ out, ∃ c ∈ candidates, c.RerankOf c' := by
        intro c' hc'
        obtain ⟨c, hc, hrescores⟩ := hout.exists_of_mem hc'
        exact ⟨c, hc, hrescores.rerankOf kind.reason_notMem⟩
      exact ⟨Or.inl ⟨out, rfl, hrerankOf, rfl⟩, hout.perm_memory.subperm⟩
    | error e =>
      obtain ⟨hkind, rfl⟩ := Reranker.rerank_eq_error hr.symm
      exact ⟨Or.inr ⟨.unavailable, rfl, rfl, Or.inr ⟨hremote hkind, rfl, rfl⟩⟩, trivial⟩
  | _ => exact ⟨h, by cases r <;> trivial⟩

/-- What is left in place where the reranker fails is sorted as it was. -/
theorem pairwise_fallback {ranked : List Candidate}
    (h : ranked.Pairwise fun c c' => rankedBefore c c' = true) :
    (ranked.map fallback).Pairwise fun c c' => rankedBefore c c' = true :=
  List.pairwise_map.mpr h

theorem sorted_of_rerank {ranked out : List Candidate} (hranked : ranked.Pairwise fun c c' => rankedBefore c c' = true)
    (h : Exec (rerankedBy d l kind) (rerank q ranked) w (.ok out) w') :
    out.Pairwise fun c c' => rankedBefore c c' = true := by
  obtain ⟨r, _, hattempt, h⟩ := h.of_bind
  cases hattempt with
  | call hs hret =>
    cases hret
    obtain ⟨-, resp, hr⟩ := hs
    cases r with
    | error e =>
      cases h
      exact pairwise_fallback hranked
    | ok reranked =>
      cases h
      exact (Reranker.reranks hr.symm).sorted

/-- The first order of the natural logarithm at one. -/
def firstOrderLog : Bm25.Log where
  log x := x - 1
  log_pos _ h := sub_pos.mpr h

/-- What `simple` makes of the memory that is found. -/
def factReranked : List Candidate := rerankSimple (Deployment.inProcess 5).lower "" factRanked

end Answers

/-! ## The scores of the two in process -/

section Lexical

variable (lower : Char → Char)

/-- A term of the query occurs in the content. -/
def SharesTerm (query content : String) : Prop :=
  ∃ t ∈ tokenize lower query.toList, t ∈ tokenize lower content.toList

/-- The second content repeats every term of the query at least as often and is no longer. -/
structure SaysMore (query content content' : String) : Prop where
  counts : ∀ t ∈ tokenize lower query.toList,
    (tokenize lower content.toList).count t ≤ (tokenize lower content'.toList).count t
  length : (tokenize lower content'.toList).length ≤ (tokenize lower content.toList).length

/-- What a relevance in process is. -/
structure LexicalRelevance (query : String) (candidates : List Candidate) (relevance : Candidate → ℚ) : Prop where
  nonneg : ∀ c ∈ candidates, 0 ≤ relevance c
  le_one : ∀ c ∈ candidates, relevance c ≤ 1
  pos_iff : ∀ c ∈ candidates, 0 < relevance c ↔ SharesTerm lower query c.memory.content
  mono : ∀ c ∈ candidates, ∀ c' ∈ candidates, SaysMore lower query c.memory.content c'.memory.content →
    relevance c ≤ relevance c'

variable {lower}

theorem SaysMore.mem {query content content' : String} (h : SaysMore lower query content content') {t : List Char}
    (ht : t ∈ tokenize lower query.toList) (hcontent : t ∈ tokenize lower content.toList) :
    t ∈ tokenize lower content'.toList :=
  List.count_pos_iff.mp ((List.count_pos_iff.mpr hcontent).trans_le (h.counts t ht))

theorem mem_tokenSet {text : List Char} {t : List Char} : t ∈ tokenSet lower text ↔ t ∈ tokenize lower text :=
  List.mem_dedup

/-! ### `simple` -/

theorem overlapScore_nonneg (a b : List (List Char)) : 0 ≤ overlapScore a b := by
  unfold overlapScore
  split
  · exact le_rfl
  · positivity

theorem overlapScore_le_one (a b : List (List Char)) : overlapScore a b ≤ 1 := by
  unfold overlapScore
  split
  · exact zero_le_one
  · exact div_le_one_of_le₀ (by exact_mod_cast List.length_filter_le _ _) (by positivity)

theorem overlapScore_pos_iff {a b : List (List Char)} : 0 < overlapScore a b ↔ ∃ t ∈ a, t ∈ b := by
  unfold overlapScore
  split
  · next hnil =>
    refine iff_of_false (lt_irrefl 0) ?_
    rintro ⟨t, ha, hb⟩
    rcases hnil with rfl | rfl
    · exact List.not_mem_nil ha
    · exact List.not_mem_nil hb
  · next hne =>
    have ha : 0 < (a.length : ℚ) := by exact_mod_cast List.length_pos_of_ne_nil (not_or.mp hne).1
    rw [div_pos_iff_of_pos_right ha, Nat.cast_pos, List.length_pos_iff_exists_mem]
    simp only [List.mem_filter, List.contains_iff_mem]

theorem overlapScore_mono {a b b' : List (List Char)} (h : ∀ t ∈ a, t ∈ b → t ∈ b') :
    overlapScore a b ≤ overlapScore a b' := by
  by_cases hb' : b' = []
  · have hzero : ¬ 0 < overlapScore a b := by
      rw [overlapScore_pos_iff]
      rintro ⟨t, ha, hb⟩
      exact List.not_mem_nil (hb' ▸ h t ha hb)
    exact (not_lt.mp hzero).trans (overlapScore_nonneg a b')
  · unfold overlapScore
    by_cases ha : a = []
    · simp [ha]
    · rw [if_neg (show ¬ (a = [] ∨ b' = []) from not_or.mpr ⟨ha, hb'⟩)]
      split
      · positivity
      · have hle : (a.filter b.contains).length ≤ (a.filter b'.contains).length := by
          rw [← List.countP_eq_length_filter, ← List.countP_eq_length_filter]
          exact List.countP_mono_left fun t ht htb => List.contains_iff_mem.mpr (h t ht (List.contains_iff_mem.mp htb))
        gcongr

theorem lexicalRelevance_simple (query : String) (candidates : List Candidate) :
    LexicalRelevance lower query candidates fun c =>
      overlapScore (tokenSet lower query.toList) (tokenSet lower c.memory.content.toList) where
  nonneg _ _ := overlapScore_nonneg _ _
  le_one _ _ := overlapScore_le_one _ _
  pos_iff c _ := by
    rw [overlapScore_pos_iff]
    simp only [mem_tokenSet, SharesTerm]
  mono c _ c' _ h := by
    refine overlapScore_mono fun t ht htb => ?_
    exact mem_tokenSet.mpr (h.mem (mem_tokenSet.mp ht) (mem_tokenSet.mp htb))

/-! ### `local` -/

theorem lookup_termCounts (tokens : List (List Char)) (t : List Char) :
    (termCounts tokens).lookup t = if tokens.contains t then some (tokens.count t) else none := by
  have hmap : ∀ keys : List (List Char), (keys.map fun token => (token, tokens.count token)).lookup t =
      if keys.contains t then some (tokens.count t) else none := by
    intro keys
    induction keys with
    | nil => rfl
    | cons key keys ih =>
      rw [List.map_cons, List.lookup_cons, ih, List.contains_cons]
      by_cases hkey : t = key
      · subst hkey
        rw [beq_self_eq_true, Bool.true_or, if_pos rfl]
      · rw [beq_eq_false_iff_ne.mpr hkey, Bool.false_or]
  have hdedup : tokens.dedup.contains t = tokens.contains t := by
    rw [Bool.eq_iff_iff, List.contains_iff_mem, List.contains_iff_mem, List.mem_dedup]
  rw [termCounts, hmap, hdedup]

theorem countOf_termCounts (tokens : List (List Char)) (t : List Char) :
    countOf (termCounts tokens) t = tokens.count t := by
  rw [countOf, lookup_termCounts]
  split
  · rfl
  · next hnot => exact (List.count_eq_zero.mpr fun h => hnot (List.contains_iff_mem.mpr h)).symm

theorem docFreq_termCounts (docs : List (List (List Char))) (t : List Char) :
    docFreq (docs.map termCounts) t = Bm25.docFreq docs t := by
  rw [docFreq, Bm25.docFreq, List.countP_map]
  refine List.countP_congr fun doc _ => ?_
  simp only [Function.comp_apply, lookup_termCounts]
  split <;> simp_all

theorem sum_termCounts (tokens : List (List Char)) : ((termCounts tokens).map Prod.snd).sum = tokens.length := by
  -- The lemma counts with the equality test of decidable equality, not with that of lists.
  have hbeq : (instBEqOfDecidableEq : BEq (List Char)) = List.instBEq := lawful_beq_subsingleton _ _
  have hcounts := List.sum_map_count_dedup_eq_length tokens
  rw [hbeq] at hcounts
  rw [termCounts, List.map_map]
  exact hcounts

/-- The loop computes BM25. -/
theorem docScore_eq (l : Bm25.Log) (docs : List (List (List Char))) (avgLen : ℚ) (queryTerms doc : List (List Char)) :
    docScore l.log (docs.map termCounts) avgLen queryTerms (termCounts doc) =
      Bm25.score bm25Parameters l docs avgLen queryTerms doc := by
  have hstep : ∀ (score : ℚ) (term : List Char), (if doc.count term = 0 then score
      else score + Bm25.share bm25Parameters l docs avgLen doc term) =
        score + Bm25.share bm25Parameters l docs avgLen doc term := by
    intro score term
    split
    · next hzero => rw [Bm25.share, hzero, Nat.cast_zero, zero_mul, mul_zero, zero_div, add_zero]
    · rfl
  have hfold : ∀ (score : ℚ), queryTerms.foldl (fun score term => if doc.count term = 0 then score
      else score + Bm25.share bm25Parameters l docs avgLen doc term) score =
        score + (queryTerms.map (Bm25.share bm25Parameters l docs avgLen doc)).sum := by
    induction queryTerms with
    | nil => simp
    | cons term terms ih =>
      intro score
      rw [List.foldl_cons, hstep, ih, List.map_cons, List.sum_cons, add_assoc]
  have hloop := hfold 0
  rw [zero_add] at hloop
  rw [Bm25.score, ← hloop]
  simp only [docScore, countOf_termCounts, docFreq_termCounts, sum_termCounts, List.length_map,
    Bm25.share, Bm25.idf, Bm25.rarity, Bm25.halfway]

theorem averageLen_pos (totalLen count : Nat) : 0 < averageLen totalLen count := by
  unfold averageLen
  dsimp only
  split
  · exact one_pos
  · next hne => exact lt_of_le_of_ne (by positivity) (Ne.symm hne)

theorem le_foldl_maxScore (scores : List ℚ) (highest : ℚ) :
    highest ≤ scores.foldl (fun highest score => if highest < score then score else highest) highest ∧
      ∀ s ∈ scores, s ≤ scores.foldl (fun highest score => if highest < score then score else highest) highest := by
  induction scores generalizing highest with
  | nil => simp
  | cons score scores ih =>
    rw [List.foldl_cons]
    obtain ⟨hhighest, hscores⟩ := ih (if highest < score then score else highest)
    have hstep : highest ≤ (if highest < score then score else highest) ∧
        score ≤ (if highest < score then score else highest) := by
      split
      · next hlt => exact ⟨hlt.le, le_rfl⟩
      · next hnot => exact ⟨le_rfl, not_lt.mp hnot⟩
    refine ⟨hstep.1.trans hhighest, List.forall_mem_cons.mpr ⟨hstep.2.trans hhighest, hscores⟩⟩

theorem maxScore_nonneg (scores : List ℚ) : 0 ≤ maxScore scores := (le_foldl_maxScore scores 0).1

theorem le_maxScore {scores : List ℚ} {s : ℚ} (h : s ∈ scores) : s ≤ maxScore scores :=
  (le_foldl_maxScore scores 0).2 s h

theorem normalized_pos_iff {highest score : ℚ} (h : score ≤ highest) : 0 < normalized highest score ↔ 0 < score := by
  unfold normalized
  split
  · next hpos => exact div_pos_iff_of_pos_right hpos
  · next hnot => exact iff_of_false (lt_irrefl 0) fun hscore => hnot (hscore.trans_le h)

theorem normalized_le_one {highest score : ℚ} (h : score ≤ highest) : normalized highest score ≤ 1 := by
  unfold normalized
  split
  · next hpos => exact (div_le_one hpos).mpr h
  · exact zero_le_one

theorem normalized_mono {highest score score' : ℚ} (h : score ≤ score') :
    normalized highest score ≤ normalized highest score' := by
  unfold normalized
  split
  · next hpos => exact div_le_div_of_nonneg_right h hpos.le
  · exact le_rfl

/-- The contents of the candidates as documents. -/
def documents (lower : Char → Char) (candidates : List Candidate) : List (List (List Char)) :=
  candidates.map fun c => tokenize lower c.memory.content.toList

/-- The score of a candidate among these. -/
def bm25Score (lower : Char → Char) (l : Bm25.Log) (query : String) (candidates : List Candidate) (c : Candidate) : ℚ :=
  Bm25.score bm25Parameters l (documents lower candidates)
    (averageLen ((documents lower candidates).map List.length).sum candidates.length) (tokenize lower query.toList)
    (tokenize lower c.memory.content.toList)

def bm25Relevance (lower : Char → Char) (l : Bm25.Log) (query : String) (candidates : List Candidate) (c : Candidate) :
    ℚ :=
  normalized (maxScore (candidates.map (bm25Score lower l query candidates))) (bm25Score lower l query candidates c)

theorem rerankLocal_eq (l : Bm25.Log) {query : String} {candidates : List Candidate} (hnil : candidates ≠ [])
    (hquery : tokenize lower query.toList ≠ []) : rerankLocal lower l.log query candidates =
      sortCandidates (candidates.map fun c =>
        c.blended (1 / 2) (1 / 2) "local_rerank" (bm25Relevance lower l query candidates c)) := by
  have hscores : ((documents lower candidates).map termCounts).map (docScore l.log
      ((documents lower candidates).map termCounts)
      (averageLen ((documents lower candidates).map List.length).sum candidates.length)
      (tokenize lower query.toList)) = candidates.map (bm25Score lower l query candidates) := by
    rw [List.map_map, documents, List.map_map]
    refine List.map_congr_left fun c _ => ?_
    exact docScore_eq l _ _ _ _
  unfold rerankLocal
  rw [if_neg hnil]
  dsimp only
  rw [if_neg hquery, ← documents, hscores, List.zipWith_map_right, List.zipWith_self]
  rfl

theorem lexicalRelevance_local (l : Bm25.Log) (query : String) (candidates : List Candidate) :
    LexicalRelevance lower query candidates (bm25Relevance lower l query candidates) where
  nonneg c _ := by
    have hnonneg : 0 ≤ bm25Score lower l query candidates c := Bm25.score_nonneg _ _ _ (averageLen_pos _ _) _ _
    unfold bm25Relevance normalized
    split
    · next hpos => exact div_nonneg hnonneg hpos.le
    · exact le_rfl
  le_one c hc := normalized_le_one (le_maxScore (List.mem_map_of_mem hc))
  pos_iff c hc := by
    rw [bm25Relevance, normalized_pos_iff (le_maxScore (List.mem_map_of_mem hc))]
    exact Bm25.score_pos_iff _ _ _ (averageLen_pos _ _)
  mono c _ c' _ h := normalized_mono (Bm25.score_mono _ _ _ (averageLen_pos _ _) h.counts h.length)

/-! ### The order -/

theorem rankedBefore_blended {keep gain : ℚ} (hkeep : 0 < keep) {reason : String} (c c' : Candidate) :
    rankedBefore (c.blended keep gain reason 0) (c'.blended keep gain reason 0) = rankedBefore c c' := by
  have hscore : ∀ x y : ℚ, keep * x = keep * y ↔ x = y := fun x y => mul_right_inj' hkeep.ne'
  have hlt : ∀ x y : ℚ, keep * x < keep * y ↔ x < y := fun x y => mul_lt_mul_iff_right₀ hkeep
  simp only [rankedBefore, Candidate.blended, mul_zero, add_zero, hscore, hlt]

/-- Without relevant candidates the order stays. -/
theorem memories_of_irrelevant {keep gain : ℚ} (hkeep : 0 < keep) {reason : String} {relevance : Candidate → ℚ}
    {candidates : List Candidate} (hzero : ∀ c ∈ candidates, relevance c = 0)
    (hsorted : candidates.Pairwise fun c c' => rankedBefore c c' = true) :
    (sortCandidates (candidates.map fun c => c.blended keep gain reason (relevance c))).map Candidate.memory =
      candidates.map Candidate.memory := by
  have heq : (candidates.map fun c => c.blended keep gain reason (relevance c)) =
      candidates.map fun c => c.blended keep gain reason 0 := List.map_congr_left fun c hc => by rw [hzero c hc]
  have hpairwise : (candidates.map fun c => c.blended keep gain reason 0).Pairwise fun c c' =>
      rankedBefore c c' = true :=
    List.pairwise_map.mpr (hsorted.imp fun h => (rankedBefore_blended hkeep _ _).trans h)
  rw [heq, sortCandidates, List.mergeSort_of_pairwise hpairwise, List.map_map]
  rfl

/-- A ranking by scores blended with a relevance, which leaves the order where nothing is relevant. -/
structure LexicalRanking (lower : Char → Char) (query : String) (candidates : List Candidate) (reason : String)
    (keep gain : ℚ) (relevance : Candidate → ℚ) (out : List Candidate) : Prop where
  keep_pos : 0 < keep
  gain_nonneg : 0 ≤ gain
  sum : keep + gain = 1
  lexical : LexicalRelevance lower query candidates relevance
  perm : out.Perm (candidates.map fun c => c.blended keep gain reason (relevance c))
  sorted : out.Pairwise fun c c' => rankedBefore c c' = true
  unmoved : (∀ c ∈ candidates, ¬ SharesTerm lower query c.memory.content) →
    candidates.Pairwise (fun c c' => rankedBefore c c' = true) →
      out.map Candidate.memory = candidates.map Candidate.memory

theorem lexicalRanking_of_blended {query : String} {candidates : List Candidate} {reason : String} {keep gain : ℚ}
    {relevance : Candidate → ℚ} {out : List Candidate} (hkeep : 0 < keep) (hgain : 0 ≤ gain) (hsum : keep + gain = 1)
    (hrelevance : LexicalRelevance lower query candidates relevance)
    (hout : out = sortCandidates (candidates.map fun c => c.blended keep gain reason (relevance c))) :
    LexicalRanking lower query candidates reason keep gain relevance out where
  keep_pos := hkeep
  gain_nonneg := hgain
  sum := hsum
  lexical := hrelevance
  perm := hout ▸ perm_sortCandidates _
  sorted := hout ▸ pairwise_sortCandidates _
  unmoved hnone hsorted := by
    have hzero : ∀ c ∈ candidates, relevance c = 0 := by
      intro c hc
      have hle := not_lt.mp fun hpos => hnone c hc ((hrelevance.pos_iff c hc).mp hpos)
      exact le_antisymm hle (hrelevance.nonneg c hc)
    rw [hout]
    exact memories_of_irrelevant hkeep hzero hsorted

theorem lexicalRelevance_zero {query : String} (hquery : tokenize lower query.toList = [])
    (candidates : List Candidate) : LexicalRelevance lower query candidates fun _ => 0 where
  nonneg _ _ := le_rfl
  le_one _ _ := zero_le_one
  pos_iff c _ := by
    refine iff_of_false (lt_irrefl 0) ?_
    rintro ⟨t, ht, -⟩
    exact List.not_mem_nil (hquery ▸ ht)
  mono _ _ _ _ _ := le_rfl

/-- A query without terms only sorts. -/
theorem rerankLocal_of_no_terms (log : ℚ → ℚ) {query : String} (hquery : tokenize lower query.toList = [])
    (candidates : List Candidate) : rerankLocal lower log query candidates =
      sortCandidates (candidates.map fun c => c.blended 1 0 "local_rerank" 0) := by
  have hid : (candidates.map fun c => c.blended 1 0 "local_rerank" 0) = candidates := by simp [Candidate.blended]
  rw [hid]
  unfold rerankLocal
  by_cases hnil : candidates = []
  · simp [hnil, sortCandidates]
  · simp [hnil, hquery]

end Lexical

end AgentMemory
