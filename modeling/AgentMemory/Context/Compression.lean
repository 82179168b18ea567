import AgentMemory.Context.Budget
import AgentMemory.Lib.Words

/-!
# What compressing does to the tokens

`EnforceBudget` cuts a memory of more than 120 words after its second sentence and adds an
ellipsis, which counts as a word (`compression.go:66-77`). A text that has no second end of a
sentence, or has it in its last word, therefore grows. `enforced_iff` says that this is the only
way in which the budget, or the estimate of a memory, goes wrong.
-/

namespace AgentMemory

open Words

/-! ## Words -/

theorem length_fields (text : List Char) : (fields text).length = starts isSpace true text := by
  rw [fields, ← (length_filter_splitOnP text).1]
  congr 1
  apply List.filter_congr
  intro word _
  cases word <;> rfl

/-- A sentence ends here (`compression.go:105`). -/
def sentenceEnd (r : Char) : Bool := r = '.' ∨ r = '!' ∨ r = '?'

theorem not_space_of_sentenceEnd {r : Char} (h : sentenceEnd r = true) : isSpace r = false := by
  obtain rfl | rfl | rfl := of_decide_eq_true h
  · decide
  · decide
  · decide

/-- A word begins after two ends of sentences. -/
def WordAfterTwoSentences (text : List Char) : Prop :=
  ∃ before gap after, text = before ++ gap :: after ∧ 2 ≤ before.countP sentenceEnd ∧ isSpace gap = true ∧
    ∃ r ∈ after, isSpace r = false

/-- What `leadingSentences` cuts a text to: the shortest start with so many ends. -/
theorem of_sentencePrefix {n : Nat} {text found : List Char} (hn : n ≠ 0)
    (h : sentencePrefix n text = some found) :
    ∃ init r rest, found = init ++ [r] ∧ sentenceEnd r = true ∧ text = found ++ rest ∧
      found.countP sentenceEnd = n := by
  induction text generalizing n found with
  | nil => cases h
  | cons c text ih =>
    unfold sentencePrefix at h
    split at h
    · next hend =>
      have hend : sentenceEnd c = true := decide_eq_true hend
      split at h
      · next hone =>
        obtain rfl := Option.some.inj h
        exact ⟨[], c, text, rfl, hend, rfl, by simp [hend, hone]⟩
      · next hmore =>
        obtain ⟨found', hfound, rfl⟩ := Option.map_eq_some_iff.mp h
        obtain ⟨init, r, rest, rfl, hr, htext, hcount⟩ := ih (by omega) hfound
        refine ⟨c :: init, r, rest, rfl, hr, by rw [htext]; rfl, ?_⟩
        rw [List.countP_cons_of_pos hend, hcount]
        omega
    · next hend =>
      have hend : ¬ sentenceEnd c = true := fun h => hend (of_decide_eq_true h)
      obtain ⟨found', hfound, rfl⟩ := Option.map_eq_some_iff.mp h
      obtain ⟨init, r, rest, rfl, hr, htext, hcount⟩ := ih hn hfound
      exact ⟨c :: init, r, rest, rfl, hr, by rw [htext]; rfl, by rw [List.countP_cons_of_neg hend, hcount]⟩

/-- A text with that many ends is cut within any start that has them. -/
theorem sentencePrefix_append {n : Nat} {before : List Char} (hn : n ≠ 0) (h : n ≤ before.countP sentenceEnd)
    (after : List Char) :
    ∃ found rest, sentencePrefix n (before ++ after) = some found ∧ before = found ++ rest := by
  induction before generalizing n with
  | nil => exact absurd (Nat.le_zero.mp h) hn
  | cons c before ih =>
    rw [List.cons_append]
    unfold sentencePrefix
    by_cases hend : sentenceEnd c = true
    · rw [if_pos (of_decide_eq_true hend)]
      rw [List.countP_cons_of_pos hend] at h
      split
      · exact ⟨[c], before, rfl, rfl⟩
      · next hmore =>
        obtain ⟨found, rest, hfound, rfl⟩ := ih (Nat.sub_ne_zero_of_lt (by omega : 1 < n)) (by omega)
        exact ⟨c :: found, rest, by rw [hfound]; rfl, rfl⟩
    · rw [if_neg (fun hc => hend (decide_eq_true hc))]
      rw [List.countP_cons_of_neg hend] at h
      obtain ⟨found, rest, hfound, rfl⟩ := ih hn h
      exact ⟨c :: found, rest, by rw [hfound]; rfl, rfl⟩

/-- Trimming keeps the words. -/
theorem length_fields_trimSpace (text : List Char) : (fields (trimSpace text)).length = (fields text).length := by
  rw [length_fields, length_fields, trimSpace, starts_rdropWhile, starts_dropWhile]

/-- Cutting a text to two sentences loses words exactly where a word begins after them. -/
theorem leadingSentences_lt_iff (text : List Char) :
    (fields (leadingSentences text 2)).length < (fields text).length ↔ WordAfterTwoSentences text := by
  unfold leadingSentences
  cases hfound : sentencePrefix 2 text with
  | none =>
    refine iff_of_false (Nat.lt_irrefl _) fun ⟨before, gap, after, htext, hcount, _⟩ => ?_
    obtain ⟨found, rest, hcut, -⟩ := sentencePrefix_append (by omega) hcount (gap :: after)
    rw [htext, hcut] at hfound
    cases hfound
  | some found =>
    obtain ⟨init, r, rest, rfl, hr, htext, hcount⟩ := of_sentencePrefix (by omega) hfound
    simp only [length_fields_trimSpace]
    have hwords : (fields text).length = (fields (init ++ [r])).length + starts isSpace false rest := by
      rw [length_fields, length_fields, htext, starts_append, freshAfter_append, not_space_of_sentenceEnd hr]
    rw [hwords, Nat.lt_add_right_iff_pos, starts_false_pos]
    constructor
    · intro ⟨before, gap, after, hrest, hgap, hafter⟩
      refine ⟨init ++ [r] ++ before, gap, after, ?_, ?_, hgap, hafter⟩
      · rw [htext, hrest, List.append_assoc (init ++ [r])]
      · rw [List.countP_append, hcount]
        exact Nat.le_add_right 2 _
    · intro ⟨before, gap, after, htext', hcount', hgap, hafter⟩
      obtain ⟨found, between, hcut, rfl⟩ := sentencePrefix_append (by omega) hcount' (gap :: after)
      rw [← htext', hfound] at hcut
      obtain rfl := Option.some.inj hcut
      refine ⟨between, gap, after, ?_, hgap, hafter⟩
      rw [htext', List.append_assoc] at htext
      exact (List.append_cancel_left htext).symm

/-- The ellipsis is a word of its own. -/
theorem length_fields_ellipsis (text : List Char) :
    (fields (text ++ " …".toList)).length = (fields text).length + 1 := by
  have hword : ∀ fresh, starts isSpace fresh " …".toList = 1 := by
    intro fresh
    rw [show " …".toList = [' ', '…'] from rfl, starts_cons_of_blank (by decide), starts_cons_of_not_blank (by decide)]
    rfl
  rw [length_fields, length_fields, starts_append, hword]

theorem length_fields_compressed (content : String) :
    (fields (compressed content).toList).length = (fields (leadingSentences content.toList 2)).length + 1 := by
  rw [compressed, String.toList_ofList, length_fields_ellipsis]

/-! ## Tokens -/

/-- A memory that compressing does not make longer. -/
def Compressible (mem : Memory) : Prop :=
  120 < (fields mem.content.toList).length → WordAfterTwoSentences mem.content.toList

/-- Every word counts, so a memory grows exactly where its words do. -/
theorem growth_nonpos_iff (mem : Memory) : growth mem ≤ 0 ↔ Compressible mem := by
  unfold growth shownMemory Compressible
  split
  · next hshort =>
    refine iff_of_true (by omega) fun hlong => absurd hlong (by omega)
  · next hlong =>
    have hwords := length_fields_compressed mem.content
    rw [← leadingSentences_lt_iff, estimateTokens, estimateTokens, hwords]
    omega

/-! ## The budget -/

/-- What `EnforceBudget` owes its caller: the budget, or a single memory; an estimate that counts
the memories that are left; and none of them longer than it was. -/
structure Enforced (pack : ContextPack) (budget : Int) (out : ContextPack) : Prop where
  within : out.tokenEstimate ≤ budget ∨ out.memories.length ≤ 1
  counted : out.tokenEstimate = contentTokens out.memories
  shorter : ∀ mem ∈ pack.memories, ∀ left ∈ out.memories, left.id = mem.id →
    estimateTokens left.content ≤ estimateTokens mem.content

variable {pack : ContextPack} {candidates : List Candidate} {budget : Int} {sorting : SliceSort} {refs : List Ref}
  {out : ContextPack}

theorem contentTokens_shown (mems : List Memory) :
    (contentTokens (mems.map shownMemory) : Int) = contentTokens mems + (mems.map growth).sum := by
  induction mems with
  | nil => rfl
  | cons mem rest ih =>
    simp only [contentTokens, List.map_cons, List.sum_cons, growth] at ih ⊢
    omega

theorem sum_growth_nonpos {mems : List Memory} (h : ∀ mem ∈ mems, growth mem ≤ 0) : (mems.map growth).sum ≤ 0 := by
  induction mems with
  | nil => exact Int.le_refl 0
  | cons mem rest ih =>
    have hmem := h mem List.mem_cons_self
    have hrest := ih fun m hm => h m (List.mem_cons_of_mem _ hm)
    rw [List.map_cons, List.sum_cons]
    omega

/-- No memory of a trimmed pack is longer than it was exactly where all of them are compressible. -/
theorem shorter_iff (h : pack.Distinct) (htrimmed : Trimmed pack refs out) :
    (∀ mem ∈ pack.memories, ∀ left ∈ out.memories, left.id = mem.id →
      estimateTokens left.content ≤ estimateTokens mem.content) ↔
      ∀ mem ∈ memoriesUnder pack refs, Compressible mem := by
  rw [htrimmed.memories]
  constructor
  · intro hshorter mem hmem
    have hle := hshorter mem (List.mem_of_mem_filter hmem) (shownMemory mem) (List.mem_map_of_mem hmem)
      (id_shownMemory mem)
    rw [← growth_nonpos_iff, growth]
    omega
  · intro hall mem hmem left hleft hid
    obtain ⟨kept, hkept, rfl⟩ := List.mem_map.mp hleft
    rw [id_shownMemory] at hid
    obtain rfl := h.eq_of_id (List.mem_of_mem_filter hkept) hmem hid
    have hgrowth := (growth_nonpos_iff kept).mpr (hall kept hkept)
    rw [growth] at hgrowth
    omega

/-- Where no kept memory grows, the pack is as small as dropping left it. -/
theorem within_of_compressible (h : pack.Distinct)
    (htrimmed : Trimmed pack (keptRefs sorting pack candidates budget) out)
    (hall : ∀ mem ∈ memoriesUnder pack (keptRefs sorting pack candidates budget), Compressible mem) :
    out.tokenEstimate ≤ budget ∨ out.memories.length ≤ 1 := by
  have hgrowth := sum_growth_nonpos fun mem hmem => (growth_nonpos_iff mem).mpr (hall mem hmem)
  have hsub : (keptRefs sorting pack candidates budget).Sublist (sorting.sort (refsOf pack candidates)) :=
    sublist_keptRefs
  have hkept : (((keptRefs sorting pack candidates budget).map (refTokens pack)).sum : Int) ≤ budget ∨
      (keptRefs sorting pack candidates budget).length ≤ 1 := fits_or_le_one _
  rw [htrimmed.estimate, htrimmed.memories, List.length_map]
  rcases hkept with hfits | hone
  · left
    rw [sum_refTokens h hsub] at hfits
    omega
  · right
    have hlength := (ids_memoriesUnder h hsub).length_eq
    rw [List.length_map, List.length_map] at hlength
    rw [hlength]
    exact hone

/-- `EnforceBudget` keeps the budget and lets no memory grow exactly where the pack is within the
budget already, or every memory it keeps is short or goes on after its second sentence. -/
theorem enforced_iff (sorting : SliceSort) (pack : ContextPack) (candidates : List Candidate) (budget : Int)
    (hids : pack.Distinct) (hestimate : pack.tokenEstimate = contentTokens pack.memories) (hbudget : 0 < budget) :
    Enforced pack budget (enforceBudget sorting pack candidates budget) ↔
      pack.tokenEstimate ≤ budget ∨
        ∀ mem ∈ memoriesUnder pack (keptRefs sorting pack candidates budget), Compressible mem := by
  by_cases hover : budget < pack.tokenEstimate
  · have htrimmed : Trimmed pack (keptRefs sorting pack candidates budget)
        (enforceBudget sorting pack candidates budget) := trimmed_enforceBudget hids hestimate hbudget hover
    have hcompressible := shorter_iff hids htrimmed
    constructor
    · intro henforced
      exact Or.inr (hcompressible.mp henforced.shorter)
    · intro hcondition
      have hall := hcondition.resolve_left (Int.not_le.mpr hover)
      refine ⟨within_of_compressible hids htrimmed hall, ?_, hcompressible.mpr hall⟩
      rw [htrimmed.estimate, htrimmed.memories, contentTokens_shown]
  · have hfits : pack.tokenEstimate ≤ budget := by omega
    have hsame : enforceBudget sorting pack candidates budget = pack := if_pos (Or.inr hfits)
    refine iff_of_true ?_ (Or.inl hfits)
    rw [hsame]
    refine ⟨Or.inl hfits, hestimate, fun mem hmem left hleft hid => ?_⟩
    rw [hids.eq_of_id hleft hmem hid]

/-! ## Packs of long memories -/

/-- A text of so many words. -/
def manyWords (n : Nat) : List Char := (List.replicate n ['a', ' ']).flatten

/-- A memory of a user's with this content. -/
def memoryOf (id : String) (content : List Char) : Memory :=
  { newMemory 5 .fact .user (String.ofList content) with id := id }

theorem estimateTokens_ofList (text : List Char) :
    estimateTokens (String.ofList text) = (fields text).length * 27 / 20 := by
  rw [estimateTokens, String.toList_ofList]

theorem length_fields_manyWords : (fields (manyWords 121)).length = 121 := by
  decide +kernel

theorem tokens_manyWords : estimateTokens (String.ofList (manyWords 121)) = 163 := by
  rw [estimateTokens_ofList, length_fields_manyWords]

theorem tokens_short : estimateTokens (String.ofList ['a']) = 1 := by
  rw [estimateTokens_ofList]
  decide

theorem tokens_sentences : estimateTokens (String.ofList ("A. B.".toList ++ ' ' :: manyWords 121)) = 166 := by
  have hfields : (fields ("A. B.".toList ++ ' ' :: manyWords 121)).length = 123 := by decide +kernel
  rw [estimateTokens_ofList, hfields]

/-- The tokens of memories with these contents. -/
theorem contentTokens_memoryOf (mems : List (String × List Char)) :
    contentTokens (mems.map fun m => memoryOf m.1 m.2) =
      (mems.map fun m => estimateTokens (String.ofList m.2)).sum := by
  rw [contentTokens, List.map_map]
  rfl

/-- One memory of two short sentences and 121 words more. -/
def sentencesPack : ContextPack where
  profile := []
  preferences := []
  projectMemory := []
  recentEpisodes := []
  relevantFacts := [memoryOf "m" ("A. B.".toList ++ ' ' :: manyWords 121)]
  procedures := []
  warnings := []
  citations := []
  tokenEstimate := 166
  traceID := ""
  control := none

theorem distinct_sentences : sentencesPack.Distinct := by
  rw [ContextPack.Distinct]
  decide

/-- A memory of two sentences and more is compressed well. -/
theorem enforced_sentences : Enforced sentencesPack 1 (enforceBudget stableSort sentencesPack [] 1) := by
  have hall : ∀ mem ∈ memoriesUnder sentencesPack (keptRefs stableSort sentencesPack [] 1), Compressible mem := by
    intro mem hmem _
    rw [List.mem_singleton.mp (List.mem_of_mem_filter hmem)]
    refine ⟨"A. B.".toList, ' ', manyWords 121, String.toList_ofList, by decide, by decide, 'a', ?_, by decide⟩
    exact List.mem_flatten.mpr ⟨['a', ' '], List.mem_replicate.mpr ⟨by omega, rfl⟩, List.mem_cons_self⟩
  have hestimate : sentencesPack.tokenEstimate = contentTokens sentencesPack.memories := by
    have htokens := contentTokens_memoryOf [("m", "A. B.".toList ++ ' ' :: manyWords 121)]
    simp only [List.map_cons, List.map_nil, List.sum_cons, List.sum_nil, tokens_sentences] at htokens
    exact congrArg Int.ofNat htokens.symm
  exact (enforced_iff stableSort sentencesPack [] 1 distinct_sentences hestimate (by decide)).mpr (Or.inr hall)

/-- A short memory and two of 121 words without an end of a sentence. -/
def runOnPack : ContextPack :=
  { sentencesPack with
    profile := [memoryOf "short" ['a']]
    relevantFacts := [memoryOf "m1" (manyWords 121), memoryOf "m2" (manyWords 121)]
    tokenEstimate := 327 }

/-- The candidates they come from. -/
def runOnCandidates : List Candidate :=
  [⟨memoryOf "short" ['a'], 0, ["text"], ""⟩, ⟨memoryOf "m1" (manyWords 121), 1, ["text"], ""⟩,
    ⟨memoryOf "m2" (manyWords 121), 1, ["text"], ""⟩]

/-- The references to them. -/
def runOnRefs : List Ref := [⟨.profile, "short", 0⟩, ⟨.relevantFacts, "m1", 1⟩, ⟨.relevantFacts, "m2", 1⟩]

theorem refsOf_runOn : refsOf runOnPack runOnCandidates = runOnRefs := by
  decide +kernel

theorem sorted_runOn : stableSort.sort (refsOf runOnPack runOnCandidates) = runOnRefs := by
  rw [refsOf_runOn]
  exact List.mergeSort_of_pairwise (by decide +kernel)

theorem keptRefs_runOn : keptRefs stableSort runOnPack runOnCandidates 326 = runOnRefs.tail := by
  have hshort : refTokens runOnPack ⟨.profile, "short", 0⟩ = 1 := tokens_short
  have hfirst : refTokens runOnPack ⟨.relevantFacts, "m1", 1⟩ = 163 := tokens_manyWords
  have hsecond : refTokens runOnPack ⟨.relevantFacts, "m2", 1⟩ = 163 := tokens_manyWords
  unfold keptRefs
  rw [sorted_runOn]
  simp [runOnRefs, fitting, hshort, hfirst, hsecond]

/-- Compressing a memory without an end of a sentence adds the ellipsis. -/
theorem growth_manyWords (id : String) : growth (memoryOf id (manyWords 121)) = 1 := by
  have hcontent : (memoryOf id (manyWords 121)).content = String.ofList (manyWords 121) := rfl
  have hlong : ¬ (fields (memoryOf id (manyWords 121)).content.toList).length ≤ 120 := by
    rw [hcontent, String.toList_ofList, length_fields_manyWords]
    decide
  have hleading : leadingSentences (manyWords 121) 2 = manyWords 121 := by decide +kernel
  have hcompressed : estimateTokens (compressed (String.ofList (manyWords 121))) = 164 := by
    rw [estimateTokens, length_fields_compressed, String.toList_ofList, hleading, length_fields_manyWords]
  rw [growth, shownMemory, if_neg hlong]
  change (estimateTokens (compressed (String.ofList (manyWords 121))) : Int) - _ = 1
  rw [hcompressed, hcontent, tokens_manyWords]
  rfl

/-- Dropping the short memory meets a budget of 326 tokens; compressing the others takes the pack
to 328, with both of them left. -/
theorem runOn_not_enforced : runOnPack.Distinct ∧ runOnPack.tokenEstimate = contentTokens runOnPack.memories ∧
    (enforceBudget stableSort runOnPack runOnCandidates 326).tokenEstimate = 328 ∧
    ¬ Enforced runOnPack 326 (enforceBudget stableSort runOnPack runOnCandidates 326) := by
  have hids : runOnPack.Distinct := by
    rw [ContextPack.Distinct]
    decide
  have hestimate : runOnPack.tokenEstimate = contentTokens runOnPack.memories := by
    have htokens := contentTokens_memoryOf [("short", ['a']), ("m1", manyWords 121), ("m2", manyWords 121)]
    simp only [List.map_cons, List.map_nil, List.sum_cons, List.sum_nil, tokens_manyWords, tokens_short] at htokens
    exact congrArg Int.ofNat htokens.symm
  have htrimmed := @trimmed_enforceBudget _ runOnCandidates stableSort _ hids hestimate
    (show (0 : Int) < 326 by decide) (show (326 : Int) < 327 by decide)
  have hkept : memoriesUnder runOnPack (keptRefs stableSort runOnPack runOnCandidates 326) =
      [memoryOf "m1" (manyWords 121), memoryOf "m2" (manyWords 121)] := by
    rw [keptRefs_runOn]
    rfl
  have hout : (enforceBudget stableSort runOnPack runOnCandidates 326).tokenEstimate = 328 := by
    have htokens := contentTokens_memoryOf [("m1", manyWords 121), ("m2", manyWords 121)]
    simp only [List.map_cons, List.map_nil, List.sum_cons, List.sum_nil, tokens_manyWords] at htokens
    rw [htrimmed.estimate, hkept, htokens]
    simp only [List.map_cons, List.map_nil, List.sum_cons, List.sum_nil, growth_manyWords]
    rfl
  refine ⟨hids, hestimate, hout, fun henforced => ?_⟩
  have hwithin := henforced.within
  rw [hout, htrimmed.memories, hkept] at hwithin
  simp at hwithin

end AgentMemory
