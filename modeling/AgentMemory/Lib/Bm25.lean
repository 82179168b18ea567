import Mathlib.Algebra.BigOperators.Group.List.Basic
import Mathlib.Algebra.Order.BigOperators.Group.List
import Mathlib.Algebra.Order.Field.Rat
import Mathlib.Data.List.Dedup
import Mathlib.Tactic.GCongr
import Mathlib.Tactic.Linarith
import Mathlib.Tactic.NormNum
import Mathlib.Tactic.Positivity
import Mathlib.Tactic.Ring

/-!
# BM25

The relevance of a document, a list of terms, for a query, another list of terms, within a collection of documents. A
term of the query counts by its rarity in the collection and by its frequency in the document, which saturates, and the
sooner the longer the document is. The logarithm is a parameter; nothing here needs more of it than that it is positive
above one.
-/

namespace Bm25

/-- How soon frequency saturates, and how much of that the length of the document decides. -/
structure Parameters where
  k1 : ℚ
  b : ℚ
  k1_pos : 0 < k1
  b_nonneg : 0 ≤ b
  b_lt_one : b < 1

/-- A logarithm, as far as it matters. -/
structure Log where
  log : ℚ → ℚ
  log_pos : ∀ x, 1 < x → 0 < log x

section Score

variable {τ : Type} [BEq τ] (p : Parameters) (l : Log) (docs : List (List τ)) (avgLen : ℚ)

/-- How many documents a term occurs in. -/
def docFreq (t : τ) : Nat := docs.countP fun doc => doc.contains t

/-- What the logarithm is taken of. -/
def rarity (t : τ) : ℚ := 1 + ((docs.length : ℚ) - docFreq docs t + 1 / 2) / ((docFreq docs t : ℚ) + 1 / 2)

def idf (t : τ) : ℚ := l.log (rarity docs t)

/-- What the frequency is compared with in a document of this length. -/
def halfway (docLen : Nat) : ℚ := p.k1 * (1 - p.b + p.b * docLen / avgLen)

/-- The share of a term in the score. -/
def share (doc : List τ) (t : τ) : ℚ :=
  idf l docs t * ((doc.count t : ℚ) * (p.k1 + 1)) / ((doc.count t : ℚ) + halfway p avgLen doc.length)

def score (query doc : List τ) : ℚ := (query.map (share p l docs avgLen doc)).sum

end Score

variable {τ : Type} [BEq τ] (p : Parameters) (l : Log) (docs : List (List τ)) {avgLen : ℚ}

theorem docFreq_le (t : τ) : docFreq docs t ≤ docs.length := List.countP_le_length

/-- Terms that occur in every document count too. -/
theorem one_lt_rarity (t : τ) : 1 < rarity docs t := by
  have hle : (docFreq docs t : ℚ) ≤ docs.length := by exact_mod_cast docFreq_le docs t
  have hpos : 0 < ((docs.length : ℚ) - docFreq docs t + 1 / 2) / ((docFreq docs t : ℚ) + 1 / 2) := by
    apply div_pos
    · linarith
    · positivity
  unfold rarity
  linarith

theorem idf_pos (t : τ) : 0 < idf l docs t := l.log_pos _ (one_lt_rarity docs t)

theorem halfway_pos (havg : 0 < avgLen) (docLen : Nat) : 0 < halfway p avgLen docLen := by
  have hk1 := p.k1_pos
  have hb := p.b_nonneg
  have hone : 0 < 1 - p.b := by linarith [p.b_lt_one]
  have hlen : 0 ≤ p.b * docLen / avgLen := by positivity
  exact mul_pos hk1 (by linarith)

/-- Longer documents saturate later. -/
theorem halfway_mono (havg : 0 < avgLen) {n m : Nat} (h : n ≤ m) : halfway p avgLen n ≤ halfway p avgLen m := by
  have hk1 := p.k1_pos.le
  have hb := p.b_nonneg
  unfold halfway
  gcongr

theorem share_nonneg (havg : 0 < avgLen) (doc : List τ) (t : τ) : 0 ≤ share p l docs avgLen doc t := by
  have hidf := idf_pos l docs t
  have hhalf := halfway_pos p havg doc.length
  have hk1 := p.k1_pos
  unfold share
  positivity

theorem share_pos_iff [LawfulBEq τ] (havg : 0 < avgLen) (doc : List τ) (t : τ) : 0 < share p l docs avgLen doc t ↔ t ∈ doc := by
  have hidf := idf_pos l docs t
  have hhalf := halfway_pos p havg doc.length
  have hk1 := p.k1_pos
  constructor
  · intro h
    by_contra hnot
    simp [share, List.count_eq_zero.mpr hnot] at h
  · intro h
    have hcount : 0 < (doc.count t : ℚ) := by exact_mod_cast List.count_pos_iff.mpr h
    unfold share
    positivity

/-- A term counts the more, the more often it occurs and the shorter the document is. -/
theorem share_mono (havg : 0 < avgLen) {doc doc' : List τ} {t : τ} (hcount : doc.count t ≤ doc'.count t)
    (hlen : doc'.length ≤ doc.length) : share p l docs avgLen doc t ≤ share p l docs avgLen doc' t := by
  have hidf := idf_pos l docs t
  have hhalf := halfway_pos p havg doc'.length
  have hle := halfway_mono p havg hlen
  have hk1 := p.k1_pos
  have hfreq : (doc.count t : ℚ) ≤ doc'.count t := by exact_mod_cast hcount
  have hnonneg : (0 : ℚ) ≤ doc.count t := by positivity
  unfold share
  generalize (doc.count t : ℚ) = f at *
  generalize (doc'.count t : ℚ) = f' at *
  generalize halfway p avgLen doc.length = k at *
  generalize halfway p avgLen doc'.length = k' at *
  have hcross : f * (f' + k') ≤ f' * (f + k) := by
    have hmul : f * k' ≤ f' * k := mul_le_mul hfreq hle hhalf.le (hnonneg.trans hfreq)
    linarith [mul_comm f f']
  rw [mul_div_assoc (idf l docs t) (f * (p.k1 + 1)), mul_div_assoc (idf l docs t) (f' * (p.k1 + 1))]
  refine mul_le_mul_of_nonneg_left ?_ hidf.le
  rw [div_le_div_iff₀ (by linarith) (by linarith)]
  calc f * (p.k1 + 1) * (f' + k') = f * (f' + k') * (p.k1 + 1) := by ring
    _ ≤ f' * (f + k) * (p.k1 + 1) := mul_le_mul_of_nonneg_right hcross (by linarith)
    _ = f' * (p.k1 + 1) * (f + k) := by ring

theorem score_nonneg (havg : 0 < avgLen) (query doc : List τ) : 0 ≤ score p l docs avgLen query doc := by
  refine List.sum_nonneg fun x hx => ?_
  obtain ⟨t, -, rfl⟩ := List.mem_map.mp hx
  exact share_nonneg p l docs havg doc t

/-- Relevant are the documents in which a term of the query occurs, however common the term is. -/
theorem score_pos_iff [LawfulBEq τ] (havg : 0 < avgLen) {query doc : List τ} :
    0 < score p l docs avgLen query doc ↔ ∃ t ∈ query, t ∈ doc := by
  induction query with
  | nil => simp [score]
  | cons t query ih =>
    have hshare := share_nonneg p l docs havg doc t
    have hscore := score_nonneg p l docs havg query doc
    have hcons : score p l docs avgLen (t :: query) doc =
        share p l docs avgLen doc t + score p l docs avgLen query doc := by simp [score]
    rw [hcons, List.exists_mem_cons_iff, ← ih, ← share_pos_iff p l docs havg]
    constructor
    · intro h
      by_contra hnot
      rw [not_or, not_lt, not_lt] at hnot
      linarith
    · rintro (h | h) <;> linarith

/-- A document that repeats every term of the query at least as often and is no longer scores no less. -/
theorem score_mono (havg : 0 < avgLen) {query doc doc' : List τ} (hcount : ∀ t ∈ query, doc.count t ≤ doc'.count t)
    (hlen : doc'.length ≤ doc.length) : score p l docs avgLen query doc ≤ score p l docs avgLen query doc' :=
  List.sum_le_sum fun t ht => share_mono p l docs havg (hcount t ht) hlen

end Bm25
