import AgentMemory.Domain.Memory
import AgentMemory.Lib.Reservoir
import AgentMemory.Lib.Table
import Mathlib.Algebra.Order.Field.Rat

/-!
# The rate limiter

`TokenBucket` of `internal/adapters/http/middleware/rate_limit.go`, with exact rational numbers
for its floats: a map of buckets that are filled when they are asked. Each bucket is a
reservoir, and `admissions_bounded` says what this means for the requests of one key.
-/

namespace AgentMemory.Http

open Tables Reservoirs

/-- `bucket` (`rate_limit.go:27-30`) under its key. -/
structure Bucket where
  key : List Char
  tokens : ℚ
  last : Time

/-- `TokenBucket` (`rate_limit.go:19-25`). -/
structure TokenBucket where
  rps : Int
  burst : Int
  buckets : Table Bucket Bucket.key

/-- `NewTokenBucket` (`rate_limit.go:32-45`). -/
def newTokenBucket (rps burst : Int) : TokenBucket :=
  ⟨rps, if burst ≤ 0 then 2 * rps else burst, Table.empty⟩

/-- `Time.Sub`, which saturates. -/
def sub (t u : Time) : Int := max (-2 ^ 63) (min (2 ^ 63 - 1) (t - u))

/-- `Duration.Seconds` of so many nanoseconds. -/
def seconds (nanoseconds : Int) : ℚ := nanoseconds / 10 ^ 9

/-- A call of `Allow` with the reading of the clock. -/
structure AllowCall where
  key : List Char
  now : Time

namespace TokenBucket

/-- The bucket of the key; a new one is full. -/
def bucketOf (t : TokenBucket) (c : AllowCall) : Bucket :=
  (t.buckets.find? c.key).getD ⟨c.key, t.burst, c.now⟩

/-- The bucket when it is asked (`rate_limit.go:56-63`). -/
def refill (t : TokenBucket) (now : Time) (b : Bucket) : Bucket :=
  let elapsed := seconds (sub now b.last)
  if 0 < elapsed then
    let tokens := b.tokens + elapsed * t.rps
    { b with tokens := if t.burst < tokens then t.burst else tokens, last := now }
  else b

/-- `Allow` (`rate_limit.go:47-69`). -/
def allow (t : TokenBucket) (c : AllowCall) : Bool × TokenBucket :=
  let b := t.refill c.now (t.bucketOf c)
  if b.tokens < 1 then (false, { t with buckets := t.buckets.upsert b })
  else (true, { t with buckets := t.buckets.upsert { b with tokens := b.tokens - 1 } })

/-- The calls of a run, each with its decision. -/
def decisions (t : TokenBucket) : List AllowCall → List (AllowCall × Bool)
  | [] => []
  | c :: calls => (c, (t.allow c).1) :: (t.allow c).2.decisions calls

/-! ## One bucket does not see the others -/

theorem key_bucketOf (t : TokenBucket) (c : AllowCall) : (t.bucketOf c).key = c.key := by
  unfold bucketOf
  cases h : t.buckets.find? c.key with
  | none => rfl
  | some b => exact (Table.find?_eq_some.mp h).2

theorem key_refill (t : TokenBucket) (now : Time) (b : Bucket) : (t.refill now b).key = b.key := by
  unfold refill
  simp only
  split <;> rfl

/-- The bucket after the call. -/
def drained (t : TokenBucket) (c : AllowCall) : Bucket :=
  let b := t.refill c.now (t.bucketOf c)
  if b.tokens < 1 then b else { b with tokens := b.tokens - 1 }

theorem allow_eq (t : TokenBucket) (c : AllowCall) :
    t.allow c = (!decide ((t.refill c.now (t.bucketOf c)).tokens < 1),
      { t with buckets := t.buckets.upsert (t.drained c) }) := by
  unfold allow drained
  simp only
  split <;> simp_all

theorem key_drained (t : TokenBucket) (c : AllowCall) : (t.drained c).key = c.key := by
  unfold drained
  simp only
  split <;> exact (key_refill _ _ _).trans (key_bucketOf _ _)

theorem find?_allow (t : TokenBucket) (c : AllowCall) (key : List Char) :
    (t.allow c).2.buckets.find? key =
      if c.key = key then some (t.drained c) else t.buckets.find? key := by
  rw [allow_eq, Table.find?_upsert, key_drained]

/-- The limiters do the same for the key. -/
structure Alike (key : List Char) (t t' : TokenBucket) : Prop where
  rps : t.rps = t'.rps
  burst : t.burst = t'.burst
  bucket : t.buckets.find? key = t'.buckets.find? key

theorem Alike.allow {key : List Char} {t t' : TokenBucket} (h : Alike key t t') {c : AllowCall}
    (hc : c.key = key) :
    (t.allow c).1 = (t'.allow c).1 ∧ Alike key (t.allow c).2 (t'.allow c).2 := by
  have hbucket : t.bucketOf c = t'.bucketOf c := by
    rw [bucketOf, bucketOf, hc, h.bucket, h.burst]
  have hrefill : t.refill c.now (t.bucketOf c) = t'.refill c.now (t'.bucketOf c) := by
    rw [hbucket]
    simp only [refill, h.rps, h.burst]
  have hdrained : t.drained c = t'.drained c := by
    simp only [drained, hrefill]
  refine ⟨by rw [allow_eq, allow_eq, hrefill], ?_, ?_, ?_⟩
  · rw [allow_eq, allow_eq]
    exact h.rps
  · rw [allow_eq, allow_eq]
    exact h.burst
  · rw [find?_allow, find?_allow, if_pos hc, if_pos hc, hdrained]

theorem Alike.allow_other {key : List Char} {t t' : TokenBucket} (h : Alike key t t') {c : AllowCall}
    (hc : c.key ≠ key) : Alike key (t.allow c).2 t' := by
  refine ⟨?_, ?_, ?_⟩
  · rw [allow_eq]
    exact h.rps
  · rw [allow_eq]
    exact h.burst
  · rw [find?_allow, if_neg hc]
    exact h.bucket

/-- The decisions for a key are those of a run of its own calls. -/
theorem decisions_filter {key : List Char} {t t' : TokenBucket} (h : Alike key t t')
    (calls : List AllowCall) : (t.decisions calls).filter (fun d => d.1.key = key) =
      t'.decisions (calls.filter fun c => c.key = key) := by
  induction calls generalizing t t' with
  | nil => rfl
  | cons c calls ih =>
    by_cases hc : c.key = key
    · obtain ⟨hdecision, halike⟩ := h.allow hc
      rw [decisions, List.filter_cons_of_pos (by simpa using hc),
        List.filter_cons_of_pos (by simpa using hc), decisions, hdecision, ih halike]
    · rw [decisions, List.filter_cons_of_neg (by simpa using hc),
        List.filter_cons_of_neg (by simpa using hc), ih (h.allow_other hc)]

/-! ## A bucket is a reservoir -/

/-- The level of a bucket. -/
def level (b : Bucket) : Level ℚ := ⟨b.tokens, seconds b.last⟩

/-- What every bucket of a limiter is. -/
structure Sound (t : TokenBucket) (b : Bucket) : Prop where
  nonneg : 0 ≤ b.tokens
  le_burst : b.tokens ≤ t.burst

theorem seconds_sub_le {now last : Time} (h : last ≤ now) :
    seconds (sub now last) ≤ seconds now - seconds last := by
  have hnonneg : (0 : Int) ≤ now - last := Int.sub_nonneg.mpr h
  have hle : sub now last ≤ now - last := max_le (by omega) (min_le_right _ _)
  have hcast : (sub now last : ℚ) ≤ now - last := by exact_mod_cast hle
  simp only [seconds]
  rw [← sub_div]
  gcongr

theorem pos_of_lt {now last : Time} (h : last < now) : 0 < seconds (sub now last) := by
  have hpos : 0 < sub now last :=
    lt_max_of_lt_right (lt_min (by decide) (Int.sub_pos.mpr h))
  have hcast : (0 : ℚ) < sub now last := by exact_mod_cast hpos
  simp only [seconds]
  positivity

/-- A bucket that is asked: filled up to now. -/
theorem refill_spec {t : TokenBucket} {b : Bucket} {now : Time} (hrps : 0 ≤ t.rps)
    (hb : t.Sound b) (hle : b.last ≤ now) :
    t.Sound (t.refill now b) ∧ (t.refill now b).last = now ∧
      (t.refill now b).tokens ≤ b.tokens + t.rps * (seconds now - seconds b.last) := by
  have hrate : (0 : ℚ) ≤ t.rps := by exact_mod_cast hrps
  have hflow := mul_le_mul_of_nonneg_left (seconds_sub_le hle) hrate
  rcases eq_or_lt_of_le hle with hlast | hlt
  · have hzero : seconds (sub now b.last) = 0 := by simp [← hlast, sub, seconds]
    have hsame : t.refill now b = b := by simp [refill, hzero]
    rw [hsame, hlast]
    refine ⟨hb, rfl, ?_⟩
    simp
  · have hpos := pos_of_lt hlt
    have hfilled : t.refill now b = { b with
        tokens := if (t.burst : ℚ) < b.tokens + seconds (sub now b.last) * t.rps then (t.burst : ℚ)
          else b.tokens + seconds (sub now b.last) * t.rps
        last := now } := if_pos hpos
    have hmore : 0 ≤ seconds (sub now b.last) * t.rps := mul_nonneg hpos.le hrate
    have hnonneg := hb.nonneg
    have hburst := hb.le_burst
    rw [hfilled]
    split
    · next hfull => exact ⟨⟨hnonneg.trans hburst, le_rfl⟩, rfl, by dsimp only; linarith⟩
    · next hroom => exact ⟨⟨add_nonneg hnonneg hmore, not_lt.mp hroom⟩, rfl, by dsimp only; linarith⟩

/-- A call draws from the reservoir of its bucket. -/
theorem draw_allow {t : TokenBucket} {c : AllowCall} (hrps : 0 ≤ t.rps) (hb : t.Sound (t.bucketOf c))
    (hle : (t.bucketOf c).last ≤ c.now) :
    Draw (t.burst : ℚ) t.rps (level (t.bucketOf c)) (seconds c.now) (t.allow c).1 (level (t.drained c)) := by
  obtain ⟨hsound, hlast, htokens⟩ := refill_spec hrps hb hle
  have hnonneg := hsound.nonneg
  have hburst := hsound.le_burst
  rw [allow_eq]
  unfold drained
  simp only
  split
  · next hfew =>
    constructor <;> simp only [level, unit, hlast, hfew, decide_true, Bool.not_true, if_false,
      Bool.false_eq_true, add_zero]
    · exact hnonneg
    · exact hburst
    · exact htokens
  · next henough =>
    constructor <;> simp only [level, unit, hlast, henough, decide_false, Bool.not_false, if_true]
    · linarith
    · linarith
    · linarith

/-- The times of the decisions in seconds. -/
def draws (decisions : List (AllowCall × Bool)) : List (ℚ × Bool) :=
  decisions.map fun d => (seconds d.1.now, d.2)

theorem last_drained {t : TokenBucket} {c : AllowCall} (hrps : 0 ≤ t.rps)
    (hb : t.Sound (t.bucketOf c)) (hle : (t.bucketOf c).last ≤ c.now) :
    (t.drained c).last = c.now := by
  obtain ⟨-, hlast, -⟩ := refill_spec hrps hb hle
  unfold drained
  simp only
  split <;> exact hlast

theorem sound_drained {t : TokenBucket} {c : AllowCall} (hrps : 0 ≤ t.rps)
    (hb : t.Sound (t.bucketOf c)) (hle : (t.bucketOf c).last ≤ c.now) : t.Sound (t.drained c) := by
  have hdraw := draw_allow hrps hb hle
  refine ⟨hdraw.nonneg, ?_⟩
  have hunit : (0 : ℚ) ≤ unit (t.allow c).1 := by
    cases (t.allow c).1 <;> simp [unit]
  have hcapacity := hdraw.le_capacity
  simp only [level] at hcapacity
  linarith

/-- The calls of one key draw from one reservoir. -/
theorem draws_decisions {key : List Char} (calls : List AllowCall) {t : TokenBucket} {b : Bucket}
    (hrps : 0 ≤ t.rps) (hfirst : ∀ c ∈ calls.head?, t.bucketOf c = b) (hb : t.Sound b)
    (hkeys : ∀ c ∈ calls, c.key = key) (hlast : ∀ c ∈ calls, b.last ≤ c.now)
    (hsorted : calls.Pairwise fun c c' => c.now ≤ c'.now) :
    Draws (t.burst : ℚ) t.rps (level b) (draws (t.decisions calls)) := by
  induction calls generalizing t b with
  | nil => exact .nil _
  | cons c calls ih =>
    obtain rfl := hfirst c rfl
    obtain ⟨hkey, hkeys⟩ := List.forall_mem_cons.mp hkeys
    obtain ⟨hnow, hsorted⟩ := List.pairwise_cons.mp hsorted
    have hle := hlast c List.mem_cons_self
    have hseconds : (level (t.bucketOf c)).since ≤ seconds c.now := by
      have hcast : ((t.bucketOf c).last : ℚ) ≤ c.now := by exact_mod_cast hle
      simp only [level, seconds]
      gcongr
    have hnext : (t.allow c).2 = { t with buckets := t.buckets.upsert (t.drained c) } := by
      rw [allow_eq]
    have hdrained := last_drained hrps hb hle
    have hrest := @ih (t.allow c).2 (t.drained c) (by rw [hnext]; exact hrps) ?_
      (by rw [hnext]; exact ⟨(sound_drained hrps hb hle).nonneg, (sound_drained hrps hb hle).le_burst⟩)
      hkeys (fun c' hc' => hdrained.symm ▸ hnow c' hc') hsorted
    · rw [hnext] at hrest
      refine .cons hseconds (draw_allow hrps hb hle) ?_
      rw [hnext]
      exact hrest
    · intro c' hc'
      have hkey' : c.key = c'.key := hkey.trans (hkeys c' (List.mem_of_mem_head? hc')).symm
      rw [bucketOf, find?_allow, if_pos hkey', Option.getD_some]

end TokenBucket

/-- The calls of a key in a run of a new limiter draw from a full reservoir. -/
theorem exists_draws {rps burst : Int} (hrps : 0 < rps) (hburst : 0 < burst)
    {calls : List AllowCall} (hsorted : calls.Pairwise fun c c' => c.now ≤ c'.now) (key : List Char) :
    ∃ b, Draws (burst : ℚ) rps b (TokenBucket.draws
      ((newTokenBucket rps burst).decisions (calls.filter fun c => c.key = key))) := by
  have hsize : (newTokenBucket rps burst).burst = burst := if_neg (by omega)
  have hkeys : ∀ c ∈ calls.filter (fun c => c.key = key), c.key = key := fun c hc => by
    simpa using (List.mem_filter.mp hc).2
  have hown := hsorted.filter fun c => c.key = key
  cases hcalls : calls.filter (fun c => c.key = key) with
  | nil => exact ⟨⟨0, 0⟩, .nil _⟩
  | cons first rest =>
    rw [hcalls] at hkeys hown
    have hfull : (newTokenBucket rps burst).Sound ⟨first.key, burst, first.now⟩ := by
      constructor <;> simp only [hsize]
      · exact_mod_cast hburst.le
      · exact le_rfl
    have hdraws := @TokenBucket.draws_decisions key (first :: rest) (newTokenBucket rps burst)
      ⟨first.key, burst, first.now⟩ hrps.le ?_ hfull hkeys ?_ hown
    · rw [hsize] at hdraws
      exact ⟨_, hdraws⟩
    · intro c hc
      obtain rfl := Option.some.inj hc
      have hempty : (newTokenBucket rps burst).buckets.find? first.key = none := rfl
      rw [TokenBucket.bucketOf, hempty, Option.getD_none, hsize]
    · intro c hc
      rcases List.mem_cons.mp hc with rfl | hc
      · exact le_rfl
      · exact (List.pairwise_cons.mp hown).1 c hc

/-- In a run of a new limiter in which the clock does not go back, the requests admitted for
a key in a window of time are at most the burst and what the rate allows in the window, and
the decisions for the key are those of its own calls alone. -/
theorem admissions_bounded {rps burst : Int} (hrps : 0 < rps) (hburst : 0 < burst)
    {calls : List AllowCall} (hsorted : calls.Pairwise fun c c' => c.now ≤ c'.now) (key : List Char)
    {s t : ℚ} (hst : s ≤ t) :
    ((((newTokenBucket rps burst).decisions calls).countP fun d =>
        d.1.key = key && (d.2 && s ≤ seconds d.1.now && seconds d.1.now ≤ t) : ℕ) : ℚ) ≤
          burst + rps * (t - s) ∧
      ((newTokenBucket rps burst).decisions calls).filter (fun d => d.1.key = key) =
        (newTokenBucket rps burst).decisions (calls.filter fun c => c.key = key) := by
  have hfilter := @TokenBucket.decisions_filter key (newTokenBucket rps burst) _
    ⟨rfl, rfl, rfl⟩ calls
  refine ⟨?_, hfilter⟩
  have hcount : ((newTokenBucket rps burst).decisions calls).countP (fun d =>
      d.1.key = key && (d.2 && s ≤ seconds d.1.now && seconds d.1.now ≤ t)) =
        countIn s t (TokenBucket.draws
          ((newTokenBucket rps burst).decisions (calls.filter fun c => c.key = key))) := by
    rw [← hfilter, countIn, TokenBucket.draws, List.countP_map, List.countP_filter]
    apply List.countP_congr
    intro d _
    simp [and_comm]
  obtain ⟨b, hdraws⟩ := exists_draws hrps hburst hsorted key
  rw [hcount]
  exact hdraws.count_le (by exact_mod_cast hburst.le) (by exact_mod_cast hrps.le) hst

/-- A limiter that admits one request a second, after a burst of two. -/
theorem admissions_bounded_alice :
    ((((newTokenBucket 1 2).decisions [⟨['a'], 0⟩, ⟨['b'], 0⟩, ⟨['a'], 0⟩, ⟨['a'], 10 ^ 9⟩]).countP
        fun d => d.1.key = ['a'] && (d.2 && 0 ≤ seconds d.1.now && seconds d.1.now ≤ 1) : ℕ) : ℚ) ≤
          (2 : Int) + (1 : Int) * (1 - 0) ∧
      ((newTokenBucket 1 2).decisions [⟨['a'], 0⟩, ⟨['b'], 0⟩, ⟨['a'], 0⟩, ⟨['a'], 10 ^ 9⟩]).filter
          (fun d => d.1.key = ['a']) =
        (newTokenBucket 1 2).decisions
          ([⟨['a'], 0⟩, ⟨['b'], 0⟩, ⟨['a'], 0⟩, ⟨['a'], 10 ^ 9⟩].filter fun c => c.key = ['a']) :=
  admissions_bounded (by decide) (by decide) (by decide) ['a'] (by norm_num)

end AgentMemory.Http
