import Mathlib.Data.List.DropRight
import Mathlib.Data.Int.Basic
import Mathlib.Tactic.IntervalCases

/-!
# Timestamps in UTC

The text of an instant in the form `2006-01-02T15:04:05.999999999Z`: the date in the
proleptic Gregorian calendar, the time of day, and the fraction of the second without its
trailing zeros. An instant is a number of nanoseconds from the first of January of year 1.
`rfc3339Nano_injective` says that different instants have different texts.
-/

namespace Timestamps

/-! ## The calendar -/

/-- A day of a year, counted from 0. -/
structure YearDay where
  year : Int
  day : Int

/-- The completed cycles of 400, 100, 4 and 1 years before a day, and the days after them. -/
structure Cycles where
  n400 : Int
  n100 : Int
  n4 : Int
  n1 : Int
  rest : Int

/-- The cycles before a day; day 0 begins year 1. The last century of a cycle of 400 years
and the last year of a cycle of 4 are a day longer than the others. -/
def cycles (days : Int) : Cycles :=
  let n400 := days / 146097
  let d := days % 146097
  let n100 := d / 36524 - d / 36524 / 4
  let d := d - 36524 * n100
  let n4 := d / 1461
  let d := d - 1461 * n4
  let n1 := d / 365 - d / 365 / 4
  ⟨n400, n100, n4, n1, d - 365 * n1⟩

/-- The year of a day and the day in it. -/
def yearDay (days : Int) : YearDay :=
  let c := cycles days
  ⟨400 * c.n400 + 100 * c.n100 + 4 * c.n4 + c.n1 + 1, c.rest⟩

def isLeap (year : Int) : Bool := year % 4 = 0 && (year % 100 ≠ 0 || year % 400 = 0)

/-- The days before each month in a common year. -/
def daysBefore : List Nat := [0, 31, 59, 90, 120, 151, 181, 212, 243, 273, 304, 334, 365]

/-- The month, from 1, and the day in it, from 1. -/
def monthDay (leap : Bool) (day : Nat) : Nat × Nat :=
  if leap = true ∧ day = 59 then (2, 29)
  else
    let day := if leap = true ∧ 59 < day then day - 1 else day
    let month := day / 31
    if daysBefore.getD (month + 1) 0 ≤ day then (month + 2, day - daysBefore.getD (month + 1) 0 + 1)
    else (month + 1, day - daysBefore.getD month 0 + 1)

/-- The days before a day of a year. -/
def daysOf (yd : YearDay) : Int :=
  let y := yd.year - 1
  146097 * (y / 400) + 36524 * (y % 400 / 100) + 1461 * (y % 100 / 4) + 365 * (y % 4) + yd.day

theorem n100_bounds (d : Int) (h : 0 ≤ d ∧ d < 146097) :
    0 ≤ d / 36524 - d / 36524 / 4 ∧ d / 36524 - d / 36524 / 4 ≤ 3 ∧
      0 ≤ d - 36524 * (d / 36524 - d / 36524 / 4) ∧
      d - 36524 * (d / 36524 - d / 36524 / 4) ≤ 36524 := by omega

theorem n4_bounds (d : Int) (h : 0 ≤ d ∧ d ≤ 36524) :
    0 ≤ d / 1461 ∧ d / 1461 ≤ 24 ∧ 0 ≤ d - 1461 * (d / 1461) ∧ d - 1461 * (d / 1461) < 1461 := by
  omega

theorem n1_bounds (d : Int) (h : 0 ≤ d ∧ d < 1461) :
    0 ≤ d / 365 - d / 365 / 4 ∧ d / 365 - d / 365 / 4 ≤ 3 ∧
      0 ≤ d - 365 * (d / 365 - d / 365 / 4) ∧ d - 365 * (d / 365 - d / 365 / 4) < 366 := by omega

theorem cycles_bounds (days : Int) :
    (0 ≤ (cycles days).n100 ∧ (cycles days).n100 ≤ 3) ∧
      (0 ≤ (cycles days).n4 ∧ (cycles days).n4 ≤ 24) ∧
      (0 ≤ (cycles days).n1 ∧ (cycles days).n1 ≤ 3) ∧
      (0 ≤ (cycles days).rest ∧ (cycles days).rest < 366) := by
  have hday : 0 ≤ days % 146097 ∧ days % 146097 < 146097 := by omega
  obtain ⟨hlo, hhi, hd⟩ := n100_bounds _ hday
  obtain ⟨hlo', hhi', hd'⟩ := n4_bounds _ hd
  obtain ⟨hlo'', hhi'', hd''⟩ := n1_bounds _ hd'
  exact ⟨⟨hlo, hhi⟩, ⟨hlo', hhi'⟩, ⟨hlo'', hhi''⟩, hd''⟩

theorem days_eq_cycles (days : Int) :
    days = 146097 * (cycles days).n400 + 36524 * (cycles days).n100 + 1461 * (cycles days).n4 +
      365 * (cycles days).n1 + (cycles days).rest := by
  have hsplit := Int.mul_ediv_add_emod days 146097
  simp only [cycles]
  omega

theorem daysOf_yearDay (days : Int) : daysOf (yearDay days) = days := by
  obtain ⟨⟨h100, h100'⟩, ⟨h4, h4'⟩, ⟨h1, h1'⟩, -⟩ := cycles_bounds days
  have hdays := days_eq_cycles days
  simp only [daysOf, yearDay]
  generalize cycles days = c at *
  have hy400 : (400 * c.n400 + 100 * c.n100 + 4 * c.n4 + c.n1 + 1 - 1) / 400 = c.n400 := by omega
  have hy100 : (400 * c.n400 + 100 * c.n100 + 4 * c.n4 + c.n1 + 1 - 1) % 400 / 100 = c.n100 := by
    omega
  have hy4 : (400 * c.n400 + 100 * c.n100 + 4 * c.n4 + c.n1 + 1 - 1) % 100 / 4 = c.n4 := by omega
  have hy1 : (400 * c.n400 + 100 * c.n100 + 4 * c.n4 + c.n1 + 1 - 1) % 4 = c.n1 := by omega
  rw [hy400, hy100, hy4, hy1, hdays]

theorem yearDay_bounds (days : Int) : 0 ≤ (yearDay days).day ∧ (yearDay days).day < 366 :=
  (cycles_bounds days).2.2.2

/-- The day of a year of a month and a day in it. -/
def dayOf (leap : Bool) (md : Nat × Nat) : Nat :=
  daysBefore.getD (md.1 - 1) 0 + md.2 - 1 + if leap = true ∧ 2 < md.1 then 1 else 0

theorem dayOf_monthDay : ∀ leap, ∀ day < 366, dayOf leap (monthDay leap day) = day := by
  decide +kernel

theorem monthDay_bounds : ∀ leap, ∀ day < 366,
    (monthDay leap day).1 < 100 ∧ (monthDay leap day).2 < 100 := by
  decide +kernel

/-! ## Digits -/

/-- The last digits of a number, so many of them. -/
def fixedDigits : Nat → Nat → List Char
  | 0, _ => []
  | width + 1, n => fixedDigits width (n / 10) ++ [(n % 10).digitChar]

@[simp] theorem length_fixedDigits (width n : Nat) : (fixedDigits width n).length = width := by
  induction width generalizing n with
  | zero => rfl
  | succ width ih => simp [fixedDigits, ih]

theorem ofDigitChars_fixedDigits {width n : Nat} (h : n < 10 ^ width) :
    Nat.ofDigitChars 10 (fixedDigits width n) 0 = n := by
  induction width generalizing n with
  | zero =>
    rw [Nat.pow_zero, Nat.lt_one_iff] at h
    simp [fixedDigits, h]
  | succ width ih =>
    have hdiv : n / 10 < 10 ^ width := by
      rw [Nat.pow_succ] at h
      omega
    have hdigit : n % 10 < 10 := Nat.mod_lt _ (by decide)
    rw [fixedDigits, Nat.ofDigitChars_append, ih hdiv, Nat.ofDigitChars_cons_digitChar_of_lt_ten hdigit,
      Nat.ofDigitChars_nil]
    omega

theorem fixedDigits_inj {width n n' : Nat} (h : n < 10 ^ width) (h' : n' < 10 ^ width)
    (heq : fixedDigits width n = fixedDigits width n') : n = n' := by
  rw [← ofDigitChars_fixedDigits h, heq, ofDigitChars_fixedDigits h']

theorem isDigit_of_mem_fixedDigits {width n : Nat} {c : Char} (h : c ∈ fixedDigits width n) :
    c.isDigit = true := by
  induction width generalizing n with
  | zero => simp [fixedDigits] at h
  | succ width ih =>
    rw [fixedDigits, List.mem_append, List.mem_singleton] at h
    rcases h with h | rfl
    · exact ih h
    · have hdigit : n % 10 < 10 := Nat.mod_lt _ (by decide)
      simp [Nat.isDigit_digitChar, hdigit]

/-- A number in at least four digits. -/
def atLeastFour (n : Nat) : List Char :=
  if n < 10000 then fixedDigits 4 n else Nat.toDigits 10 n

theorem ofDigitChars_atLeastFour (n : Nat) : Nat.ofDigitChars 10 (atLeastFour n) 0 = n := by
  unfold atLeastFour
  split
  · next h => exact ofDigitChars_fixedDigits (by omega)
  · exact Nat.ofDigitChars_ten_toDigits

theorem isDigit_of_mem_atLeastFour {n : Nat} {c : Char} (h : c ∈ atLeastFour n) :
    c.isDigit = true := by
  unfold atLeastFour at h
  split at h
  · exact isDigit_of_mem_fixedDigits h
  · exact Nat.isDigit_of_mem_toDigits (by decide) (by decide) h

theorem atLeastFour_ne_nil (n : Nat) : atLeastFour n ≠ [] := by
  unfold atLeastFour
  split
  · simp [fixedDigits]
  · exact Nat.toDigits_ne_nil

/-- A year. -/
def yearText : Int → List Char
  | .ofNat n => atLeastFour n
  | .negSucc n => '-' :: atLeastFour (n + 1)

/-- The fraction of a second in nanoseconds, without trailing zeros. -/
def fractionText (nanos : Nat) : List Char :=
  match (fixedDigits 9 nanos).rdropWhile (· = '0') with
  | [] => []
  | digits => '.' :: digits

/-- `01-02T15:04:05.999999999Z` after the year. -/
def afterYear (month day clock nanos : Nat) : List Char :=
  fixedDigits 2 month ++ '-' :: (fixedDigits 2 day ++ 'T' :: (fixedDigits 2 (clock / 3600) ++
    ':' :: (fixedDigits 2 (clock / 60 % 60) ++ ':' :: (fixedDigits 2 (clock % 60) ++
      (fractionText nanos ++ ['Z'])))))

/-- `2006-01-02T15:04:05.999999999Z`, the instant counted in nanoseconds. -/
def rfc3339Nano (t : Int) : List Char :=
  let seconds := t / 1000000000
  let yd := yearDay (seconds / 86400)
  let md := monthDay (isLeap yd.year) yd.day.toNat
  yearText yd.year ++ '-' :: afterYear md.1 md.2 (seconds % 86400).toNat (t % 1000000000).toNat

example : rfc3339Nano 63900374400500000000 = "2025-12-03T16:00:00.5Z".toList := by decide

/-- Texts cut at the same occurrence of a separator have the same parts. -/
theorem append_cons_inj_of_count {x : Char} {a a' b b' : List Char}
    (hcount : a.count x = a'.count x) (h : a ++ x :: b = a' ++ x :: b') : a = a' ∧ b = b' := by
  induction a generalizing a' with
  | nil =>
    cases a' with
    | nil => exact ⟨rfl, (List.cons.inj h).2⟩
    | cons y a' =>
      obtain ⟨rfl, -⟩ := List.cons.inj h
      simp at hcount
  | cons y a ih =>
    cases a' with
    | nil =>
      obtain ⟨rfl, -⟩ := List.cons.inj h
      simp at hcount
    | cons y' a' =>
      obtain ⟨rfl, htail⟩ := List.cons.inj h
      have htailCount : a.count x = a'.count x := by
        simp only [List.count_cons] at hcount
        omega
      obtain ⟨rfl, hrest⟩ := ih htailCount htail
      exact ⟨rfl, hrest⟩

/-! ## Different instants have different texts -/

theorem yearText_inj {y y' : Int} (h : yearText y = yearText y') : y = y' := by
  have hminus : ∀ n rest, atLeastFour n ≠ '-' :: rest := by
    intro n rest heq
    have hmem : '-' ∈ atLeastFour n := by simp [heq]
    exact absurd (isDigit_of_mem_atLeastFour hmem) (by decide)
  have hinj : ∀ {n n'}, atLeastFour n = atLeastFour n' → n = n' := fun {n n'} heq => by
    rw [← ofDigitChars_atLeastFour n, heq, ofDigitChars_atLeastFour]
  cases y with
  | ofNat n =>
    cases y' with
    | ofNat n' => rw [hinj h]
    | negSucc n' => exact absurd h (hminus _ _)
  | negSucc n =>
    cases y' with
    | ofNat n' => exact absurd h.symm (hminus _ _)
    | negSucc n' =>
      have hsucc := hinj (List.cons.inj h).2
      rw [Nat.succ.inj hsucc]

/-- After its first character a year holds no hyphen. -/
theorem exists_cons_yearText (y : Int) : ∃ c rest, yearText y = c :: rest ∧ '-' ∉ rest := by
  have hdigits : ∀ n, '-' ∉ atLeastFour n := fun n hmem =>
    absurd (isDigit_of_mem_atLeastFour hmem) (by decide)
  cases y with
  | ofNat n =>
    obtain ⟨c, rest, heq⟩ := List.exists_cons_of_ne_nil (atLeastFour_ne_nil n)
    refine ⟨c, rest, heq, fun hmem => hdigits n ?_⟩
    rw [heq]
    exact List.mem_cons_of_mem _ hmem
  | negSucc n => exact ⟨'-', _, rfl, hdigits (n + 1)⟩

/-- Digits without their trailing zeros determine the digits. -/
theorem rdropWhile_inj {l l' : List Char} (hlength : l.length = l'.length)
    (h : l.rdropWhile (· = '0') = l'.rdropWhile (· = '0')) : l = l' := by
  have hzeros : ∀ l : List Char,
      l = l.rdropWhile (· = '0') ++ List.replicate (l.length - (l.rdropWhile (· = '0')).length) '0' := by
    intro l
    have hsplit := List.rdropWhile_append_rtakeWhile (p := (· = '0')) (l := l)
    have hall : ∀ c ∈ l.rtakeWhile (· = '0'), c = '0' := fun c hc => by
      simpa using List.mem_rtakeWhile_imp hc
    have hrep := List.eq_replicate_of_mem hall
    have hlen := congrArg List.length hsplit
    rw [List.length_append] at hlen
    have htail : l.length - (l.rdropWhile (· = '0')).length = (l.rtakeWhile (· = '0')).length := by
      omega
    rw [htail, ← hrep, hsplit]
  rw [hzeros l, hzeros l', h, hlength]

theorem fractionText_inj {n n' : Nat} (hn : n < 10 ^ 9) (hn' : n' < 10 ^ 9)
    (h : fractionText n = fractionText n') : n = n' := by
  have hdigits : (fixedDigits 9 n).rdropWhile (· = '0') = (fixedDigits 9 n').rdropWhile (· = '0') := by
    unfold fractionText at h
    generalize (fixedDigits 9 n).rdropWhile (· = '0') = digits at *
    generalize (fixedDigits 9 n').rdropWhile (· = '0') = digits' at *
    cases digits <;> cases digits' <;> simp_all
  exact fixedDigits_inj hn hn' (rdropWhile_inj (by simp) hdigits)

theorem afterYear_inj {m m' d d' c c' n n' : Nat} (hm : m < 100 ∧ m' < 100)
    (hd : d < 100 ∧ d' < 100) (hc : c < 86400 ∧ c' < 86400) (hn : n < 10 ^ 9 ∧ n' < 10 ^ 9)
    (h : afterYear m d c n = afterYear m' d' c' n') : m = m' ∧ d = d' ∧ c = c' ∧ n = n' := by
  have hpair : ∀ {a a' : Nat} {x : Char} {rest rest' : List Char}, a < 100 ∧ a' < 100 →
      fixedDigits 2 a ++ x :: rest = fixedDigits 2 a' ++ x :: rest' → a = a' ∧ rest = rest' := by
    intro a a' x rest rest' ha heq
    obtain ⟨hdigits, hrest⟩ := List.append_inj heq (by simp)
    exact ⟨fixedDigits_inj ha.1 ha.2 hdigits, (List.cons.inj hrest).2⟩
  obtain ⟨hmonth, h⟩ := hpair hm h
  obtain ⟨hday, h⟩ := hpair hd h
  obtain ⟨hhour, h⟩ := hpair ⟨by omega, by omega⟩ h
  obtain ⟨hminute, h⟩ := hpair ⟨by omega, by omega⟩ h
  obtain ⟨hsecond, h⟩ := List.append_inj h (by simp)
  have hsecond := @fixedDigits_inj 2 _ _ (by omega) (by omega) hsecond
  have hnanos := fractionText_inj hn.1 hn.2 (List.append_cancel_right h)
  exact ⟨hmonth, hday, by omega, hnanos⟩

/-- Different instants have different texts. -/
theorem rfc3339Nano_injective {t t' : Int} (h : rfc3339Nano t = rfc3339Nano t') : t = t' := by
  simp only [rfc3339Nano] at h
  generalize hdays : t / 1000000000 / 86400 = days at h
  generalize hdays' : t' / 1000000000 / 86400 = days' at h
  obtain ⟨c, rest, hyear, hrest⟩ := exists_cons_yearText (yearDay days).year
  obtain ⟨c', rest', hyear', hrest'⟩ := exists_cons_yearText (yearDay days').year
  rw [hyear, hyear', List.cons_append, List.cons_append] at h
  obtain ⟨hc, h⟩ := List.cons.inj h
  obtain ⟨hrests, h⟩ := append_cons_inj_of_count
    (by rw [List.count_eq_zero.mpr hrest, List.count_eq_zero.mpr hrest']) h
  have hsameYear : (yearDay days).year = (yearDay days').year :=
    yearText_inj (by rw [hyear, hyear', hc, hrests])
  obtain ⟨hlo, hhi⟩ := yearDay_bounds days
  obtain ⟨hlo', hhi'⟩ := yearDay_bounds days'
  rw [hsameYear] at h
  generalize hleap : isLeap (yearDay days').year = leap at h
  have hmd := monthDay_bounds leap (yearDay days).day.toNat (by omega)
  have hmd' := monthDay_bounds leap (yearDay days').day.toNat (by omega)
  obtain ⟨hmonth, hday, hclock, hnanos⟩ := afterYear_inj ⟨hmd.1, hmd'.1⟩ ⟨hmd.2, hmd'.2⟩
    ⟨by omega, by omega⟩ ⟨by omega, by omega⟩ h
  have hsameDay : (yearDay days).day.toNat = (yearDay days').day.toNat := by
    rw [← dayOf_monthDay leap (yearDay days).day.toNat (by omega),
      ← dayOf_monthDay leap (yearDay days').day.toNat (by omega), Prod.ext hmonth hday]
  have hsameDays : days = days' := by
    rw [← daysOf_yearDay days, ← daysOf_yearDay days']
    simp only [daysOf, hsameYear]
    omega
  omega

/-- The text consists of digits and of the letters and marks of its form. -/
theorem mem_rfc3339Nano {t : Int} {c : Char} (h : c ∈ rfc3339Nano t) :
    c.isDigit = true ∨ c ∈ ['-', 'T', ':', '.', 'Z'] := by
  have hyear : ∀ y, c ∈ yearText y → c.isDigit = true ∨ c ∈ ['-', 'T', ':', '.', 'Z'] := by
    intro y hc
    cases y with
    | ofNat n => exact Or.inl (isDigit_of_mem_atLeastFour hc)
    | negSucc n =>
      rcases List.mem_cons.mp hc with rfl | hc
      · right
        decide
      · exact Or.inl (isDigit_of_mem_atLeastFour hc)
  have hfraction : ∀ n, c ∈ fractionText n → c.isDigit = true ∨ c ∈ ['-', 'T', ':', '.', 'Z'] := by
    intro n hc
    unfold fractionText at hc
    split at hc
    · exact absurd hc List.not_mem_nil
    · rcases List.mem_cons.mp hc with rfl | hc
      · right
        decide
      · exact Or.inl (isDigit_of_mem_fixedDigits ((List.rdropWhile_prefix _ _).subset hc))
  simp only [rfc3339Nano, afterYear, List.mem_append, List.mem_cons, List.not_mem_nil, or_false] at h
  rcases h with h | rfl | h | rfl | h | rfl | h | rfl | h | rfl | h | h | rfl
  · exact hyear _ h
  all_goals first
    | exact Or.inl (isDigit_of_mem_fixedDigits h)
    | exact hfraction _ h
    | exact Or.inr (by decide)

end Timestamps
