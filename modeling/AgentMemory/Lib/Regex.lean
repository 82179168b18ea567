import Mathlib.Data.List.Basic
import Mathlib.Data.List.Induction

/-!
# Regular expressions with leftmost-first matching

The regular expressions of Go's package `regexp`, as far as character classes, concatenation,
greedy repetitions and `\b` go. `ways` lists the ends of the matches at a position in the order in
which a backtracking matcher would find them, so its first element is the match that Go reports.
`Lang` says which texts match at all; a match depends on its surroundings only by whether a word
character stands before it and after it.
-/

namespace Regex

/-- A word character of `\b`: ASCII letters, digits and the underscore. -/
def isWord (c : Char) : Bool := c.isAlphanum || c == '_'

/-- The syntax: `[p]`, `[p]+`, `ab`, `a?`, `a{min,min+more}` and `\b`. -/
inductive Re where
  | char (p : Char → Bool)
  | plus (p : Char → Bool)
  | seq (a b : Re)
  | opt (a : Re)
  | times (a : Re) (min more : Nat)
  | boundary

/-- A position in a text: what stands before it, and the rest. -/
structure At where
  prev : Option Char
  rest : List Char

/-- `\b` holds here. -/
def At.boundary (s : At) : Bool := s.prev.any isWord != s.rest.head?.any isWord

/-- The ends of the runs of a class, the longest first. -/
def runs (p : Char → Bool) : List Char → List At
  | [] => []
  | c :: rest => if p c then runs p rest ++ [⟨some c, rest⟩] else []

/-- The ends of greedy repetitions, at most so many. -/
def atMost (f : At → List At) : Nat → At → List At
  | 0, s => [s]
  | more + 1, s => (f s).flatMap (atMost f more) ++ [s]

/-- The ends of greedy repetitions, from `min` to `min + more` of them. -/
def repeated (f : At → List At) (more : Nat) : (min : Nat) → At → List At
  | 0, s => atMost f more s
  | min + 1, s => (f s).flatMap (repeated f more min)

/-- The ends of the matches that begin here, the preferred one first. -/
def ways : Re → At → List At
  | .char p, s =>
    match s.rest with
    | [] => []
    | c :: rest => if p c then [⟨some c, rest⟩] else []
  | .plus p, s => runs p s.rest
  | .seq a b, s => (ways a s).flatMap (ways b)
  | .opt a, s => ways a s ++ [s]
  | .times a min more, s => repeated (ways a) more min s
  | .boundary, s => if s.boundary then [s] else []

/-! ## Languages -/

/-- Whether a word character follows, where this text and then `after` follow. -/
def headWord (w : List Char) (after : Bool) : Bool := (w.head?.map isWord).getD after

/-- Whether a word character stands last, where `before` and then this text stand. -/
def lastWord (before : Bool) (w : List Char) : Bool := (w.getLast?.map isWord).getD before

@[simp] theorem headWord_nil (after : Bool) : headWord [] after = after := rfl

@[simp] theorem headWord_cons (c : Char) (w : List Char) (after : Bool) : headWord (c :: w) after = isWord c := rfl

@[simp] theorem lastWord_nil (before : Bool) : lastWord before [] = before := rfl

@[simp] theorem lastWord_concat (before : Bool) (w : List Char) (c : Char) :
    lastWord before (w ++ [c]) = isWord c := by
  rw [lastWord, List.getLast?_concat]
  rfl

theorem headWord_append (u v : List Char) (after : Bool) : headWord (u ++ v) after = headWord u (headWord v after) := by
  cases u <;> rfl

theorem lastWord_append (before : Bool) (u v : List Char) :
    lastWord before (u ++ v) = lastWord (lastWord before u) v := by
  induction v using List.reverseRecOn with
  | nil => rw [List.append_nil, lastWord_nil]
  | append_singleton v c _ => rw [← List.append_assoc, lastWord_concat, lastWord_concat]

theorem headWord_of_ne_nil {w : List Char} (h : w ≠ []) (after after' : Bool) :
    headWord w after = headWord w after' := by
  cases w with
  | nil => exact absurd rfl h
  | cons c w => rfl

theorem lastWord_of_ne_nil {w : List Char} (h : w ≠ []) (before before' : Bool) :
    lastWord before w = lastWord before' w := by
  rw [← List.dropLast_append_getLast h, lastWord_concat, lastWord_concat]

/-- At most so many repetitions of a language. -/
def RepMost (L : Bool → List Char → Bool → Prop) : Nat → Bool → List Char → Bool → Prop
  | 0, _, w, _ => w = []
  | more + 1, l, w, r => w = [] ∨
      ∃ u v, w = u ++ v ∧ L l u (headWord v r) ∧ RepMost L more (lastWord l u) v r

/-- From `min` to `min + more` repetitions of a language. -/
def Rep (L : Bool → List Char → Bool → Prop) (more : Nat) : (min : Nat) → Bool → List Char → Bool → Prop
  | 0, l, w, r => RepMost L more l w r
  | min + 1, l, w, r => ∃ u v, w = u ++ v ∧ L l u (headWord v r) ∧ Rep L more min (lastWord l u) v r

/-- The texts that match, between surroundings with or without a word character next to them. -/
def Lang : Re → Bool → List Char → Bool → Prop
  | .char p, _, w, _ => ∃ c, p c = true ∧ w = [c]
  | .plus p, _, w, _ => w ≠ [] ∧ ∀ c ∈ w, p c = true
  | .seq a b, l, w, r => ∃ u v, w = u ++ v ∧ Lang a l u (headWord v r) ∧ Lang b (lastWord l u) v r
  | .opt a, l, w, r => w = [] ∨ Lang a l w r
  | .times a min more, l, w, r => Rep (Lang a) more min l w r
  | .boundary, l, w, r => w = [] ∧ l ≠ r

/-- A word character stands before the position. -/
def At.before (s : At) : Bool := s.prev.any isWord

/-- A word character stands after the position. -/
def At.after (s : At) : Bool := headWord s.rest false

/-- The position after this text. -/
def At.skip (s : At) (w : List Char) (rest : List Char) : At := ⟨w.getLast?.or s.prev, rest⟩

theorem before_skip (s : At) (w rest : List Char) : (s.skip w rest).before = lastWord s.before w := by
  induction w using List.reverseRecOn with
  | nil => rfl
  | append_singleton w c _ =>
    rw [lastWord_concat, At.skip, List.getLast?_concat]
    rfl

theorem skip_skip (s : At) (u v rest rest' : List Char) : (s.skip u rest).skip v rest' = s.skip (u ++ v) rest' := by
  induction v using List.reverseRecOn with
  | nil => simp [At.skip]
  | append_singleton v c _ => simp [At.skip, ← List.append_assoc]

@[simp] theorem skip_nil (s : At) : s.skip [] s.rest = s := rfl

/-- What ends a list of ends finds, as a language. -/
def Finds (f : At → List At) (L : Bool → List Char → Bool → Prop) : Prop :=
  ∀ s s', s' ∈ f s ↔ ∃ w, s.rest = w ++ s'.rest ∧ s' = s.skip w s'.rest ∧ L s.before w s'.after

theorem skip_cons (prev : Option Char) (c : Char) (w rest rest' : List Char) :
    At.skip ⟨prev, c :: rest⟩ (c :: w) rest' = At.skip ⟨some c, rest⟩ w rest' :=
  (skip_skip ⟨prev, c :: rest⟩ [c] w rest rest').symm

theorem mem_runs {p : Char → Bool} {rest : List Char} (prev : Option Char) {s' : At} : s' ∈ runs p rest ↔
    ∃ w, rest = w ++ s'.rest ∧ s' = At.skip ⟨prev, rest⟩ w s'.rest ∧ w ≠ [] ∧ ∀ c ∈ w, p c = true := by
  induction rest generalizing prev with
  | nil =>
    refine iff_of_false List.not_mem_nil fun ⟨w, hrest, _, hne, _⟩ => hne ?_
    exact (List.append_eq_nil_iff.mp hrest.symm).1
  | cons c rest ih =>
    unfold runs
    by_cases hc : p c = true
    · rw [if_pos hc, List.mem_append, List.mem_singleton, ih (some c)]
      constructor
      · rintro (⟨w, hrest, hs', -, hall⟩ | rfl)
        · refine ⟨c :: w, by rw [hrest]; rfl, ?_, List.cons_ne_nil c w, List.forall_mem_cons.mpr ⟨hc, hall⟩⟩
          rw [skip_cons, ← hs']
        · exact ⟨[c], rfl, rfl, List.cons_ne_nil c [], by simpa using hc⟩
      · intro ⟨w, hrest, hs', hne, hall⟩
        cases w with
        | nil => exact absurd rfl hne
        | cons d w =>
          obtain ⟨rfl, htail⟩ := List.cons.inj hrest
          rw [skip_cons] at hs'
          cases w with
          | nil =>
            right
            rw [hs', htail]
            rfl
          | cons e w => exact Or.inl ⟨e :: w, htail, hs', List.cons_ne_nil e w, (List.forall_mem_cons.mp hall).2⟩
    · rw [if_neg hc]
      refine iff_of_false List.not_mem_nil fun ⟨w, hrest, _, hne, hall⟩ => ?_
      cases w with
      | nil => exact hne rfl
      | cons d w =>
        obtain ⟨rfl, -⟩ := List.cons.inj hrest
        exact hc (hall c List.mem_cons_self)

/-- One match after another. -/
theorem Finds.seq {f g : At → List At} {L M : Bool → List Char → Bool → Prop} (hf : Finds f L) (hg : Finds g M) :
    Finds (fun s => (f s).flatMap g)
      fun l w r => ∃ u v, w = u ++ v ∧ L l u (headWord v r) ∧ M (lastWord l u) v r := by
  intro s s'
  rw [List.mem_flatMap]
  constructor
  · intro ⟨mid, hmid, hs'⟩
    obtain ⟨u, hu, hskip, hL⟩ := (hf s mid).mp hmid
    obtain ⟨v, hv, hskip', hM⟩ := (hg mid s').mp hs'
    refine ⟨u ++ v, ?_, ?_, u, v, rfl, ?_, ?_⟩
    · rw [hu, hv, List.append_assoc]
    · rw [hskip', hskip, skip_skip]
      rfl
    · rwa [At.after, hv, headWord_append] at hL
    · rwa [hskip, before_skip] at hM
  · intro ⟨w, hw, hs', u, v, hsplit, hL, hM⟩
    refine ⟨s.skip u (v ++ s'.rest), (hf s _).mpr ⟨u, ?_, rfl, ?_⟩, (hg _ s').mpr ⟨v, rfl, ?_, ?_⟩⟩
    · rw [hw, hsplit, List.append_assoc]
      rfl
    · rw [At.after]
      exact (headWord_append v s'.rest false).symm ▸ hL
    · rw [skip_skip, ← hsplit]
      exact hs'
    · rwa [before_skip]

/-- A match, or none. -/
theorem Finds.opt {f : At → List At} {L : Bool → List Char → Bool → Prop} (hf : Finds f L) :
    Finds (fun s => f s ++ [s]) fun l w r => w = [] ∨ L l w r := by
  intro s s'
  rw [List.mem_append, List.mem_singleton]
  constructor
  · rintro (hs' | rfl)
    · obtain ⟨w, hw, hskip, hL⟩ := (hf s s').mp hs'
      exact ⟨w, hw, hskip, Or.inr hL⟩
    · exact ⟨[], rfl, rfl, Or.inl rfl⟩
  · rintro ⟨w, hw, hskip, rfl | hL⟩
    · right
      rw [hskip, ← List.nil_append s'.rest, ← hw]
      rfl
    · exact Or.inl ((hf s s').mpr ⟨w, hw, hskip, hL⟩)

theorem finds_repeated {f : At → List At} {L : Bool → List Char → Bool → Prop} (hf : Finds f L) (min more : Nat) :
    Finds (repeated f more min) (Rep L more min) := by
  induction min with
  | zero =>
    change Finds (atMost f more) (RepMost L more)
    induction more with
    | zero =>
      intro s s'
      rw [atMost, List.mem_singleton]
      constructor
      · intro hs'
        exact ⟨[], by rw [hs']; rfl, by rw [hs']; rfl, rfl⟩
      · intro ⟨w, hw, hskip, hnil⟩
        obtain rfl : w = [] := hnil
        rw [hskip, ← List.nil_append s'.rest, ← hw]
        rfl
    | succ more ih => exact (hf.seq ih).opt
  | succ min ih => exact hf.seq ih

/-- `ways` finds what `Lang` describes. -/
theorem finds_ways (re : Re) : Finds (ways re) (Lang re) := by
  induction re with
  | char p =>
    intro s s'
    unfold ways
    cases hrest : s.rest with
    | nil =>
      refine iff_of_false List.not_mem_nil fun ⟨w, hw, _, c, _, hc⟩ => ?_
      rw [hc] at hw
      cases hw
    | cons c rest =>
      simp only
      by_cases hc : p c = true
      · rw [if_pos hc, List.mem_singleton]
        constructor
        · rintro rfl
          exact ⟨[c], rfl, rfl, c, hc, rfl⟩
        · rintro ⟨w, hw, hskip, d, -, rfl⟩
          obtain ⟨rfl, hrest'⟩ := List.cons.inj hw
          rw [hskip, hrest']
          rfl
      · rw [if_neg hc]
        refine iff_of_false List.not_mem_nil fun ⟨w, hw, _, d, hd, hw'⟩ => ?_
        rw [hw'] at hw
        obtain ⟨rfl, -⟩ := List.cons.inj hw
        exact hc hd
  | plus p => exact fun s s' => mem_runs s.prev
  | seq a b iha ihb => exact iha.seq ihb
  | opt a ih => exact ih.opt
  | times a min more ih => exact finds_repeated ih min more
  | boundary =>
    intro s s'
    unfold ways
    have hboundary : s.boundary = true ↔ s.before ≠ s.after := by
      rw [At.boundary, At.before, At.after, headWord, bne_iff_ne]
      cases s.rest <;> rfl
    by_cases h : s.boundary = true
    · rw [if_pos h, List.mem_singleton]
      constructor
      · rintro rfl
        exact ⟨[], rfl, rfl, rfl, hboundary.mp h⟩
      · rintro ⟨w, hw, hskip, rfl, -⟩
        rw [hskip, ← List.nil_append s'.rest, ← hw]
        rfl
    · rw [if_neg h]
      refine iff_of_false List.not_mem_nil fun ⟨w, hw, hskip, hnil, hne⟩ => h (hboundary.mpr ?_)
      rw [hnil, List.nil_append] at hw
      rwa [At.after, hw]

/-! ## Occurrences -/

/-- A match within a text that stands between these surroundings. -/
def OccursIn (r : Re) (before : Bool) (text : List Char) (after : Bool) : Prop :=
  ∃ pre w post, text = pre ++ w ++ post ∧ Lang r (lastWord before pre) w (headWord post after)

/-- Whether a match begins somewhere in the rest of a text. -/
def matchFrom (r : Re) (prev : Option Char) : List Char → Bool
  | [] => !(ways r ⟨prev, []⟩).isEmpty
  | c :: rest => !(ways r ⟨prev, c :: rest⟩).isEmpty || matchFrom r (some c) rest

/-- `MatchString`. -/
def matchString (r : Re) (text : List Char) : Bool := matchFrom r none text

theorem ways_ne_nil_iff (r : Re) (s : At) :
    ways r s ≠ [] ↔ ∃ w post, s.rest = w ++ post ∧ Lang r s.before w (headWord post false) := by
  constructor
  · intro hsome
    obtain ⟨s', hs'⟩ := List.exists_mem_of_ne_nil _ hsome
    obtain ⟨w, hw, -, hlang⟩ := (finds_ways r s s').mp hs'
    exact ⟨w, s'.rest, hw, hlang⟩
  · intro ⟨w, post, hw, hlang⟩
    exact List.ne_nil_of_mem ((finds_ways r s (s.skip w post)).mpr ⟨w, hw, rfl, hlang⟩)

theorem nonempty_ways_iff (r : Re) (s : At) : (!(ways r s).isEmpty) = true ↔
    ∃ w post, s.rest = w ++ post ∧ Lang r s.before w (headWord post false) := by
  rw [Bool.not_eq_true', List.isEmpty_eq_false_iff]
  exact ways_ne_nil_iff r s

theorem matchFrom_iff (r : Re) (prev : Option Char) (rest : List Char) :
    matchFrom r prev rest = true ↔ OccursIn r (prev.any isWord) rest false := by
  induction rest generalizing prev with
  | nil =>
    rw [matchFrom, nonempty_ways_iff]
    constructor
    · intro ⟨w, post, hrest, hlang⟩
      exact ⟨[], w, post, hrest, hlang⟩
    · intro ⟨pre, w, post, hrest, hlang⟩
      obtain ⟨hpre, rfl⟩ := List.append_eq_nil_iff.mp hrest.symm
      obtain ⟨rfl, rfl⟩ := List.append_eq_nil_iff.mp hpre
      exact ⟨[], [], rfl, hlang⟩
  | cons c rest ih =>
    rw [matchFrom, Bool.or_eq_true, nonempty_ways_iff, ih (some c)]
    constructor
    · rintro (⟨w, post, hrest, hlang⟩ | ⟨pre, w, post, hrest, hlang⟩)
      · exact ⟨[], w, post, hrest, hlang⟩
      · refine ⟨c :: pre, w, post, by rw [hrest]; rfl, ?_⟩
        rw [show c :: pre = [c] ++ pre from rfl, lastWord_append]
        exact hlang
    · intro ⟨pre, w, post, hrest, hlang⟩
      cases pre with
      | nil => exact Or.inl ⟨w, post, hrest, hlang⟩
      | cons d pre =>
        obtain ⟨rfl, htail⟩ := List.cons.inj hrest
        rw [show c :: pre = [c] ++ pre from rfl, lastWord_append] at hlang
        exact Or.inr ⟨pre, w, post, htail, hlang⟩

theorem matchString_iff (r : Re) (text : List Char) : matchString r text = true ↔ OccursIn r false text false :=
  matchFrom_iff r none text

end Regex
