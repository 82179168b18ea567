import AgentMemory.Lib.Occurrences
import AgentMemory.Lib.Regex

/-!
# Replacing all matches

`ReplaceAll` cuts a text into the matches it finds and the gaps between them, and puts a marker for
each match. Where the marker begins and ends with characters that no match contains, the new text
holds a match of a pattern only within a gap; and where the pattern looks at word boundaries, the
only new ones are those in front of a replaced match that began within a word.
-/

namespace Regex

/-! ## Scanning -/

/-- The gaps before the matches, with the matches, and the last gap. -/
def scan (r : Re) : Nat → At → List (List Char × List Char) × List Char
  | 0, s => ([], s.rest)
  | n + 1, s =>
    match s.rest with
    | [] => ([], [])
    | c :: rest =>
      match (ways r s).head? with
      | some s' =>
        let (found, last) := scan r n s'
        (([], s.rest.take (s.rest.length - s'.rest.length)) :: found, last)
      | none =>
        match scan r n ⟨some c, rest⟩ with
        | ([], last) => ([], c :: last)
        | ((gap, m) :: found, last) => ((c :: gap, m) :: found, last)

/-- The gaps and matches of a text. -/
def pieces (r : Re) (text : List Char) : List (List Char × List Char) × List Char := scan r text.length ⟨none, text⟩

/-- A text with a marker for every match. -/
def render (marker : List Char) (found : List (List Char × List Char)) (last : List Char) : List Char :=
  found.flatMap (fun piece => piece.1 ++ marker) ++ last

/-- `ReplaceAllString`, for a replacement without `$`. -/
def replaceAll (r : Re) (marker text : List Char) : List Char :=
  render marker (pieces r text).1 (pieces r text).2

/-- No match begins in `gap`, where `tail` follows it. -/
def NoStart (r : Re) (before : Bool) (gap tail : List Char) : Prop :=
  ∀ pre c post, gap = pre ++ c :: post → ∀ w rest, c :: post ++ tail = w ++ rest →
    ¬ Lang r (lastWord before pre) w (headWord rest false)

/-- How a text is cut into gaps and matches. -/
inductive Scanned (r : Re) : Bool → List Char → List (List Char × List Char) → List Char → Prop
  | last (before : Bool) (gap : List Char) (hno : NoStart r before gap []) : Scanned r before gap [] gap
  | piece (before : Bool) (gap m rest : List Char) (found : List (List Char × List Char)) (last : List Char)
      (hno : NoStart r before gap (m ++ rest))
      (hm : Lang r (lastWord before gap) m (headWord rest false))
      (hrest : Scanned r (lastWord before (gap ++ m)) rest found last) :
      Scanned r before (gap ++ m ++ rest) ((gap, m) :: found) last

theorem NoStart.nil (r : Re) (before : Bool) (tail : List Char) : NoStart r before [] tail := by
  intro pre c post hgap
  exact absurd hgap.symm (by simp)

theorem NoStart.cons {r : Re} {before : Bool} {c : Char} {gap tail : List Char}
    (hhere : ∀ w rest, c :: gap ++ tail = w ++ rest → ¬ Lang r before w (headWord rest false))
    (h : NoStart r (isWord c) gap tail) : NoStart r before (c :: gap) tail := by
  intro pre d post hgap w rest htext
  cases pre with
  | nil =>
    obtain ⟨rfl, rfl⟩ := List.cons.inj hgap
    exact hhere w rest htext
  | cons e pre =>
    obtain ⟨rfl, hgap'⟩ := List.cons.inj hgap
    have hno := h pre d post hgap' w rest htext
    rwa [show c :: pre = [c] ++ pre from rfl, lastWord_append]

/-- The scan is right. -/
theorem scanned_scan {r : Re} (hne : ∀ l w r', Lang r l w r' → w ≠ []) {n : Nat} {s : At} (hn : s.rest.length ≤ n) :
    Scanned r s.before s.rest (scan r n s).1 (scan r n s).2 := by
  induction n generalizing s with
  | zero =>
    have hrest : s.rest = [] := List.length_eq_zero_iff.mp (Nat.le_zero.mp hn)
    simp only [scan, hrest]
    exact .last _ _ (NoStart.nil r _ _)
  | succ n ih =>
    unfold scan
    cases hrest : s.rest with
    | nil => exact .last _ _ (NoStart.nil r _ _)
    | cons c rest =>
      rw [hrest, List.length_cons] at hn
      simp only
      cases hways : (ways r s).head? with
      | some s' =>
        obtain ⟨m, hm, hskip, hlang⟩ := (finds_ways r s s').mp (List.mem_of_head? hways)
        have hlength : 0 < m.length := List.length_pos_of_ne_nil (hne _ _ _ hlang)
        have hsplit := congrArg List.length hm
        rw [hrest, List.length_append, List.length_cons] at hsplit
        have htake : (c :: rest).take ((c :: rest).length - s'.rest.length) = m := by
          rw [← hrest, hm, List.length_append, Nat.add_sub_cancel, List.take_left]
        have hbefore : s'.before = lastWord s.before m := by
          rw [hskip, before_skip]
        have hrec := ih (s := s') (by omega)
        simp only [htake]
        rw [hbefore] at hrec
        rw [← hrest, hm]
        exact .piece s.before [] m s'.rest _ _ (NoStart.nil r _ _) hlang hrec
      | none =>
        have hnone : ways r s = [] := List.head?_eq_none_iff.mp hways
        have hhere : ∀ w tail, c :: rest = w ++ tail → ¬ Lang r s.before w (headWord tail false) := by
          intro w tail htext hlang
          exact (ways_ne_nil_iff r s).mpr ⟨w, tail, hrest.trans htext, hlang⟩ hnone
        have hrec := ih (s := ⟨some c, rest⟩) (Nat.le_of_succ_le_succ hn)
        change Scanned r (isWord c) rest _ _ at hrec
        cases hscan : scan r n ⟨some c, rest⟩ with
        | mk found last =>
          rw [hscan] at hrec
          cases hrec with
          | last _ _ hno => exact .last _ _ (NoStart.cons (by rwa [List.append_nil]) hno)
          | piece _ gap m rest' found _ hno hm hrec =>
            have hcons : c :: (gap ++ m ++ rest') = c :: gap ++ m ++ rest' := rfl
            have hlast : ∀ v : List Char, lastWord s.before (c :: v) = lastWord (isWord c) v := by
              intro v
              rw [show c :: v = [c] ++ v from rfl, lastWord_append]
              rfl
            rw [hcons]
            refine .piece s.before (c :: gap) m rest' found last (NoStart.cons ?_ hno) ?_ ?_
            · rwa [List.cons_append, ← List.append_assoc]
            · rwa [hlast]
            · rwa [List.cons_append, hlast]

/-! ## Gaps -/

/-- The gaps with whether a word character stands before and after each. -/
def gaps (before : Bool) : List (List Char × List Char) → List Char → List (Bool × List Char × Bool)
  | [], last => [(before, last, false)]
  | (gap, m) :: found, last => (before, gap, headWord m false) :: gaps (lastWord before (gap ++ m)) found last

theorem OccursIn.append_left {r : Re} {before after : Bool} {text : List Char} (pre : List Char)
    (h : OccursIn r (lastWord before pre) text after) : OccursIn r before (pre ++ text) after := by
  obtain ⟨u, w, post, rfl, hlang⟩ := h
  refine ⟨pre ++ u, w, post, by simp only [List.append_assoc], ?_⟩
  rwa [lastWord_append]

theorem OccursIn.append_right {r : Re} {before after : Bool} {text : List Char} (post : List Char)
    (h : OccursIn r before text (headWord post after)) : OccursIn r before (text ++ post) after := by
  obtain ⟨u, w, v, rfl, hlang⟩ := h
  refine ⟨u, w, v ++ post, by simp only [List.append_assoc], ?_⟩
  rwa [headWord_append]

section Scanned

variable {r : Re} {before : Bool} {text last : List Char} {found : List (List Char × List Char)}

/-- A match in a gap is a match in the text. -/
theorem Scanned.occursIn_of_gap (h : Scanned r before text found last) (hne : ∀ l w r', Lang r l w r' → w ≠ [])
    {q : Re} {b : Bool} {gap : List Char} {a : Bool} (hgap : (b, gap, a) ∈ gaps before found last)
    (hocc : OccursIn q b gap a) : OccursIn q before text false := by
  induction h with
  | last before gap' _ =>
    obtain ⟨rfl, rfl, rfl⟩ : b = before ∧ gap = gap' ∧ a = false := by
      simpa [gaps] using hgap
    exact hocc
  | piece before gap' m rest found last _ hm _ ih =>
    rcases List.mem_cons.mp hgap with heq | hgap
    · obtain ⟨rfl, rfl, rfl⟩ : b = before ∧ gap = gap' ∧ a = headWord m false := by
        simpa using heq
      rw [List.append_assoc]
      apply OccursIn.append_right
      rwa [headWord_append, headWord_of_ne_nil (hne _ _ _ hm) _ false]
    · exact (ih hgap).append_left _

/-- The scan leaves no match in a gap. -/
theorem Scanned.not_occursIn_gap (h : Scanned r before text found last) (hne : ∀ l w r', Lang r l w r' → w ≠ [])
    {b : Bool} {gap : List Char} {a : Bool} (hgap : (b, gap, a) ∈ gaps before found last) : ¬ OccursIn r b gap a := by
  -- a match in a gap begins there
  have hstart : ∀ {b : Bool} {gap tail : List Char}, NoStart r b gap tail →
      ¬ OccursIn r b gap (headWord tail false) := by
    intro b gap tail hno ⟨pre, w, post, hsplit, hlang⟩
    cases w with
    | nil => exact hne _ _ _ hlang rfl
    | cons c w =>
      have hgap' : gap = pre ++ c :: (w ++ post) := by rw [hsplit, List.append_assoc]; rfl
      refine hno pre c (w ++ post) hgap' (c :: w) (post ++ tail) (by simp) ?_
      rwa [headWord_append]
  induction h with
  | last before gap' hno =>
    obtain ⟨rfl, rfl, rfl⟩ : b = before ∧ gap = gap' ∧ a = false := by
      simpa [gaps] using hgap
    exact hstart hno
  | piece before gap' m rest found last hno hm _ ih =>
    rcases List.mem_cons.mp hgap with heq | hgap
    · obtain ⟨rfl, rfl, rfl⟩ : b = before ∧ gap = gap' ∧ a = headWord m false := by
        simpa using heq
      have hnone := hstart hno
      rwa [headWord_append, headWord_of_ne_nil (hne _ _ _ hm) _ false] at hnone
    · exact ih hgap

/-- What is found is a match. -/
theorem Scanned.lang_of_mem (h : Scanned r before text found last) {piece : List Char × List Char} (hpiece : piece ∈ found) :
    ∃ l r', Lang r l piece.2 r' := by
  induction h with
  | last => cases hpiece
  | piece before gap m rest found last _ hm _ ih =>
    rcases List.mem_cons.mp hpiece with rfl | hpiece
    · exact ⟨_, _, hm⟩
    · exact ih hpiece

/-- Where matches end at a word boundary, no gap begins within a word. -/
theorem Scanned.gap_begins (h : Scanned r before text found last) (hne : ∀ l w r', Lang r l w r' → w ≠ [])
    (htrail : ∀ l w r', Lang r l w r' → lastWord l w ≠ r') (hbefore : before = true → headWord text false = false)
    {gap : List Char} {a : Bool} (hgap : (true, gap, a) ∈ gaps before found last) : headWord gap a = false := by
  induction h with
  | last before gap' _ =>
    obtain ⟨rfl, rfl, rfl⟩ : before = true ∧ gap = gap' ∧ a = false := by
      simpa [gaps, eq_comm] using hgap
    exact hbefore rfl
  | piece before gap' m rest found last _ hm _ ih =>
    rcases List.mem_cons.mp hgap with heq | hgap
    · obtain ⟨rfl, rfl, rfl⟩ : before = true ∧ gap = gap' ∧ a = headWord m false := by
        simpa [eq_comm] using heq
      have hhead := hbefore rfl
      rwa [List.append_assoc, headWord_append, headWord_append, headWord_of_ne_nil (hne _ _ _ hm) _ false] at hhead
    · refine ih (fun hlast => ?_) hgap
      have hboundary := htrail _ _ _ hm
      rw [lastWord_append] at hlast
      rw [hlast] at hboundary
      exact Bool.eq_false_iff.mpr hboundary.symm

/-- Where matches begin at a word boundary, no gap ends within a word. -/
theorem Scanned.gap_ends (h : Scanned r before text found last) (hne : ∀ l w r', Lang r l w r' → w ≠ [])
    (hlead : ∀ l w r', Lang r l w r' → l ≠ headWord w r') {b : Bool} {gap : List Char}
    (hgap : (b, gap, true) ∈ gaps before found last) : lastWord b gap = false := by
  induction h with
  | last before gap' _ => simp [gaps] at hgap
  | piece before gap' m rest found last _ hm _ ih =>
    rcases List.mem_cons.mp hgap with heq | hgap
    · obtain ⟨rfl, rfl, hhead⟩ : b = before ∧ gap = gap' ∧ true = headWord m false := by
        simpa using heq
      have hboundary := hlead _ _ _ hm
      rw [headWord_of_ne_nil (hne _ _ _ hm) _ false, ← hhead] at hboundary
      exact Bool.eq_false_iff.mpr hboundary
    · exact ih hgap

end Scanned

/-! ## Markers -/

/-- A marker that no match touches: it stands between two characters that no match contains, neither of
which is a word character, and holds no match itself. -/
structure Marker (q : Re) (marker : List Char) where
  first : Char
  inner : List Char
  final : Char
  eq : marker = first :: inner ++ [final]
  first_word : isWord first = false
  final_word : isWord final = false
  first_not_mem : ∀ l w r, Lang q l w r → first ∉ w
  final_not_mem : ∀ l w r, Lang q l w r → final ∉ w
  outside : ∀ l w r, Lang q l w r → ∃ c ∈ w, c ∉ marker

theorem Marker.headWord_eq {q : Re} {marker : List Char} (h : Marker q marker) (after : Bool) :
    headWord marker after = false := by
  rw [h.eq]
  exact h.first_word

theorem Marker.lastWord_eq {q : Re} {marker : List Char} (h : Marker q marker) (before : Bool) :
    lastWord before marker = false := by
  rw [h.eq, lastWord_concat]
  exact h.final_word

/-- A match beside a marker is on one side of it. -/
theorem occursIn_marker {q : Re} {marker : List Char} (h : Marker q marker) {before after : Bool}
    {gap text : List Char} : OccursIn q before (gap ++ marker ++ text) after ↔
      OccursIn q before gap false ∨ OccursIn q false text after := by
  constructor
  · intro ⟨pre, w, post, hsplit, hlang⟩
    have hfirst := h.first_not_mem _ _ _ hlang
    have hfinal := h.final_not_mem _ _ _ hlang
    obtain ⟨c, hc, hmarker⟩ := h.outside _ _ _ hlang
    rw [List.append_assoc, List.append_assoc] at hsplit
    rcases List.append_eq_append_iff.mp hsplit with ⟨u, rfl, htail⟩ | ⟨u, rfl, htail⟩
    · -- the match begins behind the gap
      rcases List.append_eq_append_iff.mp htail with ⟨v, rfl, rfl⟩ | ⟨v, hv, hw⟩
      · right
        refine ⟨v, w, post, (List.append_assoc v w post).symm, ?_⟩
        rwa [← List.append_assoc, lastWord_append, lastWord_append, h.lastWord_eq] at hlang
      · rcases List.append_eq_append_iff.mp hw with ⟨x, rfl, -⟩ | ⟨x, rfl, rfl⟩
        · exact absurd (by rw [hv]; simp [hc]) hmarker
        · cases v using List.reverseRecOn with
          | nil =>
            rw [List.append_nil] at hv
            right
            refine ⟨[], x, post, rfl, ?_⟩
            rwa [← hv, lastWord_append, h.lastWord_eq] at hlang
          | append_singleton v d _ =>
            have hlast := congrArg List.getLast? (h.eq.symm.trans hv)
            rw [List.getLast?_concat, ← List.append_assoc, List.getLast?_concat] at hlast
            obtain rfl := Option.some.inj hlast
            exact absurd (by simp) hfinal
    · -- the match begins in the gap
      left
      rcases List.append_eq_append_iff.mp htail with ⟨v, rfl, rfl⟩ | ⟨v, rfl, hmark⟩
      · refine ⟨pre, w, v, (List.append_assoc pre w v).symm, ?_⟩
        rwa [headWord_append, headWord_append, h.headWord_eq] at hlang
      · cases v with
        | nil =>
          refine ⟨pre, u, [], by simp, ?_⟩
          rw [List.nil_append] at hmark
          rwa [List.append_nil, ← hmark, headWord_append, h.headWord_eq] at hlang
        | cons d v =>
          rw [h.eq] at hmark
          obtain ⟨rfl, -⟩ := List.cons.inj hmark
          exact absurd (by simp) hfirst
  · rintro (hocc | hocc)
    · rw [List.append_assoc]
      apply OccursIn.append_right
      rwa [headWord_append, h.headWord_eq]
    · apply OccursIn.append_left
      rwa [lastWord_append, h.lastWord_eq]

/-- In a text with markers, matches are in the gaps. -/
theorem occursIn_render {q : Re} {marker : List Char} (h : Marker q marker) {last : List Char}
    {found : List (List Char × List Char)} (before : Bool) : OccursIn q false (render marker found last) false ↔
      ∃ piece ∈ gaps before found last, OccursIn q false piece.2.1 false := by
  induction found generalizing before with
  | nil => simp [render, gaps]
  | cons piece found ih =>
    obtain ⟨gap, m⟩ := piece
    have hcons : render marker ((gap, m) :: found) last = gap ++ marker ++ render marker found last := by
      rw [render, List.flatMap_cons, List.append_assoc]
      rfl
    rw [hcons, occursIn_marker h, gaps, List.exists_mem_cons_iff, ih (lastWord before (gap ++ m))]

/-- Where nothing matches, nothing is replaced. -/
theorem replaceAll_of_not_occursIn {r : Re} (hne : ∀ l w r', Lang r l w r' → w ≠ []) {text : List Char} (marker : List Char)
    (h : ¬ OccursIn r false text false) : replaceAll r marker text = text := by
  have hscan : Scanned r false text (pieces r text).1 (pieces r text).2 :=
    scanned_scan (s := ⟨none, text⟩) hne (Nat.le_refl _)
  unfold replaceAll
  generalize (pieces r text).1 = found at hscan ⊢
  generalize (pieces r text).2 = last at hscan ⊢
  cases hscan with
  | last => rfl
  | piece _ gap m rest found _ _ hm _ => exact absurd ⟨gap, m, rest, rfl, hm⟩ h

/-! ## What matches contain -/

/-- The characters that matches may contain. -/
def Re.uses : Re → Char → Bool
  | .char p, c => p c
  | .plus p, c => p c
  | .seq a b, c => a.uses c || b.uses c
  | .opt a, c => a.uses c
  | .times a _ _, c => a.uses c
  | .boundary, _ => false

theorem RepMost.uses {L : Bool → List Char → Bool → Prop} {c : Char} {P : Prop} (hL : ∀ l w r, L l w r → c ∈ w → P)
    {more : Nat} {l r : Bool} {w : List Char} (h : RepMost L more l w r) (hc : c ∈ w) : P := by
  induction more generalizing l w with
  | zero =>
    obtain rfl : w = [] := h
    cases hc
  | succ more ih =>
    rcases h with rfl | ⟨u, v, rfl, hu, hv⟩
    · cases hc
    · rcases List.mem_append.mp hc with hc | hc
      · exact hL _ _ _ hu hc
      · exact ih hv hc

theorem Rep.uses {L : Bool → List Char → Bool → Prop} {c : Char} {P : Prop} (hL : ∀ l w r, L l w r → c ∈ w → P)
    {more min : Nat} {l r : Bool} {w : List Char} (h : Rep L more min l w r) (hc : c ∈ w) : P := by
  induction min generalizing l w with
  | zero => exact RepMost.uses hL h hc
  | succ min ih =>
    obtain ⟨u, v, rfl, hu, hv⟩ := h
    rcases List.mem_append.mp hc with hc | hc
    · exact hL _ _ _ hu hc
    · exact ih hv hc

theorem Lang.uses {re : Re} {l r : Bool} {w : List Char} (h : Lang re l w r) {c : Char} (hc : c ∈ w) :
    re.uses c = true := by
  induction re generalizing l r w with
  | char p =>
    obtain ⟨d, hd, rfl⟩ := h
    obtain rfl := List.mem_singleton.mp hc
    exact hd
  | plus p => exact h.2 c hc
  | seq a b iha ihb =>
    obtain ⟨u, v, rfl, hu, hv⟩ := h
    rw [Re.uses, Bool.or_eq_true]
    exact (List.mem_append.mp hc).imp (iha hu) (ihb hv)
  | opt a ih =>
    rcases h with rfl | h
    · cases hc
    · exact ih h hc
  | times a min more ih => exact Rep.uses (fun _ _ _ h hc => ih h hc) h hc
  | boundary =>
    obtain ⟨rfl, -⟩ := h
    cases hc

/-- Every match contains such a character. -/
def Needs (p : Char → Bool) (re : Re) : Prop := ∀ l w r, Lang re l w r → ∃ c ∈ w, p c = true

theorem Needs.char {p q : Char → Bool} (h : ∀ c, q c = true → p c = true) : Needs p (.char q) := by
  rintro l w r ⟨c, hc, rfl⟩
  exact ⟨c, List.mem_singleton_self c, h c hc⟩

theorem Needs.seq_left {p : Char → Bool} {a : Re} (h : Needs p a) (b : Re) : Needs p (.seq a b) := by
  rintro l w r ⟨u, v, rfl, hu, -⟩
  obtain ⟨c, hc, hp⟩ := h _ _ _ hu
  exact ⟨c, List.mem_append_left v hc, hp⟩

theorem Needs.seq_right {p : Char → Bool} (a : Re) {b : Re} (h : Needs p b) : Needs p (.seq a b) := by
  rintro l w r ⟨u, v, rfl, -, hv⟩
  obtain ⟨c, hc, hp⟩ := h _ _ _ hv
  exact ⟨c, List.mem_append_right u hc, hp⟩

theorem Needs.times {p : Char → Bool} {a : Re} (h : Needs p a) (min more : Nat) : Needs p (.times a (min + 1) more) := by
  rintro l w r ⟨u, v, rfl, hu, -⟩
  obtain ⟨c, hc, hp⟩ := h _ _ _ hu
  exact ⟨c, List.mem_append_left v hc, hp⟩

/-! ## Patterns between word boundaries -/

/-- An expression without `\b`. -/
def Re.free : Re → Bool
  | .char _ => true
  | .plus _ => true
  | .seq a b => a.free && b.free
  | .opt a => a.free
  | .times a _ _ => a.free
  | .boundary => false

theorem RepMost.congr {L : Bool → List Char → Bool → Prop} (hL : ∀ l w r l' r', L l w r → L l' w r') {more : Nat}
    {l r : Bool} {w : List Char} (l' r' : Bool) (h : RepMost L more l w r) : RepMost L more l' w r' := by
  induction more generalizing l l' w with
  | zero => exact h
  | succ more ih =>
    rcases h with h | ⟨u, v, hw, hu, hv⟩
    · exact Or.inl h
    · exact Or.inr ⟨u, v, hw, hL _ _ _ _ _ hu, ih _ hv⟩

theorem Rep.congr {L : Bool → List Char → Bool → Prop} (hL : ∀ l w r l' r', L l w r → L l' w r') {more min : Nat}
    {l r : Bool} {w : List Char} (l' r' : Bool) (h : Rep L more min l w r) : Rep L more min l' w r' := by
  induction min generalizing l l' w with
  | zero => exact RepMost.congr hL l' r' h
  | succ min ih =>
    obtain ⟨u, v, hw, hu, hv⟩ := h
    exact ⟨u, v, hw, hL _ _ _ _ _ hu, ih _ hv⟩

/-- Without `\b` the surroundings do not matter. -/
theorem Lang.congr {re : Re} (hfree : re.free = true) {l r : Bool} {w : List Char} (l' r' : Bool) (h : Lang re l w r) :
    Lang re l' w r' := by
  induction re generalizing l l' r r' w with
  | char p => exact h
  | plus p => exact h
  | seq a b iha ihb =>
    rw [Re.free, Bool.and_eq_true] at hfree
    obtain ⟨u, v, hw, hu, hv⟩ := h
    exact ⟨u, v, hw, iha hfree.1 _ _ hu, ihb hfree.2 _ _ hv⟩
  | opt a ih => exact h.imp_right (ih hfree _ _)
  | times a min more ih =>
    have hsame : ∀ l w r l' r', Lang a l w r → Lang a l' w r' := fun _ _ _ l' r' h => ih hfree l' r' h
    exact Rep.congr hsame l' r' h
  | boundary => cases hfree

/-- An expression that asks for word boundaries at its ends only. -/
structure Framed where
  lead : Bool
  core : Re
  trail : Bool
  free : core.free = true

/-- The expression as it is written. -/
def Framed.re (p : Framed) : Re :=
  let body := if p.trail then .seq p.core .boundary else p.core
  if p.lead then .seq .boundary body else body

theorem Framed.lang_iff (p : Framed) {l r : Bool} {w : List Char} : Lang p.re l w r ↔
    Lang p.core false w false ∧ (p.lead = true → l ≠ headWord w r) ∧ (p.trail = true → lastWord l w ≠ r) := by
  have hbody : ∀ {l r : Bool} {w : List Char}, Lang (if p.trail then .seq p.core .boundary else p.core) l w r ↔
      Lang p.core false w false ∧ (p.trail = true → lastWord l w ≠ r) := by
    intro l r w
    cases p.trail with
    | false =>
      refine ⟨fun h => ⟨h.congr p.free _ _, fun h => nomatch h⟩, fun h => h.1.congr p.free _ _⟩
    | true =>
      constructor
      · rintro ⟨u, v, rfl, hu, rfl, hne⟩
        rw [List.append_nil]
        exact ⟨hu.congr p.free _ _, fun _ => hne⟩
      · intro ⟨hcore, hne⟩
        exact ⟨w, [], (List.append_nil w).symm, hcore.congr p.free _ _, rfl, hne rfl⟩
  unfold Framed.re
  cases p.lead with
  | false =>
    refine hbody.trans ⟨fun h => ⟨h.1, ?_, h.2⟩, fun h => ⟨h.1, h.2.2⟩⟩
    exact fun hlead => nomatch hlead
  | true =>
    constructor
    · rintro ⟨u, v, rfl, ⟨rfl, hne⟩, hv⟩
      obtain ⟨hcore, htrail⟩ := hbody.mp hv
      exact ⟨hcore, fun _ => hne, htrail⟩
    · intro ⟨hcore, hlead, htrail⟩
      exact ⟨[], w, rfl, ⟨rfl, hlead rfl⟩, hbody.mpr ⟨hcore, htrail⟩⟩

/-- A marker in brackets holds nothing that matches need, and no match uses brackets. -/
def Framed.marker (p : Framed) {need : Char → Bool} (hneed : Needs need p.core) (inner : List Char)
    (hopen : p.core.uses '[' = false) (hclose : p.core.uses ']' = false)
    (hinner : ∀ c ∈ '[' :: inner ++ [']'], need c = false) : Marker p.re ('[' :: inner ++ [']']) where
  first := '['
  inner := inner
  final := ']'
  eq := rfl
  first_word := rfl
  final_word := rfl
  first_not_mem l w r h hmem := by
    rw [(p.lang_iff.mp h).1.uses hmem] at hopen
    cases hopen
  final_not_mem l w r h hmem := by
    rw [(p.lang_iff.mp h).1.uses hmem] at hclose
    cases hclose
  outside l w r h := by
    obtain ⟨c, hc, hp⟩ := hneed _ _ _ (p.lang_iff.mp h).1
    refine ⟨c, hc, fun hmem => ?_⟩
    rw [hinner c hmem] at hp
    cases hp

/-- A text ends in a match, if a word ends there. -/
def EndsIn (q : Re) (text : List Char) : Prop := ∃ pre w, text = pre ++ w ∧ Lang q (lastWord false pre) w false

theorem EndsIn.occursIn {q : Re} {text : List Char} (h : EndsIn q text) : OccursIn q false text false := by
  obtain ⟨pre, w, htext, hlang⟩ := h
  exact ⟨pre, w, [], by rw [htext, List.append_nil], hlang⟩

section Replace

variable {r q : Framed} {marker text : List Char}

/-- The scan of a text. -/
theorem scanned_pieces (hne : ∀ w, Lang r.core false w false → w ≠ []) (text : List Char) :
    Scanned r.re false text (pieces r.re text).1 (pieces r.re text).2 :=
  scanned_scan (s := ⟨none, text⟩) (fun _ w _ h => hne w (r.lang_iff.mp h).1) (Nat.le_refl _)

/-- What matches in a gap only since markers stand around it: the end of a gap in front of a match that
began within a word. -/
theorem endsIn_of_gap (hr : ∀ w, Lang r.core false w false → w ≠ []) (hq : ∀ w, Lang q.core false w false → w ≠ [])
    (hlead : q.lead = true → r.trail = true) {b : Bool} {gap : List Char} {a : Bool}
    (hgap : (b, gap, a) ∈ gaps false (pieces r.re text).1 (pieces r.re text).2)
    (hocc : OccursIn q.re false gap false) (hnone : ¬ OccursIn q.re b gap a) :
    a = true ∧ q.trail = true ∧ r.lead = false ∧ EndsIn q.re gap := by
  have hne : ∀ l w r', Lang r.re l w r' → w ≠ [] := fun _ w _ h => hr w (r.lang_iff.mp h).1
  have hscan := scanned_pieces hr text
  obtain ⟨pre, w, post, hsplit, hlang⟩ := hocc
  obtain ⟨hcore, hleft, hright⟩ := q.lang_iff.mp hlang
  have hw := hq w hcore
  -- on the left the surroundings make no difference
  have hleft' : q.lead = true → lastWord b pre ≠ headWord w (headWord post a) := by
    intro hq
    have hne' := hleft hq
    rw [headWord_of_ne_nil hw _ (headWord post a)] at hne'
    cases pre using List.reverseRecOn with
    | append_singleton pre c _ => rwa [lastWord_concat] at hne' ⊢
    | nil =>
      cases b with
      | false => exact hne'
      | true =>
        have hbegin := hscan.gap_begins hne (fun _ _ _ h => (r.lang_iff.mp h).2.2 (hlead hq)) (fun h => nomatch h) hgap
        rw [hsplit, List.nil_append, headWord_append, headWord_of_ne_nil hw _ (headWord post a)] at hbegin
        rw [hbegin]
        exact Bool.noConfusion
  by_contra hcontra
  refine hnone ⟨pre, w, post, hsplit, q.lang_iff.mpr ⟨hcore, hleft', fun hq => ?_⟩⟩
  have hne' := hright hq
  rw [lastWord_of_ne_nil hw _ (lastWord false pre)]
  cases post with
  | cons c post => exact hne'
  | nil =>
    cases a with
    | false => exact hne'
    | true =>
      intro hlast
      have hends : EndsIn q.re gap := ⟨pre, w, by rw [hsplit, List.append_nil], hlang⟩
      cases hr' : r.lead with
      | false => exact hcontra ⟨rfl, hq, hr', hends⟩
      | true =>
        have hend := hscan.gap_ends hne (fun _ _ _ h => (r.lang_iff.mp h).2.1 hr') hgap
        rw [hsplit, List.append_nil, lastWord_append, lastWord_of_ne_nil hw _ (lastWord false pre), hlast] at hend
        cases hend

/-- No match of the replaced pattern is left in a gap, nor one of a pattern that did not match. -/
theorem not_occursIn_gap (hr : ∀ w, Lang r.core false w false → w ≠ [])
    (hnone : q = r ∨ ¬ OccursIn q.re false text false) {b : Bool} {gap : List Char} {a : Bool}
    (hgap : (b, gap, a) ∈ gaps false (pieces r.re text).1 (pieces r.re text).2) : ¬ OccursIn q.re b gap a := by
  have hne : ∀ l w r', Lang r.re l w r' → w ≠ [] := fun _ w _ h => hr w (r.lang_iff.mp h).1
  have hscan := scanned_pieces hr text
  rcases hnone with rfl | hnone
  · exact hscan.not_occursIn_gap hne hgap
  · exact fun hocc => hnone (hscan.occursIn_of_gap hne hgap hocc)

/-- A pattern that begins and ends at word boundaries where the replaced one does has no new matches. -/
theorem not_occursIn_replaceAll (hm : Marker q.re marker) (hr : ∀ w, Lang r.core false w false → w ≠ [])
    (hq : ∀ w, Lang q.core false w false → w ≠ []) (hlead : q.lead = true → r.trail = true)
    (htrail : q.trail = true → r.lead = true) (hnone : q = r ∨ ¬ OccursIn q.re false text false) :
    ¬ OccursIn q.re false (replaceAll r.re marker text) false := by
  intro hocc
  obtain ⟨⟨b, gap, a⟩, hgap, hocc⟩ := (occursIn_render hm false).mp hocc
  obtain ⟨-, hq', hr', -⟩ := endsIn_of_gap hr hq hlead hgap hocc (not_occursIn_gap hr hnone hgap)
  rw [htrail hq'] at hr'
  cases hr'

theorem mem_found_of_gap {before b : Bool} {found : List (List Char × List Char)} {last gap : List Char}
    (h : (b, gap, true) ∈ gaps before found last) : ∃ m, (gap, m) ∈ found := by
  induction found generalizing before with
  | nil => simp [gaps] at h
  | cons piece found ih =>
    rcases List.mem_cons.mp h with heq | h
    · obtain rfl : gap = piece.1 := congrArg (fun entry => entry.2.1) heq
      exact ⟨piece.2, List.mem_cons_self⟩
    · obtain ⟨m, hm⟩ := ih h
      exact ⟨m, List.mem_cons_of_mem _ hm⟩

theorem exists_gap {before : Bool} {found : List (List Char × List Char)} {last : List Char}
    {piece : List Char × List Char} (h : piece ∈ found) :
    ∃ b, (b, piece.1, headWord piece.2 false) ∈ gaps before found last := by
  induction found generalizing before with
  | nil => cases h
  | cons first found ih =>
    rcases List.mem_cons.mp h with rfl | h
    · exact ⟨before, List.mem_cons_self⟩
    · obtain ⟨b, hgap⟩ := ih h
      exact ⟨b, List.mem_cons_of_mem _ hgap⟩

/-- Otherwise its new matches are the ends of gaps in front of a replaced match. -/
theorem occursIn_replaceAll_iff (hm : Marker q.re marker) (hr : ∀ w, Lang r.core false w false → w ≠ [])
    (hq : ∀ w, Lang q.core false w false → w ≠ []) (hlead : q.lead = true → r.trail = true)
    (hnone : q = r ∨ ¬ OccursIn q.re false text false) :
    OccursIn q.re false (replaceAll r.re marker text) false ↔ ∃ piece ∈ (pieces r.re text).1, EndsIn q.re piece.1 := by
  refine (occursIn_render hm false).trans ⟨?_, ?_⟩
  · intro ⟨⟨b, gap, a⟩, hgap, hocc⟩
    obtain ⟨rfl, -, -, hends⟩ := endsIn_of_gap hr hq hlead hgap hocc (not_occursIn_gap hr hnone hgap)
    obtain ⟨m, hm⟩ := mem_found_of_gap hgap
    exact ⟨(gap, m), hm, hends⟩
  · intro ⟨piece, hpiece, hends⟩
    obtain ⟨b, hgap⟩ := exists_gap hpiece
    exact ⟨_, hgap, hends.occursIn⟩

/-- There the replaced match begins within a word. -/
theorem headWord_of_endsIn (hr : ∀ w, Lang r.core false w false → w ≠ []) (hq : ∀ w, Lang q.core false w false → w ≠ [])
    (hlead : q.lead = true → r.trail = true) (hnone : q = r ∨ ¬ OccursIn q.re false text false)
    {piece : List Char × List Char} (hpiece : piece ∈ (pieces r.re text).1) (hends : EndsIn q.re piece.1) :
    headWord piece.2 false = true := by
  obtain ⟨b, hgap⟩ : ∃ b, (b, piece.1, headWord piece.2 false) ∈ gaps false (pieces r.re text).1 (pieces r.re text).2 :=
    exists_gap hpiece
  exact (endsIn_of_gap hr hq hlead hgap hends.occursIn (not_occursIn_gap hr hnone hgap)).1

/-- What does not reach over the ends of a marker occurs in a gap. -/
theorem infix_map_render {α : Type} {f : Char → α} {t : List α} {x y : Char} {inner : List Char} (hx : f x ∉ t)
    (hy : f y ∉ t) (hinner : ¬ t <:+: inner.map f) {found : List (List Char × List Char)} {last : List Char}
    (h : t <:+: (render (x :: inner ++ [y]) found last).map f) :
    (∃ piece ∈ found, t <:+: piece.1.map f) ∨ t <:+: last.map f := by
  induction found with
  | nil => exact .inr h
  | cons piece found ih =>
    have hsplit : (render (x :: inner ++ [y]) (piece :: found) last).map f =
        piece.1.map f ++ f x :: (inner.map f ++ f y :: (render (x :: inner ++ [y]) found last).map f) := by
      simp [render]
    rw [hsplit, Occurrences.infix_append_cons_iff hx, Occurrences.infix_append_cons_iff hy] at h
    rcases h with hgap | hmarker | hrest
    · exact .inl ⟨piece, List.mem_cons_self, hgap⟩
    · exact absurd hmarker hinner
    · exact (ih hrest).imp_left fun hex => by
        obtain ⟨p, hp, hinfix⟩ := hex
        exact ⟨p, List.mem_cons_of_mem _ hp, hinfix⟩

/-- The gaps are parts of the text. -/
theorem Scanned.gap_isInfix {q : Re} {before : Bool} {text : List Char} {found : List (List Char × List Char)}
    {last : List Char} (h : Scanned q before text found last) : (∀ piece ∈ found, piece.1 <:+: text) ∧ last <:+: text := by
  induction h with
  | last before gap hno => exact ⟨by simp, List.infix_rfl⟩
  | piece before gap m rest found last hno hm hrest ih =>
    have hsuffix : rest <:+: gap ++ m ++ rest := (List.suffix_append _ _).isInfix
    refine ⟨List.forall_mem_cons.mpr ⟨?_, fun p hp => (ih.1 p hp).trans hsuffix⟩, ih.2.trans hsuffix⟩
    rw [List.append_assoc]
    exact (List.prefix_append _ _).isInfix

end Replace

end Regex
