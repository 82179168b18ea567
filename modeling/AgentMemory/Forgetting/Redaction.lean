import AgentMemory.Lib.Replace

/-!
# Redacting personal data

`RedactPII` (`internal/services/forgetting/redaction.go:20-38`) replaces emails, CPF numbers, card
numbers and phone numbers, one pattern after the other. Only the phone pattern may begin within a
word, so it can cut a long run of digits: what is left of the run in front of the marker ends at a
word boundary now, and may itself be a number. `redactPII_fixed_iff` says that nothing else is left.
-/

namespace AgentMemory

open Regex

/-- An entry of `piiPatterns` (`redaction.go:15-18`). -/
structure PIIPattern where
  kind : String
  pattern : Framed

namespace PII

/-- `[A-Za-z0-9._%+\-]` -/
def localPart (c : Char) : Bool := c.isAlphanum || c ∈ ['.', '_', '%', '+', '-']

/-- `[A-Za-z0-9.\-]` -/
def domainPart (c : Char) : Bool := c.isAlphanum || c ∈ ['.', '-']

/-- `c?` -/
def atMostOne (c : Char) : Re := .opt (.char (· == c))

/-- `[ -]?` -/
def separator : Re := .opt (.char fun c => c == ' ' || c == '-')

/-- `\d{min,min+more}` -/
def digits (min more : Nat) : Re := .times (.char Char.isDigit) min more

/-- `[A-Za-z0-9._%+\-]+@[A-Za-z0-9.\-]+\.[A-Za-z]{2,}` -/
def email : Framed where
  lead := false
  core := .seq (.plus localPart) <| .seq (.char (· == '@')) <| .seq (.plus domainPart) <|
    .seq (.char (· == '.')) <| .seq (.char Char.isAlpha) (.plus Char.isAlpha)
  trail := false
  free := rfl

/-- `\b\d{3}\.?\d{3}\.?\d{3}-?\d{2}\b` -/
def cpf : Framed where
  lead := true
  core := .seq (digits 3 0) <| .seq (atMostOne '.') <| .seq (digits 3 0) <| .seq (atMostOne '.') <|
    .seq (digits 3 0) <| .seq (atMostOne '-') (digits 2 0)
  trail := true
  free := rfl

/-- `\b(?:\d[ -]?){13,19}\b` -/
def card : Framed where
  lead := true
  core := .times (.seq (.char Char.isDigit) separator) 13 6
  trail := true
  free := rfl

/-- `(?:\+?\d{1,3}[ \-]?)?(?:\(\d{2,3}\)[ \-]?)?\d{4,5}[ \-]?\d{4}\b` -/
def phone : Framed where
  lead := false
  core := .seq (.opt (.seq (atMostOne '+') (.seq (digits 1 2) separator))) <|
    .seq (.opt (.seq (.char (· == '(')) (.seq (digits 2 1) (.seq (.char (· == ')')) separator)))) <|
    .seq (digits 4 1) (.seq separator (digits 4 0))
  trail := true
  free := rfl

end PII

/-- `piiPatterns` (`redaction.go:20-25`). -/
def piiPatterns : List PIIPattern :=
  [⟨"email", PII.email⟩, ⟨"cpf", PII.cpf⟩, ⟨"card", PII.card⟩, ⟨"phone", PII.phone⟩]

/-- What takes the place of a match. -/
def piiMarker (kind : String) : List Char := '[' :: ("REDACTED:".toList ++ kind.toList) ++ [']']

/-- One round of the loop of `RedactPII`. -/
def redactStep (state : List Char × Bool) (p : PIIPattern) : List Char × Bool :=
  if matchString p.pattern.re state.1 then (replaceAll p.pattern.re (piiMarker p.kind) state.1, true) else state

/-- `RedactPII` (`redaction.go:29-38`). -/
def redactPII (text : String) : String × Bool :=
  let (redacted, changed) := piiPatterns.foldl redactStep (text.toList, false)
  (String.ofList redacted, changed)

/-- The text before the last round: emails, CPF and card numbers are replaced. -/
def beforePhones (text : List Char) : List Char := ((piiPatterns.take 3).foldl redactStep (text, false)).1

/-- The patterns of numbers. -/
def numberPatterns : List Framed := [PII.cpf, PII.card, PII.phone]

/-- A phone number is found directly behind a number. -/
def NumberBeforePhone (text : List Char) : Prop :=
  ∃ piece ∈ (pieces PII.phone.re text).1, ∃ q ∈ numberPatterns, EndsIn q.re piece.1

namespace PII

/-- What every match contains, and no marker. -/
def telling (c : Char) : Bool := c.isDigit || c == '@'

theorem needs_digits (min more : Nat) : Needs telling (digits (min + 1) more) :=
  Needs.times (Needs.char fun c hc => by rw [telling, hc, Bool.true_or]) min more

theorem needs_email : Needs telling email.core := by
  refine Needs.seq_right _ (Needs.seq_left (Needs.char fun c hc => ?_) _)
  rw [telling, hc, Bool.or_true]

theorem needs_cpf : Needs telling cpf.core := Needs.seq_left (needs_digits 2 0) _

theorem needs_card : Needs telling card.core := by
  refine Needs.times (Needs.seq_left (Needs.char fun c hc => ?_) _) 12 6
  rw [telling, hc, Bool.true_or]

theorem needs_phone : Needs telling phone.core :=
  Needs.seq_right _ (Needs.seq_right _ (Needs.seq_left (needs_digits 3 1) _))

theorem ne_nil_of_needs {need : Char → Bool} {re : Re} (h : Needs need re) (w : List Char)
    (hw : Lang re false w false) : w ≠ [] := by
  rintro rfl
  obtain ⟨c, hc, -⟩ := h _ _ _ hw
  cases hc

/-- What the proofs use of a pattern. -/
structure Known (q : Framed) : Prop where
  needs : Needs telling q.core
  opening : q.core.uses '[' = false
  closing : q.core.uses ']' = false

theorem known_email : Known email := ⟨needs_email, rfl, rfl⟩
theorem known_cpf : Known cpf := ⟨needs_cpf, rfl, rfl⟩
theorem known_card : Known card := ⟨needs_card, rfl, rfl⟩
theorem known_phone : Known phone := ⟨needs_phone, rfl, rfl⟩

/-- No marker contains what every match does. -/
theorem telling_marker {p : PIIPattern} (hp : p ∈ piiPatterns) : ∀ c ∈ piiMarker p.kind, telling c = false := by
  have hall : (piiMarker p.kind).all (fun c => !telling c) = true := by
    simp only [piiPatterns, List.mem_cons, List.not_mem_nil, or_false] at hp
    rcases hp with rfl | rfl | rfl | rfl
    · decide
    · decide
    · decide
    · decide
  intro c hc
  simpa using List.all_eq_true.mp hall c hc

theorem known_of_mem {p : PIIPattern} (hp : p ∈ piiPatterns) : Known p.pattern := by
  simp only [piiPatterns, List.mem_cons, List.not_mem_nil, or_false] at hp
  rcases hp with rfl | rfl | rfl | rfl
  · exact known_email
  · exact known_cpf
  · exact known_card
  · exact known_phone

theorem Known.ne_nil {q : Framed} (h : Known q) : ∀ w, Lang q.core false w false → w ≠ [] := ne_nil_of_needs h.needs

/-- No match of a pattern touches a marker. -/
def Known.marker {q : Framed} (h : Known q) {p : PIIPattern} (hp : p ∈ piiPatterns) : Marker q.re (piiMarker p.kind) :=
  q.marker h.needs _ h.opening h.closing (telling_marker hp)

end PII

/-! ## Rounds -/

section Rounds

open PII

/-- A pattern that does not match a text. -/
def Unmatched (q : Framed) (text : List Char) : Prop := ¬ OccursIn q.re false text false

theorem unmatched_iff (q : Framed) (text : List Char) : Unmatched q text ↔ matchString q.re text = false := by
  rw [Unmatched, ← matchString_iff, Bool.not_eq_true]

/-- A round replaces whatever there is to replace. -/
theorem redactStep_text {p : PIIPattern} (hp : p ∈ piiPatterns) (state : List Char × Bool) :
    (redactStep state p).1 = replaceAll p.pattern.re (piiMarker p.kind) state.1 := by
  unfold redactStep
  split
  · rfl
  · next hnone =>
    have hne : ∀ l w r, Lang p.pattern.re l w r → w ≠ [] :=
      fun _ w _ h => (known_of_mem hp).ne_nil w (p.pattern.lang_iff.mp h).1
    refine (replaceAll_of_not_occursIn hne _ ?_).symm
    exact (unmatched_iff p.pattern state.1).mpr (Bool.eq_false_iff.mpr hnone)

/-- A round for a pattern that begins and ends at word boundaries brings no such pattern back. -/
theorem unmatched_replaceAll {q r : Framed} {kind : String} (hq : Known q) (hr : (⟨kind, r⟩ : PIIPattern) ∈ piiPatterns)
    (hlead : q.lead = true → r.trail = true) (htrail : q.trail = true → r.lead = true) {text : List Char}
    (h : q = r ∨ Unmatched q text) : Unmatched q (replaceAll r.re (piiMarker kind) text) :=
  not_occursIn_replaceAll (hq.marker hr) (known_of_mem hr).ne_nil hq.ne_nil hlead htrail h

variable (text : List Char)

/-- The first round. -/
def maskEmails : List Char := replaceAll email.re (piiMarker "email") text

/-- The second. -/
def maskCpfs : List Char := replaceAll cpf.re (piiMarker "cpf") (maskEmails text)

/-- The third. -/
def maskCards : List Char := replaceAll card.re (piiMarker "card") (maskCpfs text)

/-- The last. -/
def maskPhones : List Char := replaceAll phone.re (piiMarker "phone") (maskCards text)

theorem mem_email : (⟨"email", email⟩ : PIIPattern) ∈ piiPatterns := by simp [piiPatterns]
theorem mem_cpf : (⟨"cpf", cpf⟩ : PIIPattern) ∈ piiPatterns := by simp [piiPatterns]
theorem mem_card : (⟨"card", card⟩ : PIIPattern) ∈ piiPatterns := by simp [piiPatterns]
theorem mem_phone : (⟨"phone", phone⟩ : PIIPattern) ∈ piiPatterns := by simp [piiPatterns]

theorem beforePhones_eq : beforePhones text = maskCards text := by
  simp only [beforePhones, piiPatterns, List.take_succ_cons, List.take_zero, List.foldl_cons, List.foldl_nil]
  rw [redactStep_text mem_card, redactStep_text mem_cpf, redactStep_text mem_email]
  rfl

theorem redactPII_text (text : String) : (redactPII text).1 = String.ofList (maskPhones text.toList) := by
  simp only [redactPII, piiPatterns, List.foldl_cons, List.foldl_nil]
  rw [redactStep_text mem_phone, redactStep_text mem_card, redactStep_text mem_cpf, redactStep_text mem_email]
  rfl

theorem unmatched_email_maskEmails : Unmatched email (maskEmails text) := by
  unfold maskEmails
  exact unmatched_replaceAll known_email mem_email (fun h => h) (fun h => h) (Or.inl rfl)

theorem unmatched_email_maskCards : Unmatched email (maskCards text) := by
  unfold maskCards maskCpfs
  have hcpfs := unmatched_replaceAll known_email mem_cpf (fun _ => rfl) (fun _ => rfl) (Or.inr (unmatched_email_maskEmails text))
  exact unmatched_replaceAll known_email mem_card (fun _ => rfl) (fun _ => rfl) (Or.inr hcpfs)

theorem unmatched_cpf_maskCards : Unmatched cpf (maskCards text) := by
  unfold maskCards maskCpfs
  have hcpfs : Unmatched cpf (replaceAll cpf.re (piiMarker "cpf") (maskEmails text)) :=
    unmatched_replaceAll known_cpf mem_cpf (fun _ => rfl) (fun _ => rfl) (Or.inl rfl)
  exact unmatched_replaceAll known_cpf mem_card (fun _ => rfl) (fun _ => rfl) (Or.inr hcpfs)

theorem unmatched_card_maskCards : Unmatched card (maskCards text) := by
  unfold maskCards
  exact unmatched_replaceAll known_card mem_card (fun _ => rfl) (fun _ => rfl) (Or.inl rfl)

/-- No email is left. -/
theorem unmatched_email_maskPhones : Unmatched email (maskPhones text) := by
  unfold maskPhones
  exact unmatched_replaceAll known_email mem_phone (fun h => nomatch h) (fun h => nomatch h)
    (Or.inr (unmatched_email_maskCards text))

theorem known_number {q : Framed} (hq : q ∈ numberPatterns) : Known q ∧ (q = phone ∨ Unmatched q (maskCards text)) := by
  simp only [numberPatterns, List.mem_cons, List.not_mem_nil, or_false] at hq
  rcases hq with rfl | rfl | rfl
  · exact ⟨known_cpf, Or.inr (unmatched_cpf_maskCards text)⟩
  · exact ⟨known_card, Or.inr (unmatched_card_maskCards text)⟩
  · exact ⟨known_phone, Or.inl rfl⟩

/-- What is left of a number stands in front of a phone number. -/
theorem left_iff {q : Framed} (hq : q ∈ numberPatterns) : OccursIn q.re false (maskPhones text) false ↔
    ∃ piece ∈ (pieces phone.re (maskCards text)).1, EndsIn q.re piece.1 := by
  obtain ⟨hknown, hnone⟩ := known_number text hq
  unfold maskPhones
  exact occursIn_replaceAll_iff (hknown.marker mem_phone) known_phone.ne_nil hknown.ne_nil (fun _ => rfl) hnone

/-- The word characters of a number are digits. -/
theorem isDigit_of_uses {q : Framed} (hq : q ∈ numberPatterns) {c : Char} (hc : q.core.uses c = true)
    (hword : isWord c = true) : c.isDigit = true := by
  have hothers : ∀ d ∈ [' ', '-', '.', '+', '(', ')'], isWord d = false := by simp [isWord]
  have huses : c.isDigit = true ∨ c ∈ [' ', '-', '.', '+', '(', ')'] := by
    simp only [numberPatterns, List.mem_cons, List.not_mem_nil, or_false] at hq
    rcases hq with rfl | rfl | rfl
    all_goals
      simp [cpf, card, phone, Re.uses, PII.digits, atMostOne, separator] at hc
      simp only [List.mem_cons, List.not_mem_nil, or_false]
      grind
  refine huses.resolve_right fun hmem => ?_
  rw [hothers c hmem] at hword
  cases hword

/-- There a run of digits is cut: the number ends in a digit, and the phone number begins with one. -/
theorem digits_meet {q : Framed} (hq : q ∈ numberPatterns) {piece : List Char × List Char}
    (hpiece : piece ∈ (pieces phone.re (maskCards text)).1) (hends : EndsIn q.re piece.1) :
    ∃ before d e after, piece = (before ++ [d], e :: after) ∧ d.isDigit = true ∧ e.isDigit = true := by
  obtain ⟨hknown, hnone⟩ := known_number text hq
  have hhead := headWord_of_endsIn known_phone.ne_nil hknown.ne_nil (fun _ => rfl) hnone hpiece hends
  obtain ⟨l, r, hphone⟩ := (scanned_pieces known_phone.ne_nil (maskCards text)).lang_of_mem hpiece
  obtain ⟨gap, m⟩ := piece
  obtain ⟨pre, w, hgap, hlang⟩ := hends
  obtain ⟨hcore, -, htrail⟩ := q.lang_iff.mp hlang
  have hboundary : q.trail = true := by
    simp only [numberPatterns, List.mem_cons, List.not_mem_nil, or_false] at hq
    rcases hq with rfl | rfl | rfl
    all_goals rfl
  cases m with
  | nil => cases hhead
  | cons e after =>
    have hfirst := isDigit_of_uses (q := phone) (by simp [numberPatterns])
      ((phone.lang_iff.mp hphone).1.uses List.mem_cons_self) hhead
    cases w using List.reverseRecOn with
    | nil => exact absurd rfl (hknown.ne_nil [] hcore)
    | append_singleton w d _ =>
      have hword := htrail hboundary
      rw [lastWord_concat, ne_eq, Bool.not_eq_false] at hword
      have hlast := isDigit_of_uses hq (hcore.uses (List.mem_concat_self)) hword
      refine ⟨pre ++ w, d, e, after, ?_, hlast, hfirst⟩
      rw [List.append_assoc]
      exact congrArg (·, e :: after) hgap

/-- No number is left exactly where none stands directly in front of a phone number. -/
theorem unmatched_maskPhones_iff : (∀ p ∈ piiPatterns, Unmatched p.pattern (maskPhones text)) ↔
    ¬ NumberBeforePhone (maskCards text) := by
  have hpatterns : (∀ p ∈ piiPatterns, Unmatched p.pattern (maskPhones text)) ↔
      ∀ q ∈ numberPatterns, Unmatched q (maskPhones text) := by
    have hemail := unmatched_email_maskPhones text
    simp [piiPatterns, numberPatterns, hemail]
  rw [hpatterns]
  constructor
  · intro hunmatched ⟨piece, hpiece, q, hq, hends⟩
    exact hunmatched q hq ((left_iff text hq).mpr ⟨piece, hpiece, hends⟩)
  · intro hnone q hq hocc
    obtain ⟨piece, hpiece, hends⟩ := (left_iff text hq).mp hocc
    exact hnone ⟨piece, hpiece, q, hq, hends⟩

end Rounds

/-- A text in which nothing matches is left as it is. -/
theorem redactPII_of_unmatched {text : String} (h : ∀ p ∈ piiPatterns, Unmatched p.pattern text.toList) :
    redactPII text = (text, false) := by
  have hstep : ∀ p ∈ piiPatterns, redactStep (text.toList, false) p = (text.toList, false) := by
    intro p hp
    exact if_neg (by rw [(unmatched_iff _ _).mp (h p hp)]; exact Bool.false_ne_true)
  have hfold : ∀ patterns : List PIIPattern, (∀ p ∈ patterns, p ∈ piiPatterns) →
      patterns.foldl redactStep (text.toList, false) = (text.toList, false) := by
    intro patterns hall
    induction patterns with
    | nil => rfl
    | cons p patterns ih =>
      obtain ⟨hp, hrest⟩ := List.forall_mem_cons.mp hall
      rw [List.foldl_cons, hstep p hp, ih hrest]
  unfold redactPII
  rw [hfold piiPatterns fun _ hp => hp]
  simp only [String.ofList_toList]

/-- `RedactPII` finds nothing in a text and changes nothing. -/
def Masked (text : String) : Prop :=
  (∀ p ∈ piiPatterns, matchString p.pattern.re text.toList = false) ∧ (redactPII text).1 = text

theorem masked_iff (text : String) : Masked text ↔ ∀ p ∈ piiPatterns, Unmatched p.pattern text.toList := by
  simp only [Masked, unmatched_iff]
  refine ⟨fun h => h.1, fun h => ⟨h, ?_⟩⟩
  rw [redactPII_of_unmatched (by simpa only [unmatched_iff] using h)]

/-- `RedactPII` leaves nothing to itself exactly where its last round finds no phone number directly behind a
number. -/
theorem masked_redactPII_iff (text : String) :
    Masked (redactPII text).1 ↔ ¬ NumberBeforePhone (beforePhones text.toList) := by
  rw [masked_iff, redactPII_text, String.toList_ofList, beforePhones_eq, unmatched_maskPhones_iff]

/-- One application of `RedactPII` leaves nothing that a pattern matches, and another changes nothing, exactly
where the last round finds no phone number directly behind a number. -/
theorem redactPII_fixed_iff (text : String) :
    ((∀ p ∈ piiPatterns, matchString p.pattern.re (redactPII text).1.toList = false) ∧
      (redactPII (redactPII text).1).1 = (redactPII text).1) ↔ ¬ NumberBeforePhone (beforePhones text.toList) :=
  masked_redactPII_iff text

/-- Twenty digits. -/
def twentyDigits : String := "11111111111111111111"

/-- The last twelve are taken for a phone number, and the first eight are one then. -/
theorem twentyDigits_not_fixed : redactPII twentyDigits = ("11111111[REDACTED:phone]", true) ∧
    matchString PII.phone.re (redactPII twentyDigits).1.toList = true ∧
    (redactPII (redactPII twentyDigits).1).1 ≠ (redactPII twentyDigits).1 := by
  decide +kernel

end AgentMemory
