import AgentMemory.Lib.Ink

/-!
# Splitting Markdown into sections

`split_markdown_sections` of `ingest.py`: the lines of a text are grouped under their headings,
and each group is cut into chunks of at most `max_chars` characters, at blank lines where it
can be and inside a paragraph that is too long by itself. What every step may drop is white
space, and `splitMarkdownSections_spec` says that nothing else is lost.
-/

namespace AgentMemory.Markdown

open PyText

/-- `MarkdownSection` (`ingest.py:7-13`). -/
structure MarkdownSection where
  sourcePath : Text
  headingPath : List Text
  content : Text
  sectionIndex : Nat
  chunkIndex : Nat
  deriving DecidableEq

/-- `max_chars`, past the check at the start of `split_markdown_sections`. -/
structure MaxChars where
  val : Nat
  large : 80 < val

/-! ### Chunks -/

/-- `text.rfind(" ", start, stop)`, `none` for -1. -/
def rfindSpace (text : Text) (start stop : Nat) : Option Nat :=
  ((List.range' start (stop - start)).filter fun i => text[i]? = some ' ').getLast?

/-- Where the chunk that begins at `start` ends (`ingest.py:100-104`). -/
def chunkEnd (text : Text) (m : MaxChars) (start : Nat) : Nat :=
  let stop := min text.length (start + m.val)
  if stop < text.length then
    match rfindSpace text start stop with
    | some boundary => if start + m.val / 2 < boundary then boundary else stop
    | none => stop
  else stop

theorem chunkEnd_bounds {text : Text} {m : MaxChars} {start : Nat} (h : start < text.length) :
    start < chunkEnd text m start ∧ chunkEnd text m start ≤ text.length ∧
      chunkEnd text m start ≤ start + m.val := by
  have hlarge := m.large
  unfold chunkEnd
  simp only
  split
  · split
    · rename_i boundary hfind
      have hmem := List.mem_of_mem_filter (List.mem_of_getLast? hfind)
      rw [List.mem_range'_1] at hmem
      split
      · omega
      · omega
    · omega
  · omega

/-- The loop of `_split_long_paragraph` (`ingest.py:99-106`). -/
def splitLoop (text : Text) (m : MaxChars) (start : Nat) : List Text :=
  if start < text.length then
    strip ((text.drop start).take (chunkEnd text m start - start)) ::
      splitLoop text m (chunkEnd text m start)
  else []
  termination_by text.length - start
  decreasing_by
    have := chunkEnd_bounds (m := m) ‹start < text.length›
    omega

/-- `_split_long_paragraph` (`ingest.py:96-107`). -/
def splitLongParagraph (text : Text) (m : MaxChars) : List Text :=
  (splitLoop text m 0).filter (· ≠ [])

/-- What follows the `\s*\n` that `\n\s*\n` still needs after its first newline: `\s*` takes as
much as it can, so the match ends at the last newline of the white space. -/
def afterBlankLine (rest : Text) : Option Text :=
  if '\n' ∈ rest.takeWhile PyText.isSpace then
    some ((rest.takeWhile PyText.isSpace).rtakeWhile (· ≠ '\n') ++ rest.dropWhile PyText.isSpace)
  else none

theorem length_afterBlankLine {rest rest' : Text} (h : afterBlankLine rest = some rest') :
    rest'.length ≤ rest.length := by
  unfold afterBlankLine at h
  split at h
  · cases h
    have hle : ((rest.takeWhile PyText.isSpace).rtakeWhile (· ≠ '\n')).length ≤ (rest.takeWhile PyText.isSpace).length :=
      (List.rtakeWhile_suffix _ _).length_le
    have hsplit : (rest.takeWhile PyText.isSpace).length + (rest.dropWhile PyText.isSpace).length = rest.length := by
      rw [← List.length_append, List.takeWhile_append_dropWhile]
    rw [List.length_append]
    omega
  · cases h

/-- `re.split(r"\n\s*\n", text)`, with the paragraph read so far. -/
def splitParagraphs (paragraph : Text) : Text → List Text
  | [] => [paragraph]
  | c :: rest =>
    if c = '\n' then
      match _h : afterBlankLine rest with
      | some rest' => paragraph :: splitParagraphs [] rest'
      | none => splitParagraphs (paragraph ++ [c]) rest
    else splitParagraphs (paragraph ++ [c]) rest
  termination_by text => text.length
  decreasing_by
    all_goals simp only [List.length_cons]
    · have := length_afterBlankLine _h
      omega
    · omega
    · omega

/-- The loop of `_chunk_text`: the chunks so far and the one being filled. -/
structure Packing where
  chunks : List Text
  current : Text

/-- A paragraph is added (`ingest.py:78-91`). -/
def packParagraph (m : MaxChars) (p : Packing) (paragraph : Text) : Packing :=
  let paragraph := strip paragraph
  if paragraph = [] then p
  else if m.val < paragraph.length then
    ⟨(if p.current = [] then p.chunks else p.chunks ++ [p.current]) ++ splitLongParagraph paragraph m,
      []⟩
  else
    let candidate := if p.current = [] then paragraph else p.current ++ ['\n', '\n'] ++ paragraph
    if candidate.length ≤ m.val then ⟨p.chunks, candidate⟩
    else ⟨p.chunks ++ [p.current], paragraph⟩

/-- `_chunk_text` (`ingest.py:72-93`). -/
def chunkText (text : Text) (m : MaxChars) : List Text :=
  if text.length ≤ m.val then [text]
  else
    let p := (splitParagraphs [] text).foldl (packParagraph m) ⟨[], []⟩
    if p.current = [] then p.chunks else p.chunks ++ [p.current]

/-! ### Sections -/

/-- `re.match(r"^(#{1,6})\s+(.+?)\s*$", line)`: the level and the title. A title of white space
only is what the last of several blanks is left for. -/
def matchHeading (line : Text) : Option (Nat × Text) :=
  let level := (line.takeWhile (· = '#')).length
  let rest := line.dropWhile (· = '#')
  if 1 ≤ level ∧ level ≤ 6 ∧ (rest.takeWhile PyText.isSpace) ≠ [] then
    if strip rest ≠ [] then some (level, strip rest)
    else if 2 ≤ rest.length then some (level, rest.drop (rest.length - 1))
    else none
  else none

/-- `re.sub(r"\s+", " ", text)`. -/
def collapseSpace (text : Text) : Text :=
  (text.splitBy fun a b => PyText.isSpace a && PyText.isSpace b).flatMap fun run =>
    if run.all PyText.isSpace = true then [' '] else run

/-- `_clean_heading` (`ingest.py:110-111`). -/
def cleanHeading (text : Text) : Text :=
  strip (collapseSpace (((strip text).dropWhile (· = '#')).rdropWhile (· = '#')))

/-- The loop over the lines: the open headings, the sections so far, and the path and lines of
the section being read. -/
structure Outline where
  stack : List (Nat × Text)
  sections : List (List Text × List Text)
  currentPath : List Text
  currentLines : List Text

/-- `"\n".join(lines).strip()`. -/
def contentOf (lines : List Text) : Text := strip (['\n'].intercalate lines)

/-- `flush` (`ingest.py:34-39`). -/
def Outline.flush (o : Outline) : List (List Text × List Text) :=
  if o.currentLines = [] ∨ contentOf o.currentLines = [] then o.sections
  else o.sections ++ [(o.currentPath, o.currentLines)]

/-- A line is read (`ingest.py:41-52`). -/
def Outline.read (o : Outline) (line : Text) : Outline :=
  match matchHeading line with
  | some (level, title) =>
    let stack := (o.stack.filter fun item => item.1 < level) ++ [(level, cleanHeading title)]
    { stack := stack
      sections := o.flush
      currentPath := stack.map Prod.snd
      currentLines := [line] }
  | none => { o with currentLines := o.currentLines ++ [line] }

/-- The sections of a text, each with its path and its lines (`ingest.py:28-56`). -/
def outlineSections (text sourcePath : Text) : List (List Text × List Text) :=
  let sections := ((splitlines text).foldl Outline.read ⟨[], [], [], []⟩).flush
  if sections = [] ∧ strip text ≠ [] then [([sourcePath], [strip text])] else sections

/-- The chunks of a section, numbered. -/
def sectionChunks (sourcePath : Text) (m : MaxChars) (index : Nat)
    (group : List Text × List Text) : List MarkdownSection :=
  (chunkText (contentOf group.2) m).zipIdx.map fun chunk =>
    { sourcePath := sourcePath
      headingPath := if group.1 = [] then [sourcePath] else group.1
      content := chunk.1
      sectionIndex := index
      chunkIndex := chunk.2 }

/-- `split_markdown_sections` (`ingest.py:16-69`). -/
def splitMarkdownSections (text sourcePath : Text) (maxChars : Int) :
    Except String (List MarkdownSection) :=
  if h : maxChars ≤ 80 then .error "max_chars must be greater than 80"
  else
    let m : MaxChars := ⟨maxChars.toNat, by omega⟩
    .ok ((outlineSections text sourcePath).zipIdx.flatMap fun group =>
      sectionChunks sourcePath m group.2 group.1)

/-! ### What the chunks of a section hold -/

/-- A chunk that may be handed out. -/
def GoodChunk (m : MaxChars) (chunk : Text) : Prop := chunk ≠ [] ∧ chunk.length ≤ m.val

theorem ink_splitLoop (text : Text) (m : MaxChars) (start : Nat) :
    (splitLoop text m start).flatMap ink = ink (text.drop start) := by
  fun_induction splitLoop text m start with
  | case1 start hlt ih =>
    have hbounds := chunkEnd_bounds (m := m) hlt
    have hdrop : (text.drop start).drop (chunkEnd text m start - start) =
        text.drop (chunkEnd text m start) := by
      rw [List.drop_drop, Nat.add_sub_cancel' (Nat.le_of_lt hbounds.1)]
    rw [List.flatMap_cons, ih, ink_strip, ← hdrop, ← ink_append, List.take_append_drop]
  | case2 start hge =>
    rw [List.drop_eq_nil_of_le (Nat.le_of_not_lt hge)]
    rfl

theorem length_of_mem_splitLoop {text : Text} {m : MaxChars} {start : Nat} {chunk : Text}
    (h : chunk ∈ splitLoop text m start) : chunk.length ≤ m.val := by
  fun_induction splitLoop text m start with
  | case1 start hlt ih =>
    rcases List.mem_cons.mp h with rfl | hrest
    · have hbounds := chunkEnd_bounds (m := m) hlt
      have hstrip := length_strip_le ((text.drop start).take (chunkEnd text m start - start))
      have htake := List.length_take_le (chunkEnd text m start - start) (text.drop start)
      omega
    · exact ih hrest
  | case2 start hge => cases h

/-- Empty chunks carry nothing. -/
theorem flatMap_ink_filter (chunks : List Text) :
    (chunks.filter (· ≠ [])).flatMap ink = chunks.flatMap ink := by
  induction chunks with
  | nil => rfl
  | cons chunk rest ih =>
    by_cases hempty : chunk = []
    · rw [List.filter_cons_of_neg (by simp [hempty]), ih, hempty]
      rfl
    · rw [List.filter_cons_of_pos (by simp [hempty]), List.flatMap_cons, ih]
      rfl

theorem ink_splitLongParagraph (text : Text) (m : MaxChars) :
    (splitLongParagraph text m).flatMap ink = ink text := by
  rw [splitLongParagraph, flatMap_ink_filter, ink_splitLoop, List.drop_zero]

theorem good_of_mem_splitLongParagraph {text : Text} {m : MaxChars} {chunk : Text}
    (h : chunk ∈ splitLongParagraph text m) : GoodChunk m chunk := by
  obtain ⟨hmem, hne⟩ := List.mem_filter.mp h
  exact ⟨of_decide_eq_true hne, length_of_mem_splitLoop hmem⟩

theorem ink_afterBlankLine {rest rest' : Text} (h : afterBlankLine rest = some rest') :
    ink rest' = ink rest := by
  unfold afterBlankLine at h
  split at h
  · cases h
    have hspace : ink ((rest.takeWhile PyText.isSpace).rtakeWhile (· ≠ '\n')) = [] := by
      rw [ink_eq_nil]
      intro c hc
      exact List.mem_takeWhile_imp ((List.rtakeWhile_suffix _ _).subset hc)
    rw [ink_append, hspace, List.nil_append, ink_dropWhile]
  · cases h

theorem ink_splitParagraphs (paragraph text : Text) :
    (splitParagraphs paragraph text).flatMap ink = ink paragraph ++ ink text := by
  have hnewline : ink ['\n'] = [] := by decide
  fun_induction splitParagraphs paragraph text with
  | case1 paragraph => simp
  | case2 paragraph rest rest' hblank ih =>
    have hcons : ink ('\n' :: rest) = ink rest := by
      rw [← List.singleton_append, ink_append, hnewline, List.nil_append]
    rw [List.flatMap_cons, ih, ink_nil, List.nil_append, ink_afterBlankLine hblank, hcons]
  | case3 paragraph rest hblank ih =>
    rw [ih, ink_append, List.append_assoc, ← ink_append, List.singleton_append]
  | case4 paragraph c rest hc ih =>
    rw [ih, ink_append, List.append_assoc, ← ink_append, List.singleton_append]

/-- The packing after paragraphs with this ink. -/
structure Packed (m : MaxChars) (done : Text) (p : Packing) : Prop where
  ink : p.chunks.flatMap ink ++ ink p.current = done
  good : ∀ chunk ∈ p.chunks, GoodChunk m chunk
  fits : p.current.length ≤ m.val

/-- The chunks, the one being filled included. -/
def Packing.all (p : Packing) : List Text :=
  if p.current = [] then p.chunks else p.chunks ++ [p.current]

theorem Packed.ink_all {m : MaxChars} {done : Text} {p : Packing} (h : Packed m done p) :
    p.all.flatMap PyText.ink = done := by
  unfold Packing.all
  split
  · rename_i hempty
    have hink := h.ink
    rwa [hempty, ink_nil, List.append_nil] at hink
  · rw [List.flatMap_append, ← h.ink]
    simp

theorem Packed.good_all {m : MaxChars} {done : Text} {p : Packing} (h : Packed m done p) :
    ∀ chunk ∈ p.all, GoodChunk m chunk := by
  unfold Packing.all
  split
  · exact h.good
  · rename_i hne
    rw [List.forall_mem_append, List.forall_mem_singleton]
    exact ⟨h.good, hne, h.fits⟩

theorem Packed.step {m : MaxChars} {done : Text} {p : Packing} (h : Packed m done p)
    (paragraph : Text) : Packed m (done ++ PyText.ink paragraph) (packParagraph m p paragraph) := by
  have hdone := h.ink
  unfold packParagraph
  simp only
  split
  · rename_i hempty
    rw [strip_eq_nil] at hempty
    rw [hempty, List.append_nil]
    exact h
  · rename_i hne
    split
    · rename_i hlong
      refine ⟨?_, ?_, Nat.zero_le _⟩
      · rw [List.flatMap_append, ink_splitLongParagraph, ink_strip, ink_nil, List.append_nil]
        rw [show (if p.current = [] then p.chunks else p.chunks ++ [p.current]) = p.all from rfl,
          h.ink_all]
      · rw [List.forall_mem_append]
        exact ⟨h.good_all, fun chunk => good_of_mem_splitLongParagraph⟩
    · rename_i hshort
      have hfits := Nat.le_of_not_lt hshort
      by_cases hempty : p.current = []
      · rw [if_pos hempty, if_pos hfits]
        refine ⟨?_, h.good, hfits⟩
        rw [← hdone, hempty, ink_strip, ink_nil, List.append_nil]
      · rw [if_neg hempty]
        split
        · rename_i hroom
          have hbreak : PyText.ink ['\n', '\n'] = [] := by decide
          refine ⟨?_, h.good, hroom⟩
          rw [← hdone]
          simp only [ink_append, hbreak, ink_strip, List.nil_append, List.append_assoc]
        · refine ⟨?_, ?_, hfits⟩
          · rw [← hdone, ink_strip]
            simp
          · rw [List.forall_mem_append, List.forall_mem_singleton]
            exact ⟨h.good, hempty, h.fits⟩

theorem Packed.foldl {m : MaxChars} {paragraphs : List Text} {done : Text} {p : Packing}
    (h : Packed m done p) :
    Packed m (done ++ paragraphs.flatMap PyText.ink) (paragraphs.foldl (packParagraph m) p) := by
  induction paragraphs generalizing done p with
  | nil => simpa using h
  | cons paragraph rest ih =>
    rw [List.foldl_cons, List.flatMap_cons, ← List.append_assoc]
    exact ih (h.step paragraph)

/-- The chunks of a text hold its ink, each within the bound. -/
theorem chunkText_spec {text : Text} {m : MaxChars} (hne : ink text ≠ []) :
    (chunkText text m).flatMap ink = ink text ∧ (∀ chunk ∈ chunkText text m, GoodChunk m chunk) ∧
      chunkText text m ≠ [] := by
  have hspec : (chunkText text m).flatMap ink = ink text ∧
      ∀ chunk ∈ chunkText text m, GoodChunk m chunk := by
    unfold chunkText
    split
    · rename_i hfits
      refine ⟨by simp, ?_⟩
      rw [List.forall_mem_singleton]
      refine ⟨?_, hfits⟩
      rintro rfl
      exact hne ink_nil
    · have hstart : Packed m [] ⟨[], []⟩ := ⟨rfl, fun _ hmem => absurd hmem List.not_mem_nil, Nat.zero_le _⟩
      have hpacked : Packed m ([] ++ (splitParagraphs [] text).flatMap PyText.ink)
          ((splitParagraphs [] text).foldl (packParagraph m) ⟨[], []⟩) := hstart.foldl
      rw [ink_splitParagraphs, ink_nil, List.nil_append, List.nil_append] at hpacked
      exact ⟨hpacked.ink_all, hpacked.good_all⟩
  refine ⟨hspec.1, hspec.2, ?_⟩
  intro hnil
  rw [hnil] at hspec
  exact hne hspec.1.symm

/-! ### What the sections hold -/

theorem ink_contentOf (lines : List Text) : ink (contentOf lines) = lines.flatMap ink := by
  have hnewline : ink ['\n'] = [] := by decide
  rw [contentOf, ink_strip, ink_intercalate hnewline]

/-- The ink of a list of sections. -/
def inkOf (sections : List (List Text × List Text)) : Text :=
  sections.flatMap fun group => group.2.flatMap ink

theorem inkOf_append (a b : List (List Text × List Text)) : inkOf (a ++ b) = inkOf a ++ inkOf b :=
  List.flatMap_append

/-- The outline after lines with this ink. -/
structure Outlined (done : Text) (o : Outline) : Prop where
  ink : inkOf o.sections ++ o.currentLines.flatMap ink = done
  inked : ∀ group ∈ o.sections, group.2.flatMap PyText.ink ≠ []

theorem Outlined.flush {done : Text} {o : Outline} (h : Outlined done o) :
    inkOf o.flush = done ∧ ∀ group ∈ o.flush, group.2.flatMap PyText.ink ≠ [] := by
  have hblank : contentOf o.currentLines = [] ↔ o.currentLines.flatMap PyText.ink = [] := by
    rw [← ink_contentOf, contentOf, strip_eq_nil, ink_strip]
  unfold Outline.flush
  split
  · rename_i hempty
    have hnone : o.currentLines.flatMap PyText.ink = [] := by
      rcases hempty with hempty | hempty
      · rw [hempty]
        rfl
      · exact hblank.mp hempty
    have hink := h.ink
    rw [hnone, List.append_nil] at hink
    exact ⟨hink, h.inked⟩
  · rename_i hne
    rw [inkOf_append, ← h.ink, List.forall_mem_append, List.forall_mem_singleton]
    refine ⟨by simp [inkOf], h.inked, ?_⟩
    exact fun hnone => hne (.inr (hblank.mpr hnone))

theorem Outlined.read {done : Text} {o : Outline} (h : Outlined done o) (line : Text) :
    Outlined (done ++ PyText.ink line) (o.read line) := by
  unfold Outline.read
  split
  · obtain ⟨hink, hinked⟩ := h.flush
    refine ⟨?_, hinked⟩
    simp [hink]
  · refine ⟨?_, h.inked⟩
    rw [← h.ink]
    simp

theorem Outlined.foldl {lines : List Text} {done : Text} {o : Outline} (h : Outlined done o) :
    Outlined (done ++ lines.flatMap PyText.ink) (lines.foldl Outline.read o) := by
  induction lines generalizing done o with
  | nil => simpa using h
  | cons line rest ih =>
    rw [List.foldl_cons, List.flatMap_cons, ← List.append_assoc]
    exact ih (h.read line)

/-- The sections of a text hold its ink, and each has some. -/
theorem outlineSections_spec (text sourcePath : Text) :
    inkOf (outlineSections text sourcePath) = ink text ∧
      ∀ group ∈ outlineSections text sourcePath, group.2.flatMap ink ≠ [] := by
  have hstart : Outlined [] ⟨[], [], [], []⟩ := ⟨rfl, fun _ hmem => absurd hmem List.not_mem_nil⟩
  have hread : Outlined ([] ++ (splitlines text).flatMap PyText.ink)
      ((splitlines text).foldl Outline.read ⟨[], [], [], []⟩) := hstart.foldl
  have hdone := hread.flush
  rw [List.nil_append, ink_splitlines] at hdone
  unfold outlineSections
  simp only
  split
  · rename_i hnone
    refine ⟨by simp [inkOf], ?_⟩
    rw [List.forall_mem_singleton]
    intro hink
    apply hnone.2
    rw [strip_eq_nil]
    simpa using hink
  · exact hdone

/-! ### The whole text -/

/-- The text in its sections, without white space. -/
def inkIn (out : List MarkdownSection) : Text := out.flatMap fun s => ink s.content

theorem inkIn_sectionChunks (sourcePath : Text) {m : MaxChars} (index : Nat)
    {group : List Text × List Text} (h : group.2.flatMap ink ≠ []) :
    inkIn (sectionChunks sourcePath m index group) = group.2.flatMap ink := by
  rw [← ink_contentOf] at h
  have hcontents : (sectionChunks sourcePath m index group).map MarkdownSection.content =
      chunkText (contentOf group.2) m := by
    rw [sectionChunks, List.map_map]
    exact List.zipIdx_map_fst 0 _
  calc inkIn (sectionChunks sourcePath m index group)
      = ((sectionChunks sourcePath m index group).map MarkdownSection.content).flatMap ink := by
        rw [List.flatMap_map]
        rfl
    _ = ink (contentOf group.2) := by rw [hcontents, (chunkText_spec h).1]
    _ = group.2.flatMap ink := ink_contentOf _

theorem good_sectionChunks {sourcePath : Text} {m : MaxChars} {index : Nat}
    {group : List Text × List Text} (h : group.2.flatMap ink ≠ []) :
    ∀ s ∈ sectionChunks sourcePath m index group, GoodChunk m s.content := by
  rw [← ink_contentOf] at h
  intro s hs
  obtain ⟨chunk, hchunk, rfl⟩ := List.mem_map.mp hs
  exact (chunkText_spec h).2.1 _ (List.fst_mem_of_mem_zipIdx hchunk)

/-- The sections numbered from `first` on hold the ink of their groups. -/
theorem inkIn_flatMap (sourcePath : Text) {m : MaxChars} {sections : List (List Text × List Text)}
    (h : ∀ group ∈ sections, group.2.flatMap ink ≠ []) (first : Nat) :
    inkIn ((sections.zipIdx first).flatMap fun group => sectionChunks sourcePath m group.2 group.1) =
      inkOf sections := by
  induction sections generalizing first with
  | nil => rfl
  | cons group rest ih =>
    rw [List.forall_mem_cons] at h
    rw [List.zipIdx_cons, List.flatMap_cons, inkIn, List.flatMap_append]
    exact congrArg₂ (· ++ ·) (inkIn_sectionChunks sourcePath first h.1) (ih h.2 (first + 1))

/-- The section indexes are consecutive from 0, and within each section, which has at least one
chunk, the chunk indexes are. -/
def Numbered (out : List MarkdownSection) : Prop :=
  ∃ counts : List Nat, (∀ n ∈ counts, 0 < n) ∧
    out.map (fun s => (s.sectionIndex, s.chunkIndex)) =
      counts.zipIdx.flatMap fun count => (List.range count.1).map fun chunk => (count.2, chunk)

theorem map_sectionChunks (sourcePath : Text) (m : MaxChars) (index : Nat)
    (group : List Text × List Text) :
    (sectionChunks sourcePath m index group).map (fun s => (s.sectionIndex, s.chunkIndex)) =
      (List.range (chunkText (contentOf group.2) m).length).map fun chunk => (index, chunk) := by
  have hnumbers := List.zipIdx_map_snd 0 (chunkText (contentOf group.2) m)
  rw [sectionChunks, List.map_map, List.range_eq_range', ← hnumbers, List.map_map]
  rfl

theorem numbered_flatMap (sourcePath : Text) (m : MaxChars) (sections : List (List Text × List Text))
    (h : ∀ group ∈ sections, group.2.flatMap ink ≠ []) :
    Numbered (sections.zipIdx.flatMap fun group => sectionChunks sourcePath m group.2 group.1) := by
  refine ⟨sections.map fun group => (chunkText (contentOf group.2) m).length, ?_, ?_⟩
  · intro n hn
    obtain ⟨group, hgroup, rfl⟩ := List.mem_map.mp hn
    have hink : ink (contentOf group.2) ≠ [] := by
      rw [ink_contentOf]
      exact h group hgroup
    exact List.length_pos_of_ne_nil (chunkText_spec hink).2.2
  · rw [List.map_flatMap, List.zipIdx_map, List.flatMap_map]
    simp only [map_sectionChunks]
    rfl

/-- The loop of `_split_long_paragraph` goes round for ever on no text. -/
def SplittingEnds (m : MaxChars) : Prop :=
  ∀ text : Text, ¬ ∃ start : Nat → Nat, ∀ i,
    start i < text.length ∧ start (i + 1) = chunkEnd text m (start i)

theorem splittingEnds (m : MaxChars) : SplittingEnds m := by
  rintro text ⟨start, hloop⟩
  have hgrows : ∀ i, i ≤ start i := by
    intro i
    induction i with
    | zero => exact Nat.zero_le _
    | succ i ih =>
      have hbounds := chunkEnd_bounds (m := m) (hloop i).1
      have hnext := (hloop i).2
      omega
  have hlast := (hloop text.length).1
  have hfar := hgrows text.length
  omega

/-- `split_markdown_sections` keeps every character that is no white space, in order, in
non-empty contents of at most `max_chars` characters, numbered from 0, and its inner loop
ends. -/
theorem splitMarkdownSections_spec (text sourcePath : Text) (maxChars : Int) (h : 80 < maxChars) :
    ∃ out, splitMarkdownSections text sourcePath maxChars = .ok out ∧
      ink (out.map MarkdownSection.content).flatten = ink text ∧
      (∀ s ∈ out, s.content ≠ [] ∧ (s.content.length : Int) ≤ maxChars) ∧
      Numbered out ∧ SplittingEnds ⟨maxChars.toNat, by omega⟩ := by
  obtain ⟨hink, hinked⟩ := outlineSections_spec text sourcePath
  rw [splitMarkdownSections, dif_neg (not_le.mpr h)]
  refine ⟨_, rfl, ?_, ?_, numbered_flatMap _ _ _ hinked, splittingEnds _⟩
  · rw [← hink, ← inkIn_flatMap sourcePath hinked 0, ink, List.filter_flatten, List.map_map,
      inkIn, List.flatMap]
    rfl
  · intro s hs
    obtain ⟨group, hgroup, hs⟩ := List.mem_flatMap.mp hs
    have hgood := good_sectionChunks (hinked _ (List.fst_mem_of_mem_zipIdx hgroup)) s hs
    refine ⟨hgood.1, ?_⟩
    have hlength : s.content.length ≤ maxChars.toNat := hgood.2
    omega

/-- A heading and the text under it. -/
theorem splitMarkdownSections_release :
    ∃ out, splitMarkdownSections "# Release\n\nNot ready.".toList "docs/r.md".toList 240 = .ok out ∧
      ink (out.map MarkdownSection.content).flatten = ink "# Release\n\nNot ready.".toList ∧
      (∀ s ∈ out, s.content ≠ [] ∧ (s.content.length : Int) ≤ 240) ∧
      Numbered out ∧ SplittingEnds ⟨(240 : Int).toNat, by decide⟩ :=
  splitMarkdownSections_spec _ _ 240 (by decide)

end AgentMemory.Markdown
