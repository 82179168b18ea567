import AgentMemory.Engine.Markdown
import AgentMemory.Lib.Nesting

/-!
# The path of a heading

The loop of `split_markdown_sections` (`ingest.py:41-52`) keeps a stack of headings and gives each section the
titles on it. The stack holds the headings that are open: those after which no heading has come of their level
or a smaller one. `heading_paths_are_open` says so of every section that starts with a heading line.
-/

namespace AgentMemory.Markdown

open PyText Nesting

/-- A heading: its level and its cleaned title. -/
abbrev Heading := Nat × Text

/-- The heading that a line is. -/
def headingOf (line : Text) : Option Heading := (matchHeading line).map fun found => (found.1, cleanHeading found.2)

/-- The first heading is of a smaller level, so the second lies within it. -/
def Heading.encloses (h h' : Heading) : Bool := h.1 < h'.1

/-- The headings of these lines that are open after them, in their order. -/
def openHeadings (lines : List Text) : List Heading := openOf Heading.encloses (lines.filterMap headingOf)

/-- The lines up to each heading line, with it. -/
def headingPrefixes (lines : List Text) : List (List Text) :=
  lines.inits.filter fun before => (before.getLast?.bind headingOf).isSome

/-- The lines start with a heading line. -/
def startsWithHeading (lines : List Text) : Bool := (lines.head?.bind headingOf).isSome

/-- The groups of lines, each with its path (`ingest.py:28-53`). -/
def groupLines (lines : List Text) : List (List Text × List Text) :=
  (lines.foldl Outline.read ⟨[], [], [], []⟩).flush

/-- The paths of the groups that start with a heading line, each with that line. -/
def headingPaths (groups : List (List Text × List Text)) : List (List Text × Option Text) :=
  (groups.filter fun group => startsWithHeading group.2).map fun group => (group.1, group.2.head?)

/-- The titles that are open at each heading line, with that line. -/
def openPaths (lines : List Text) : List (List Text × Option Text) :=
  (headingPrefixes lines).map fun before => ((openHeadings before).map Prod.snd, before.getLast?)

/-! ### One line -/

/-- A heading line begins with a `#`. -/
theorem ink_of_headingOf {line : Text} {h : Heading} (hline : headingOf line = some h) : ink line ≠ [] := by
  obtain ⟨found, hfound, -⟩ := Option.map_eq_some_iff.mp hline
  have hlevel : 1 ≤ (line.takeWhile (· = '#')).length := by
    by_contra hnone
    simp [matchHeading, hnone] at hfound
  intro hink
  cases line with
  | nil => simp at hlevel
  | cons c rest =>
    have hsharp : c = '#' := by
      by_contra hne
      simp [hne] at hlevel
    have hspace := ink_eq_nil.mp hink c List.mem_cons_self
    rw [hsharp] at hspace
    revert hspace
    decide

theorem read_of_heading {line : Text} {h : Heading} (hline : headingOf line = some h) (o : Outline) :
    o.read line = ⟨(o.stack.filter fun item => item.1 < h.1) ++ [h], o.flush,
      ((o.stack.filter fun item => item.1 < h.1) ++ [h]).map Prod.snd, [line]⟩ := by
  obtain ⟨found, hfound, rfl⟩ := Option.map_eq_some_iff.mp hline
  simp only [Outline.read, hfound]

theorem read_of_text {line : Text} (hline : headingOf line = none) (o : Outline) :
    o.read line = { o with currentLines := o.currentLines ++ [line] } := by
  have hnone : matchHeading line = none := Option.map_eq_none_iff.mp hline
  simp only [Outline.read, hnone]

theorem openHeadings_heading {line : Text} {h : Heading} (hline : headingOf line = some h) (lines : List Text) :
    openHeadings (lines ++ [line]) = ((openHeadings lines).filter fun item => item.1 < h.1) ++ [h] := by
  have hmap : (lines ++ [line]).filterMap headingOf = lines.filterMap headingOf ++ [h] := by
    simp [List.filterMap_append, hline]
  rw [openHeadings, hmap, openOf_concat]
  rfl

theorem openHeadings_text {line : Text} (hline : headingOf line = none) (lines : List Text) :
    openHeadings (lines ++ [line]) = openHeadings lines := by
  simp [openHeadings, List.filterMap_append, hline]

theorem headingPrefixes_concat (lines : List Text) (line : Text) : headingPrefixes (lines ++ [line]) =
    headingPrefixes lines ++ (if (headingOf line).isSome = true then [lines ++ [line]] else []) := by
  have hinits : (lines ++ [line]).inits = lines.inits ++ [lines ++ [line]] := by simp
  rw [headingPrefixes, hinits, List.filter_append, ← headingPrefixes]
  congr 1
  by_cases h : (headingOf line).isSome = true <;> simp [h]

/-! ### The loop -/

/-- What the outline has come to after these lines. -/
structure Read (lines : List Text) (o : Outline) : Prop where
  stack : o.stack = openHeadings lines
  path : o.currentPath = o.stack.map Prod.snd
  paths : headingPaths (o.sections ++ [(o.currentPath, o.currentLines)]) = openPaths lines

theorem headingPaths_append (groups groups' : List (List Text × List Text)) :
    headingPaths (groups ++ groups') = headingPaths groups ++ headingPaths groups' := by
  simp [headingPaths]

theorem headingPaths_singleton (path lines : List Text) : headingPaths [(path, lines)] =
    if startsWithHeading lines = true then [(path, lines.head?)] else [] := by
  by_cases h : startsWithHeading lines = true <;> simp [headingPaths, h]

/-- What is flushed or dropped makes no difference to the headings. -/
theorem headingPaths_flush (o : Outline) :
    headingPaths o.flush = headingPaths (o.sections ++ [(o.currentPath, o.currentLines)]) := by
  unfold Outline.flush
  split
  · next hblank =>
    have hnone : startsWithHeading o.currentLines = false := by
      by_contra hstarts
      rw [Bool.not_eq_false, startsWithHeading] at hstarts
      cases hlines : o.currentLines with
      | nil => simp [hlines] at hstarts
      | cons line rest =>
        rw [hlines] at hstarts hblank
        obtain ⟨h, hline⟩ := Option.isSome_iff_exists.mp hstarts
        have hcontent : contentOf (line :: rest) = [] := hblank.resolve_left (List.cons_ne_nil _ _)
        have hink := ink_contentOf (line :: rest)
        rw [hcontent, ink_nil, List.flatMap_cons] at hink
        exact ink_of_headingOf hline (List.append_eq_nil_iff.mp hink.symm).1
    rw [headingPaths_append, headingPaths_singleton, hnone]
    simp
  · rfl

theorem Read.start : Read [] ⟨[], [], [], []⟩ := ⟨rfl, rfl, rfl⟩

theorem Read.read {lines : List Text} {o : Outline} (h : Read lines o) (line : Text) :
    Read (lines ++ [line]) (o.read line) := by
  have hpaths := h.paths
  cases hline : headingOf line with
  | some found =>
    rw [read_of_heading hline]
    have hstack : (o.stack.filter fun item => item.1 < found.1) ++ [found] = openHeadings (lines ++ [line]) := by
      rw [openHeadings_heading hline, h.stack]
    refine ⟨hstack, rfl, ?_⟩
    rw [headingPaths_append, headingPaths_flush, hpaths, hstack, openPaths, openPaths, headingPrefixes_concat,
      headingPaths_singleton]
    simp [startsWithHeading, hline]
  | none =>
    rw [read_of_text hline]
    refine ⟨by rw [openHeadings_text hline, h.stack], h.path, ?_⟩
    have hopen : openPaths (lines ++ [line]) = openPaths lines := by
      rw [openPaths, openPaths, headingPrefixes_concat, hline]
      simp
    rw [hopen, ← hpaths, headingPaths_append, headingPaths_append, headingPaths_singleton, headingPaths_singleton]
    cases hlines : o.currentLines with
    | nil => simp [startsWithHeading, hline]
    | cons first rest => rfl

theorem Read.foldl (lines : List Text) : Read lines (lines.foldl Outline.read ⟨[], [], [], []⟩) := by
  induction lines using List.reverseRecOn with
  | nil => exact Read.start
  | append_singleton lines line ih =>
    rw [List.foldl_append]
    exact ih.read line

/-- The sections that start with a heading line, in the order of the headings. -/
theorem headingPaths_groupLines (lines : List Text) : headingPaths (groupLines lines) = openPaths lines := by
  rw [groupLines, headingPaths_flush]
  exact (Read.foldl lines).paths

/-- What is open at a heading line are headings of growing levels, the line's own at the end. -/
theorem openHeadings_of_prefix {lines before : List Text} (h : before ∈ headingPrefixes lines) :
    (openHeadings before).Pairwise (fun a b => a.1 < b.1) ∧
      (openHeadings before).getLast? = before.getLast?.bind headingOf := by
  obtain ⟨-, hheading⟩ := List.mem_filter.mp h
  refine ⟨(pairwise_openOf _).imp fun hlt => of_decide_eq_true hlt, ?_⟩
  obtain ⟨found, hfound⟩ := Option.isSome_iff_exists.mp hheading
  obtain ⟨line, hlast, hline⟩ := Option.bind_eq_some_iff.mp hfound
  obtain ⟨earlier, rfl⟩ := List.getLast?_eq_some_iff.mp hlast
  rw [hfound, openHeadings_heading hline, List.getLast?_concat]

/-! ### The sections of a text -/

/-- The text itself never stands for its sections. -/
theorem outlineSections_eq (text sourcePath : Text) : outlineSections text sourcePath = groupLines (splitlines text) := by
  have hstart : Outlined [] ⟨[], [], [], []⟩ := ⟨rfl, fun _ hmem => absurd hmem List.not_mem_nil⟩
  have hread : Outlined ([] ++ (splitlines text).flatMap PyText.ink)
      ((splitlines text).foldl Outline.read ⟨[], [], [], []⟩) := hstart.foldl
  have hink := hread.flush.1
  rw [List.nil_append, ink_splitlines] at hink
  apply if_neg
  rintro ⟨hnone, htext⟩
  apply htext
  rw [strip_eq_nil, ← hink, hnone]
  rfl

/-- A group that starts with a heading line has a path. -/
theorem path_ne_nil {lines : List Text} {group : List Text × List Text} (hgroup : group ∈ groupLines lines)
    (hstarts : startsWithHeading group.2 = true) : group.1 ≠ [] := by
  have hmem : (group.1, group.2.head?) ∈ openPaths lines := by
    rw [← headingPaths_groupLines]
    exact List.mem_map.mpr ⟨group, List.mem_filter.mpr ⟨hgroup, hstarts⟩, rfl⟩
  obtain ⟨before, hbefore, heq⟩ := List.mem_map.mp hmem
  obtain ⟨-, hlast⟩ := openHeadings_of_prefix hbefore
  obtain ⟨found, hfound⟩ := Option.isSome_iff_exists.mp (List.mem_filter.mp hbefore).2
  rw [hfound] at hlast
  have hopen : openHeadings before ≠ [] := by
    intro hnil
    simp [hnil] at hlast
  rw [← (Prod.mk.inj heq).1]
  simpa using hopen

/-- The sections that are handed out have the paths of their groups. -/
theorem headingPath_of_mem {text sourcePath : Text} {maxChars : Int} {out : List MarkdownSection}
    (h : splitMarkdownSections text sourcePath maxChars = .ok out) {s : MarkdownSection} (hs : s ∈ out) :
    ∃ group, (groupLines (splitlines text))[s.sectionIndex]? = some group ∧
      (startsWithHeading group.2 = true → s.headingPath = group.1) := by
  unfold splitMarkdownSections at h
  split at h
  · cases h
  · obtain rfl := Except.ok.inj h
    rw [outlineSections_eq] at hs
    obtain ⟨numbered, hnumbered, hs⟩ := List.mem_flatMap.mp hs
    obtain ⟨chunk, -, rfl⟩ := List.mem_map.mp hs
    have hgroup := List.mem_zipIdx_iff_getElem?.mp hnumbered
    refine ⟨numbered.1, hgroup, fun hstarts => ?_⟩
    exact if_neg (path_ne_nil (List.mem_of_getElem? hgroup) hstarts)

/-- The sections of any lines that start with a heading line are, in order, those of the heading lines, each with
the titles of the headings that are open there; the levels of these grow, and the last is the line's own. The
sections of a text that are handed out have these paths. -/
theorem heading_paths_are_open :
    (∀ lines : List Text, headingPaths (groupLines lines) = openPaths lines ∧
      ∀ before ∈ headingPrefixes lines, (openHeadings before).Pairwise (fun a b => a.1 < b.1) ∧
        (openHeadings before).getLast? = before.getLast?.bind headingOf) ∧
    ∀ (text sourcePath : Text) (maxChars : Int) (out : List MarkdownSection),
      splitMarkdownSections text sourcePath maxChars = .ok out → ∀ s ∈ out,
        ∃ group, (groupLines (splitlines text))[s.sectionIndex]? = some group ∧
          (startsWithHeading group.2 = true → s.headingPath = group.1) :=
  ⟨fun lines => ⟨headingPaths_groupLines lines, fun _ => openHeadings_of_prefix⟩,
    fun _ _ _ _ h _ => headingPath_of_mem h⟩

theorem heading_paths_are_open_release : ∃ out,
    splitMarkdownSections "# Release\n\nNot ready.".toList "docs/r.md".toList 240 = .ok out ∧ ∀ s ∈ out,
      ∃ group, (groupLines (splitlines "# Release\n\nNot ready.".toList))[s.sectionIndex]? = some group ∧
        (startsWithHeading group.2 = true → s.headingPath = group.1) :=
  ⟨_, rfl, heading_paths_are_open.2 _ "docs/r.md".toList 240 _ rfl⟩

/-- A level that is left out, and a heading that closes two others. -/
example : openPaths ["# A".toList, "### B".toList, "text".toList, "## C".toList, "# D".toList] =
    [(["A".toList], some "# A".toList), (["A".toList, "B".toList], some "### B".toList),
      (["A".toList, "C".toList], some "## C".toList), (["D".toList], some "# D".toList)] := by decide +kernel

end AgentMemory.Markdown
