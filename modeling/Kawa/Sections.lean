import Kawa.Bundle
import Kawa.Lib.Nesting

/-!
The sections of a document.  A heading opens a section, which lasts until the next heading of its
level or a higher one, and its path names the headings of the sections that it lies within.
-/

namespace Kawa

/-- `\s` of a text. -/
def isSpace (c : Char) : Bool :=
  c.toNat ∈ [0x20, 0x85, 0xa0, 0x1680, 0x2028, 0x2029, 0x202f, 0x205f, 0x3000] ||
    (0x09 ≤ c.toNat && c.toNat ≤ 0x0d) || (0x1c ≤ c.toNat && c.toNat ≤ 0x1f) ||
    (0x2000 ≤ c.toNat && c.toNat ≤ 0x200a)

/-- `^(#{1,6})\s+(.*\S)\s*$`, with the level and the text that it captures. -/
def headingOf (line : String) : Option (Nat × String) :=
  let level := (line.toList.takeWhile (· = '#')).length
  let rest := line.toList.dropWhile (· = '#')
  let text := (rest.dropWhile isSpace).rdropWhile isSpace
  if 1 ≤ level ∧ level ≤ 6 ∧ rest.head?.any isSpace = true ∧ text ≠ [] then
    some (level, String.ofList text)
  else none

def isFence (line : String) : Bool := "```".toList.isPrefixOf line.toList

structure Heading where
  line : Nat
  level : Nat
  heading : String
deriving DecidableEq

/-- The headings of some lines, numbered from `line`; a fence hides what is inside. -/
def headings : Nat → Bool → List String → List Heading
  | _, _, [] => []
  | line, inFence, text :: rest =>
      if isFence text then headings (line + 1) (!inFence) rest
      else if inFence then headings (line + 1) inFence rest
      else match headingOf text with
        | some (level, heading) =>
            { line := line, level := level, heading := heading } :: headings (line + 1) inFence rest
        | none => headings (line + 1) inFence rest

/-- The sections of a document as spans of its lines. -/
def outline (lines : List String) : List (Nested Heading) :=
  Nesting.nest Heading.level Heading.line lines.length [] (headings 0 false lines)

/-! ## Excerpts -/

def excerptCap : Nat := 320

/-- Where `splitlines` ends a line. -/
def isLineBreak (c : Char) : Bool :=
  c.toNat ∈ [0x0a, 0x0b, 0x0c, 0x0d, 0x1c, 0x1d, 0x1e, 0x85, 0x2028, 0x2029]

/-- `rfind`: the last place where a text occurs, or `-1`. -/
def lastPlace (text part : List Char) : Int :=
  ((List.range (text.length + 1)).reverse.find? fun place => part.isPrefixOf (text.drop place)).elim
    (-1) fun place => place

/-- `_excerpt_of`: what follows the heading line with its white space evened out, up to the cap,
and from half of it on up to the end of a sentence. -/
def excerptOf (span : String) : String :=
  let content := (span.toList.dropWhile (!isLineBreak ·)).drop 1
  let flat := [' '].intercalate ((content.splitOnP isSpace).filter (· ≠ []))
  if flat.length ≤ excerptCap then String.ofList flat
  else
    let cut := flat.take excerptCap
    let dot := max (lastPlace cut ". ".toList) (lastPlace cut "。".toList)
    let ended := if excerptCap / 2 < dot then cut.take (dot + 1).toNat else cut
    String.ofList (ended.rdropWhile isSpace ++ " …".toList)

/-- The mark of a cut comes on top of the cap. -/
theorem excerpt_bounded (span : String) : (excerptOf span).toList.length ≤ excerptCap + 2 := by
  unfold excerptOf
  dsimp only
  split
  · rename_i short
    rw [String.toList_ofList]
    omega
  · rw [String.toList_ofList, List.length_append]
    have trimmed : ∀ ended : List Char, (ended.rdropWhile isSpace).length ≤ ended.length :=
      fun ended => (List.rdropWhile_prefix isSpace ended).length_le
    have mark : " …".toList.length = 2 := by decide
    split
    · refine le_trans (Nat.add_le_add_right (trimmed _) _) ?_
      rw [List.length_take, List.length_take, mark]
      omega
    · refine le_trans (Nat.add_le_add_right (trimmed _) _) ?_
      rw [List.length_take, mark]
      omega

/-! ## Sections -/

section Split

variable (platform : Platform) (docPath : String) (lines : List String)

/-- The anchor is a hash of the path, the digest one of the lines. -/
def docSection (nested : Nested Heading) : DocSection :=
  let headingPath := " / ".intercalate
    ((nested.ancestors.reverse ++ [nested.item]).map (·.heading))
  let span := "\n".intercalate ((lines.take nested.ends).drop nested.item.line)
  { docPath := docPath
    heading := nested.item.heading
    headingPath := headingPath
    sectionAnchor := platform.sha256 (docPath ++ String.singleton (Char.ofNat 0) ++ headingPath)
    contentDigest := platform.sha256 span
    excerpt := excerptOf span }

/-- `_split_sections`, of the lines of a document. -/
def splitSections : List DocSection :=
  (outline lines).map (docSection platform docPath lines)

end Split

/-! ## Headings by their lines -/

theorem headings_bounds {line : Nat} {inFence : Bool} {lines : List String} {head : Heading}
    (member : head ∈ headings line inFence lines) :
    line ≤ head.line ∧ head.line < line + lines.length := by
  induction lines generalizing line inFence with
  | nil => cases member
  | cons text rest ih =>
      have later : ∀ {fence : Bool}, head ∈ headings (line + 1) fence rest →
          line ≤ head.line ∧ head.line < line + (text :: rest).length := by
        intro fence inRest
        have := ih inRest
        rw [List.length_cons]
        omega
      unfold headings at member
      split_ifs at member with fence hidden
      · exact later member
      · exact later member
      · split at member
        · rcases List.mem_cons.mp member with rfl | inRest
          · rw [List.length_cons]
            dsimp only
            omega
          · exact later inRest
        · exact later member

theorem headings_rise (line : Nat) (inFence : Bool) (lines : List String) :
    (headings line inFence lines).Pairwise fun left right => left.line < right.line := by
  induction lines generalizing line inFence with
  | nil => exact .nil
  | cons text rest ih =>
      unfold headings
      split_ifs with fence hidden
      · exact ih _ _
      · exact ih _ _
      · split
        · refine List.pairwise_cons.mpr ⟨fun other member => ?_, ih _ _⟩
          have := (headings_bounds member).1
          dsimp only
          omega
        · exact ih _ _

theorem outline_placed {lines : List String} {nested : Nested Heading}
    (listed : nested ∈ outline lines) :
    Nesting.Placed Heading.level Heading.line lines.length (headings 0 false lines) nested :=
  Nesting.placed_of_mem (headings_rise 0 false lines)
    (fun _ member => by simpa using (headings_bounds member).2) listed

/-- Every heading outside the fences has one section, in the order of the document; the path of a
section names exactly the headings of the sections that it begins in, the outermost first, at
levels that rise; and a section that begins in another ends in it.  No excerpt is longer than the
cap and the mark of a cut. -/
theorem sections_nested (platform : Platform) (docPath : String) (lines : List String) :
    (splitSections platform docPath lines).map (·.heading) =
        (headings 0 false lines).map (·.heading) ∧
      (∀ piece ∈ splitSections platform docPath lines,
        piece.excerpt.toList.length ≤ excerptCap + 2) ∧
      (outline lines).map (·.item) = headings 0 false lines ∧
      ∀ inner ∈ outline lines,
        (docSection platform docPath lines inner).headingPath = " / ".intercalate
          ((inner.ancestors.reverse ++ [inner.item]).map (·.heading)) ∧
        (inner.ancestors.reverse ++ [inner.item]).Pairwise (fun above below =>
          above.line < below.line ∧ above.level < below.level) ∧
        ∀ outer ∈ outline lines,
          (outer.item ∈ inner.ancestors ↔
            outer.item.line < inner.item.line ∧ inner.item.line < outer.ends) ∧
          (outer.item.line < inner.item.line → inner.item.line < outer.ends →
            inner.ends ≤ outer.ends) := by
  have items : (outline lines).map (·.item) = headings 0 false lines := Nesting.nest_items _ _ _
  refine ⟨?_, ?_, items, fun inner listed => ⟨rfl, ?_, fun outer other => ⟨?_, ?_⟩⟩⟩
  · rw [← items, splitSections, List.map_map, List.map_map]
    rfl
  · intro piece listed
    obtain ⟨nested, _, rfl⟩ := List.mem_map.mp listed
    exact excerpt_bounded _
  · have placed := outline_placed listed
    rw [List.pairwise_append]
    refine ⟨List.pairwise_reverse.mpr placed.ordered, List.pairwise_singleton _ _, ?_⟩
    intro above member below single
    rw [List.mem_singleton.mp single]
    obtain ⟨_, lower, open_⟩ := (placed.ancestor above).mp (List.mem_reverse.mp member)
    exact ⟨lower, open_ _ placed.member lower le_rfl⟩
  · exact (outline_placed listed).within (outline_placed other)
      fun _ member => by simpa using (headings_bounds member).2
  · exact (outline_placed listed).ends_le (outline_placed other)

end Kawa
