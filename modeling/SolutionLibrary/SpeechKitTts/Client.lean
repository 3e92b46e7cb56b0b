import SolutionLibrary.Library.Chunks

namespace solution_library.speechkit_tts

open chunks

/-- The characters of a `string` are UTF-16 code units. -/
abbrev Text := List UInt16

/-- Where the program runs, which decides `Environment.NewLine`. -/
inductive Platform where
  | unix
  | windows
  deriving DecidableEq

def Platform.newLine : Platform → Text
  | unix => [0x0A]
  | windows => [0x0D, 0x0A]

def MAX_LINE_LENGTH : ℕ := 160

/-- `char.IsWhiteSpace`. -/
def isWhiteSpace (c : UInt16) : Bool :=
  (0x09 ≤ c && c ≤ 0x0D) || c = 0x20 || c = 0x85 || c = 0xA0 || c = 0x1680 || (0x2000 ≤ c && c ≤ 0x200A) ||
    c = 0x2028 || c = 0x2029 || c = 0x202F || c = 0x205F || c = 0x3000

def isNullOrWhiteSpace (line : Text) : Bool :=
  line.all isWhiteSpace

/-- A full stop, a comma or a semicolon. -/
def isDelimiter (c : UInt16) : Bool :=
  c = 0x2E || c = 0x2C || c = 0x3B

/-- `Regex.Split(text, @"(?<=[.,;])")`. -/
def parts (text : Text) : List Text :=
  splitAfter isDelimiter text

def appendLine (platform : Platform) (ttsBuffer line : Text) : Text :=
  ttsBuffer ++ line ++ platform.newLine

/-- The loop over the parts, with what it passes to `SynthesizeTxtBuffer`. -/
def synthesizeLines (platform : Platform) (ttsBuffer : Text) : List Text → List Text
  | [] => if 0 < ttsBuffer.length then [ttsBuffer] else []
  | line :: parts =>
    if !isNullOrWhiteSpace line then
      if MAX_LINE_LENGTH ≤ ttsBuffer.length + line.length then
        ttsBuffer :: synthesizeLines platform (appendLine platform [] line) parts
      else synthesizeLines platform (appendLine platform ttsBuffer line) parts
    else synthesizeLines platform ttsBuffer parts

def SynthesizeTxtLine (platform : Platform) (text : Text) : List Text :=
  synthesizeLines platform [] (parts text)

/-- The parts that are not blank. -/
def spoken (text : Text) : List Text :=
  (parts text).filter fun line => !isNullOrWhiteSpace line

/-- A buffer with its terminators. -/
def buffer (platform : Platform) (lines : List Text) : Text :=
  lines.flatMap fun line => line ++ platform.newLine

/-- The buffers are not empty, keep the limit with their terminators, and hold the parts of the text that are not blank
in order, each with its terminator. -/
structure Chunked (platform : Platform) (text : Text) : Prop where
  nonempty : ∀ ttsBuffer ∈ SynthesizeTxtLine platform text, ttsBuffer ≠ []
  bounded : ∀ ttsBuffer ∈ SynthesizeTxtLine platform text, ttsBuffer.length ≤ MAX_LINE_LENGTH
  conserved : ∃ (parts : List Text) (groups : List (List Text)), IsSplit isDelimiter text parts ∧
    SynthesizeTxtLine platform text = groups.map (buffer platform) ∧
      groups.flatten = parts.filter fun line => !isNullOrWhiteSpace line

/-- The length of a part with its terminator. -/
def lineLength (platform : Platform) (line : Text) : ℕ :=
  line.length + platform.newLine.length

/-- The length that a buffer may have when a part is appended to it. -/
def capacity (platform : Platform) : ℕ :=
  MAX_LINE_LENGTH - 1 + platform.newLine.length

/-- Every part that is not blank keeps the limit with its terminator, and the parts from the beginning of a buffer on
never fill it to more than the limit, terminators included, while the last part still fits without its own. -/
structure Fits (platform : Platform) (text : Text) : Prop where
  parts : ∀ line ∈ spoken text, lineLength platform line ≤ MAX_LINE_LENGTH
  buffers : ∀ lines rest, Begins (capacity platform) (lineLength platform) (spoken text) (lines ++ rest) →
    total (lineLength platform) lines ≤ capacity platform → total (lineLength platform) lines ≤ MAX_LINE_LENGTH

section buffers

variable {platform : Platform} {text : Text}

theorem length_buffer (platform : Platform) (lines : List Text) :
    (buffer platform lines).length = total (lineLength platform) lines := by
  induction lines with
  | nil => rfl
  | cons line lines ih =>
    rw [buffer, List.flatMap_cons, ← buffer, List.length_append, ih, List.length_append]
    rfl

theorem appendLine_buffer (platform : Platform) (lines : List Text) (line : Text) :
    appendLine platform (buffer platform lines) line = buffer platform (lines ++ [line]) := by
  simp [appendLine, buffer]

theorem newLine_length_pos (platform : Platform) : 0 < platform.newLine.length := by
  cases platform with
  | unix => decide
  | windows => decide

theorem limit_le_capacity (platform : Platform) : MAX_LINE_LENGTH ≤ capacity platform := by
  have hpos := newLine_length_pos platform
  rw [capacity]
  omega

theorem buffer_eq_nil_iff {lines : List Text} : buffer platform lines = [] ↔ lines = [] := by
  constructor
  · intro h
    cases lines with
    | nil => rfl
    | cons line lines =>
      have hlength := congrArg List.length h
      rw [length_buffer, total, List.map_cons, List.sum_cons, lineLength, List.length_nil] at hlength
      have hpos := newLine_length_pos platform
      omega
  · rintro rfl
    rfl

/-- The loop fills the buffers with the parts that are not blank. -/
theorem synthesizeLines_eq (platform : Platform) (lines parts : List Text) :
    synthesizeLines platform (buffer platform lines) parts =
      (fill (capacity platform) (lineLength platform) lines
        (parts.filter fun line => !isNullOrWhiteSpace line)).map (buffer platform) := by
  induction parts generalizing lines with
  | nil =>
    rw [synthesizeLines, List.filter_nil, fill]
    by_cases h : lines = []
    · rw [if_pos h, h]
      rfl
    · rw [if_neg h, if_pos (List.length_pos_iff.mpr (buffer_eq_nil_iff.not.mpr h)), List.map_singleton]
  | cons line parts ih =>
    rw [synthesizeLines]
    by_cases hblank : isNullOrWhiteSpace line
    · rw [if_neg (by simp [hblank]), List.filter_cons_of_neg (by simp [hblank]), ih]
    · have hlimit : MAX_LINE_LENGTH ≤ (buffer platform lines).length + line.length ↔
          capacity platform < total (lineLength platform) lines + lineLength platform line := by
        rw [length_buffer, capacity, lineLength, MAX_LINE_LENGTH]
        omega
      have hempty : appendLine platform [] line = buffer platform [line] := appendLine_buffer platform [] line
      rw [if_pos (by simp [hblank]), List.filter_cons_of_pos (by simp [hblank]), fill]
      by_cases hexceeds : MAX_LINE_LENGTH ≤ (buffer platform lines).length + line.length
      · rw [if_pos hexceeds, if_pos (hlimit.mp hexceeds), List.map_cons, hempty, ih]
      · rw [if_neg hexceeds, if_neg (hlimit.not.mp hexceeds), appendLine_buffer, ih]

theorem SynthesizeTxtLine_eq (platform : Platform) (text : Text) : SynthesizeTxtLine platform text =
    (fill (capacity platform) (lineLength platform) [] (spoken text)).map (buffer platform) :=
  synthesizeLines_eq platform [] (parts text)

/-- Whatever the parts, the buffers hold them in order. -/
theorem conserved (platform : Platform) (text : Text) :
    ∃ (parts : List Text) (groups : List (List Text)), IsSplit isDelimiter text parts ∧
      SynthesizeTxtLine platform text = groups.map (buffer platform) ∧
        groups.flatten = parts.filter fun line => !isNullOrWhiteSpace line :=
  ⟨parts text, _, isSplit_splitAfter isDelimiter text, SynthesizeTxtLine_eq platform text, flatten_fill _ _ _ _⟩

theorem bounded_iff (platform : Platform) (text : Text) :
    (∀ ttsBuffer ∈ SynthesizeTxtLine platform text, ttsBuffer.length ≤ MAX_LINE_LENGTH) ↔ Fits platform text := by
  rw [SynthesizeTxtLine_eq, List.forall_mem_map]
  simp only [length_buffer]
  rw [fill_le_iff (limit_le_capacity platform)]
  exact ⟨fun h => ⟨h.1, h.2⟩, fun h => ⟨h.parts, h.buffers⟩⟩

end buffers

/-- The buffers are as they should be exactly when the parts fit. -/
theorem chunked_iff_fits (platform : Platform) (text : Text) : Chunked platform text ↔ Fits platform text := by
  constructor
  · exact fun h => (bounded_iff platform text).mp h.bounded
  · intro h
    refine ⟨?_, (bounded_iff platform text).mpr h, conserved platform text⟩
    rw [SynthesizeTxtLine_eq, List.forall_mem_map]
    intro lines hlines
    rw [ne_eq, buffer_eq_nil_iff]
    exact ne_nil_of_mem_fill (fun line hline => (h.parts line hline).trans (limit_le_capacity platform)) hlines

/-- A part of 160 characters is sent after an empty buffer, and exceeds the limit with its terminator. -/
theorem long_part_exceeds : ¬ ∀ platform text, Chunked platform text := by
  intro h
  have hempty : [] ∈ SynthesizeTxtLine .unix (List.replicate 160 0x61) := by decide +kernel
  exact (h .unix (List.replicate 160 0x61)).nonempty [] hempty rfl

end solution_library.speechkit_tts
