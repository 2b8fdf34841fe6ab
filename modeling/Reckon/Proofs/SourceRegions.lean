import Mathlib.Data.String.Basic
import Reckon.Proofs.ClosedText

/-!
Regions of a source text.

A region is a stretch of a source: the byte it starts at, and its text. What is left to read of a region
is one as well, and so is every part that is cut out of it. The bytes are counted in the texts; that they
are positions of the source, between two of its characters, is what has to be shown of them.
-/

namespace Reckon

/-- A stretch of a source: the byte where it starts, and its text. -/
structure Region where
  start : Nat
  text : List Char
deriving Repr, DecidableEq

namespace Region

/-- A source as a whole. -/
def whole (source : String) : Region := ⟨0, source.toList⟩

/-- The byte after the last one. -/
def stop (r : Region) : Nat := r.start + width r.text

def span (r : Region) : Span := ⟨r.start, r.stop⟩

/-- Whether a stretch is a part of a region. -/
def Within (part r : Region) : Prop :=
  ∃ before after, r.text = before ++ part.text ++ after ∧ part.start = r.start + width before

/-- Whether a stretch is a part of a region that begins later than the region does. -/
def Inside (part r : Region) : Prop := part.Within r ∧ r.start < part.start

/-- Whether a stretch is what is left of a region when something is read off its front. -/
def Rest (rest r : Region) : Prop :=
  ∃ taken, r.text = taken ++ rest.text ∧ rest.start = r.start + width taken

section

variable {r s part rest more : Region}

theorem Rest.refl (r : Region) : r.Rest r := ⟨[], rfl, rfl⟩

theorem Rest.trans (h : more.Rest rest) (h' : rest.Rest r) : more.Rest r := by
  obtain ⟨taken, htext, hstart⟩ := h
  obtain ⟨taken', htext', hstart'⟩ := h'
  refine ⟨taken' ++ taken, ?_, ?_⟩
  · rw [htext', htext, List.append_assoc]
  · rw [hstart, hstart', width_append, Nat.add_assoc]

theorem Rest.cons (pos : Nat) (c : Char) (cs : List Char) :
    Rest ⟨pos + c.utf8Size, cs⟩ ⟨pos, c :: cs⟩ := ⟨[c], rfl, rfl⟩

theorem Rest.start_lt (h : rest.Rest r) (hlt : rest.text.length < r.text.length) :
    r.start < rest.start := by
  obtain ⟨taken, htext, hstart⟩ := h
  cases taken with
  | nil =>
    rw [htext, List.nil_append] at hlt
    exact absurd hlt (Nat.lt_irrefl _)
  | cons c taken =>
    rw [hstart, width]
    have := c.utf8Size_pos
    omega

theorem Rest.within (h : rest.Rest r) : rest.Within r := by
  obtain ⟨taken, htext, hstart⟩ := h
  exact ⟨taken, [], by rw [htext, List.append_nil], hstart⟩

/-- What is read between two places is a part. -/
theorem Rest.exists_part (h : rest.Rest r) :
    ∃ part : Region, part.Within r ∧ part.span = ⟨r.start, rest.start⟩ := by
  obtain ⟨taken, htext, hstart⟩ := h
  refine ⟨⟨r.start, taken⟩, ⟨[], rest.text, htext, rfl⟩, ?_⟩
  rw [hstart]
  rfl

theorem Within.refl (r : Region) : r.Within r := (Rest.refl r).within

theorem Within.trans (h : part.Within s) (h' : s.Within r) : part.Within r := by
  obtain ⟨before, after, htext, hstart⟩ := h
  obtain ⟨before', after', htext', hstart'⟩ := h'
  refine ⟨before' ++ before, after ++ after', ?_, ?_⟩
  · simp only [htext', htext, List.append_assoc]
  · rw [hstart, hstart', width_append, Nat.add_assoc]

theorem Within.start_le (h : part.Within r) : r.start ≤ part.start := by
  obtain ⟨before, after, -, hstart⟩ := h
  omega

theorem Inside.of_within (h : part.Inside s) (h' : s.Within r) : part.Inside r :=
  ⟨h.1.trans h', Nat.lt_of_le_of_lt h'.start_le h.2⟩

theorem Inside.of_rest (h : part.Within rest) (h' : rest.Rest r) (hlt : r.start < rest.start) :
    part.Inside r :=
  ⟨h.trans h'.within, Nat.lt_of_lt_of_le hlt h.start_le⟩

theorem Inside.length_lt (h : part.Inside r) : part.text.length < r.text.length := by
  obtain ⟨⟨before, after, htext, hstart⟩, hlt⟩ := h
  cases before with
  | nil =>
    rw [width, Nat.add_zero] at hstart
    omega
  | cons c before =>
    simp only [htext, List.cons_append, List.length_cons, List.length_append]
    omega

end

end Region

/-- Whether the ends of a span are positions of a source: in order, not past its end, and each between
two characters or at an end of the source. -/
structure Span.Fits (span : Span) (source : String) : Prop where
  ordered : span.start ≤ span.stop
  bounded : span.stop ≤ source.utf8ByteSize
  start_valid : String.Pos.Raw.IsValid source ⟨span.start⟩
  stop_valid : String.Pos.Raw.IsValid source ⟨span.stop⟩

/-- Whether a diagnostic tells of a place in a region. -/
def Diagnostic.LiesIn (d : Diagnostic) (r : Region) : Prop :=
  ∃ part : Region, part.Within r ∧ d.span? = some part.span

theorem Diagnostic.LiesIn.of_within {d : Diagnostic} {s r : Region} (h : d.LiesIn s)
    (hs : s.Within r) : d.LiesIn r := by
  obtain ⟨part, hpart, hspan⟩ := h
  exact ⟨part, hpart.trans hs, hspan⟩

theorem width_eq_utf8Len (cs : List Char) : width cs = String.utf8Len cs := by
  induction cs with
  | nil => rfl
  | cons c cs ih => rw [width, ih, String.utf8Len_cons, Nat.add_comm]

theorem rawEndPos_ofList (cs : List Char) : (String.ofList cs).rawEndPos = ⟨width cs⟩ := by
  rw [String.rawEndPos, String.utf8ByteSize_ofList, width_eq_utf8Len]

theorem isValid_append (before after : List Char) :
    String.Pos.Raw.IsValid (String.ofList (before ++ after)) ⟨width before⟩ := by
  rw [String.Pos.Raw.isValid_iff_exists_append]
  exact ⟨String.ofList before, String.ofList after, String.ofList_append,
    (rawEndPos_ofList before).symm⟩

section

variable {r : Region} {source : String} (h : r.Within (.whole source))

include h

/-- The bytes counted for a part of a source are positions of it. -/
theorem Region.Within.fits : r.span.Fits source := by
  obtain ⟨before, after, htext, hstart⟩ := h
  have hsource : source = String.ofList (before ++ r.text ++ after) := by
    rw [← htext, Region.whole, String.ofList_toList]
  have hstart : r.start = width before := by rw [hstart, Region.whole, Nat.zero_add]
  have hstop : r.stop = width (before ++ r.text) := by rw [Region.stop, hstart, width_append]
  refine ⟨Nat.le_add_right r.start _, ?_, ?_, ?_⟩
  · calc r.stop = width (before ++ r.text) := hstop
      _ ≤ width (before ++ r.text ++ after) := by
        rw [width_append (before ++ r.text)]
        exact Nat.le_add_right _ _
      _ = source.utf8ByteSize := by rw [hsource, String.utf8ByteSize_ofList, width_eq_utf8Len]
  · rw [Region.span, hstart, hsource, List.append_assoc]
    exact isValid_append before (r.text ++ after)
  · rw [Region.span, hstop, hsource]
    exact isValid_append (before ++ r.text) after

/-- A part of a source is what stands between its two ends. -/
theorem Region.Within.extract :
    String.Pos.Raw.extract source ⟨r.start⟩ ⟨r.stop⟩ = String.ofList r.text := by
  obtain ⟨before, after, htext, hstart⟩ := h
  have hsource : source = String.ofList (before ++ r.text ++ after) := by
    rw [← htext, Region.whole, String.ofList_toList]
  have hstart : r.start = String.utf8Len before := by
    rw [hstart, Region.whole, Nat.zero_add, width_eq_utf8Len]
  rw [Region.stop, hstart, width_eq_utf8Len, hsource]
  exact String.extract_of_valid before r.text after

end

end Reckon
