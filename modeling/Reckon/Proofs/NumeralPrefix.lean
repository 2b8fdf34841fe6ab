import Mathlib.Computability.Language
import Reckon.Number.Numeral

/-!
The numeral that a text begins with.

The texts of numerals are a regular language. A scan takes the longest prefix of a text that belongs to
it, and fails just if no prefix does: a point or an exponent mark is left to what follows only where no
digit makes it part of a numeral. What it takes is spelled by the parts it gives, and a text of the
language is read as a number whole.
-/

namespace Reckon

open Computability

namespace Numeral

/-! The language of numerals. -/

/-- A decimal digit. -/
def digit : Language Char := {w | ∃ d : Char, d.isDigit ∧ w = [d]}

/-- One digit or more. -/
def digits : Language Char := digit * digit∗

def sign : Language Char := {['+'], ['-']}

def point : Language Char := {['.']}

def exponentMark : Language Char := {['e'], ['E']}

/-- The texts `[+-]?(D+(.D*)?|.D+)([eE][+-]?D+)?`, with `D` for a digit. -/
def texts : Language Char :=
  (1 + sign) * (digits * (1 + point * digit∗) + point * digits) *
    (1 + exponentMark * (1 + sign) * digits)

/-- Whether all characters are digits. -/
def AllDigits (ds : List Char) : Prop := ∀ d ∈ ds, d.isDigit

/-- The spellings of a sign; none stands for plus. -/
inductive SignText : Bool → List Char → Prop
  | none : SignText false []
  | plus : SignText false ['+']
  | minus : SignText true ['-']

/-- The spellings of digits before and after a point. -/
inductive MantissaText : List Char → List Char → List Char → Prop
  | whole {ds : List Char} : ds ≠ [] → AllDigits ds → MantissaText ds [] ds
  | pointed {ds fs : List Char} : ds ++ fs ≠ [] → AllDigits ds → AllDigits fs →
      MantissaText ds fs (ds ++ '.' :: fs)

/-- The spellings of an exponent; none stands for zero. -/
inductive ExponentText : Int → List Char → Prop
  | none : ExponentText 0 []
  | marked {mark : Char} {negative : Bool} {s ds : List Char} : mark = 'e' ∨ mark = 'E' →
      SignText negative s → ds ≠ [] → AllDigits ds →
      ExponentText (if negative then -(Decimal.ofDigits ds : Int) else Decimal.ofDigits ds)
        (mark :: (s ++ ds))

/-- The spellings of a numeral. -/
def Spells (n : Numeral) (w : List Char) : Prop :=
  ∃ s m e, w = s ++ (m ++ e) ∧ SignText n.negative s ∧ MantissaText n.whole n.fraction m ∧
    ExponentText n.exponent e

theorem mem_kstar_digit {w : List Char} : w ∈ digit∗ ↔ AllDigits w := by
  constructor
  · rintro ⟨parts, rfl, hparts⟩ d hd
    obtain ⟨part, hpart, hmem⟩ := List.mem_flatten.mp hd
    obtain ⟨e, he, rfl⟩ := hparts part hpart
    rw [List.mem_singleton.mp hmem]
    exact he
  · intro h
    induction w with
    | nil => exact Language.nil_mem_kstar digit
    | cons d w ih =>
      obtain ⟨hd, hw⟩ := List.forall_mem_cons.mp h
      obtain ⟨parts, rfl, hparts⟩ := ih hw
      refine ⟨[d] :: parts, rfl, List.forall_mem_cons.mpr ⟨⟨d, hd, rfl⟩, hparts⟩⟩

theorem mem_digits {w : List Char} : w ∈ digits ↔ w ≠ [] ∧ AllDigits w := by
  rw [digits, Language.mem_mul]
  constructor
  · rintro ⟨_, ⟨d, hd, rfl⟩, ds, hds, rfl⟩
    exact ⟨by simp, List.forall_mem_cons.mpr ⟨hd, mem_kstar_digit.mp hds⟩⟩
  · rintro ⟨hne, h⟩
    cases w with
    | nil => exact absurd rfl hne
    | cons d ds =>
      obtain ⟨hd, hds⟩ := List.forall_mem_cons.mp h
      exact ⟨[d], ⟨d, hd, rfl⟩, ds, mem_kstar_digit.mpr hds, rfl⟩

theorem mem_sign {w : List Char} : w ∈ 1 + sign ↔ ∃ negative, SignText negative w := by
  rw [Language.mem_add, Language.mem_one]
  constructor
  · rintro (rfl | rfl | rfl)
    · exact ⟨false, .none⟩
    · exact ⟨false, .plus⟩
    · exact ⟨true, .minus⟩
  · rintro ⟨negative, h⟩
    cases h with
    | none => exact .inl rfl
    | plus => exact .inr (.inl rfl)
    | minus => exact .inr (.inr rfl)

theorem mem_mantissa {w : List Char} :
    w ∈ digits * (1 + point * digit∗) + point * digits ↔
      ∃ ds fs, MantissaText ds fs w := by
  simp only [Language.mem_add, Language.mem_mul, Language.mem_one, mem_digits, mem_kstar_digit]
  constructor
  · rintro (⟨ds, ⟨hne, hds⟩, _, rfl | ⟨_, rfl, fs, hfs, rfl⟩, rfl⟩ | ⟨_, rfl, fs, ⟨hne, hfs⟩, rfl⟩)
    · exact ⟨ds, [], by simpa using MantissaText.whole hne hds⟩
    · exact ⟨ds, fs, .pointed (by simp [hne]) hds hfs⟩
    · exact ⟨[], fs, MantissaText.pointed (by simpa using hne) (by simp [AllDigits]) hfs⟩
  · rintro ⟨ds, fs, h⟩
    cases h with
    | whole hne hds => exact .inl ⟨w, ⟨hne, hds⟩, [], .inl rfl, List.append_nil w⟩
    | pointed hne hds hfs =>
      by_cases hempty : ds = []
      · subst hempty
        exact .inr ⟨['.'], rfl, fs, ⟨by simpa using hne, hfs⟩, rfl⟩
      · exact .inl ⟨ds, ⟨hempty, hds⟩, '.' :: fs, .inr ⟨['.'], rfl, fs, hfs, rfl⟩, rfl⟩

theorem mem_exponent {w : List Char} :
    w ∈ 1 + exponentMark * (1 + sign) * digits ↔ ∃ e, ExponentText e w := by
  rw [Language.mem_add, Language.mem_one, Language.mem_mul]
  constructor
  · rintro (rfl | ⟨_, ⟨mark, hmark, s, hs, rfl⟩, ds, hds, rfl⟩)
    · exact ⟨0, .none⟩
    · obtain ⟨negative, hs⟩ := mem_sign.mp hs
      obtain ⟨hne, hds⟩ := mem_digits.mp hds
      rcases hmark with rfl | rfl
      · exact ⟨_, .marked (.inl rfl) hs hne hds⟩
      · exact ⟨_, .marked (.inr rfl) hs hne hds⟩
  · rintro ⟨e, h⟩
    cases h with
    | none => exact .inl rfl
    | @marked mark negative s ds hmark hs hne hds =>
      have hmark : [mark] ∈ exponentMark := by
        rcases hmark with rfl | rfl
        · exact .inl rfl
        · exact .inr rfl
      refine .inr ⟨[mark] ++ s, Language.append_mem_mul hmark (mem_sign.mpr ⟨negative, hs⟩), ds,
        mem_digits.mpr ⟨hne, hds⟩, rfl⟩

theorem mem_texts {w : List Char} : w ∈ texts ↔ ∃ n : Numeral, n.Spells w := by
  rw [texts, mul_assoc, Language.mem_mul]
  constructor
  · rintro ⟨s, hs, _, ⟨m, hm, e, he, rfl⟩, rfl⟩
    obtain ⟨negative, hs⟩ := mem_sign.mp hs
    obtain ⟨ds, fs, hm⟩ := mem_mantissa.mp hm
    obtain ⟨exponent, he⟩ := mem_exponent.mp he
    exact ⟨⟨negative, ds, fs, exponent⟩, s, m, e, rfl, hs, hm, he⟩
  · rintro ⟨n, s, m, e, rfl, hs, hm, he⟩
    exact ⟨s, mem_sign.mpr ⟨_, hs⟩, m ++ e,
      Language.append_mem_mul (mem_mantissa.mpr ⟨_, _, hm⟩) (mem_exponent.mpr ⟨_, he⟩), rfl⟩

/-! What a scan takes is spelled by what it gives. -/

/-- The digits before and after a point, and what follows them. -/
def scanMantissa (cs : List Char) : List Char × List Char × List Char :=
  let whole := cs.takeWhile Char.isDigit
  (whole, scanFraction whole (cs.dropWhile Char.isDigit))

theorem scan?_eq (cs : List Char) :
    scan? cs =
      let mantissa := scanMantissa (scanSign cs).2
      let exponent := scanExponent mantissa.2.2
      if mantissa.1.isEmpty && mantissa.2.1.isEmpty then none
      else some (⟨(scanSign cs).1, mantissa.1, mantissa.2.1, exponent.1⟩, exponent.2) := rfl

theorem scanFraction_point (whole rest : List Char) :
    scanFraction whole ('.' :: rest) =
      if whole.isEmpty && (rest.takeWhile Char.isDigit).isEmpty then ([], '.' :: rest)
      else (rest.takeWhile Char.isDigit, rest.dropWhile Char.isDigit) := rfl

theorem scanFraction_of_ne {cs : List Char} (whole : List Char) (h : ∀ rest, cs ≠ '.' :: rest) :
    scanFraction whole cs = ([], cs) := by
  unfold scanFraction
  split
  · rename_i rest
    exact absurd rfl (h rest)
  · rfl

theorem allDigits_takeWhile (cs : List Char) : AllDigits (cs.takeWhile Char.isDigit) :=
  List.all_eq_true.mp List.all_takeWhile

theorem scanSign_split (cs : List Char) :
    ∃ s, cs = s ++ (scanSign cs).2 ∧ SignText (scanSign cs).1 s := by
  unfold scanSign
  split
  · exact ⟨['-'], rfl, .minus⟩
  · exact ⟨['+'], rfl, .plus⟩
  · exact ⟨[], rfl, .none⟩

theorem scanMantissa_split {cs : List Char}
    (h : ¬((scanMantissa cs).1.isEmpty && (scanMantissa cs).2.1.isEmpty) = true) :
    ∃ m, cs = m ++ (scanMantissa cs).2.2 ∧
      MantissaText (scanMantissa cs).1 (scanMantissa cs).2.1 m := by
  have hsplit := @List.takeWhile_append_dropWhile Char Char.isDigit cs
  simp only [scanMantissa] at h ⊢
  generalize hdrop : cs.dropWhile Char.isDigit = after at h hsplit ⊢
  by_cases hpoint : ∃ rest, after = '.' :: rest
  · obtain ⟨rest, rfl⟩ := hpoint
    rw [scanFraction_point] at h ⊢
    split at h
    · rename_i hempty
      simp only [Bool.and_eq_true] at hempty
      simp [hempty.1] at h
    · rename_i hempty
      rw [if_neg hempty]
      refine ⟨cs.takeWhile Char.isDigit ++ '.' :: rest.takeWhile Char.isDigit, ?_, .pointed ?_
        (allDigits_takeWhile cs) (allDigits_takeWhile rest)⟩
      · rw [List.append_assoc, List.cons_append, List.takeWhile_append_dropWhile, hsplit]
      · intro hnil
        simp only [List.append_eq_nil_iff] at hnil
        simp [hnil.1, hnil.2] at hempty
  · rw [scanFraction_of_ne _ (not_exists.mp hpoint)] at h ⊢
    exact ⟨_, hsplit.symm, .whole (by simpa using h) (allDigits_takeWhile cs)⟩

theorem scanExponent_split (cs : List Char) :
    ∃ e, cs = e ++ (scanExponent cs).2 ∧ ExponentText (scanExponent cs).1 e := by
  unfold scanExponent
  split
  · rename_i mark rest
    split
    · rename_i hmark
      obtain ⟨s, hs, hsign⟩ := scanSign_split rest
      have hdigits := allDigits_takeWhile (scanSign rest).2
      have hsplit := @List.takeWhile_append_dropWhile Char Char.isDigit (scanSign rest).2
      simp only
      split
      · exact ⟨[], rfl, .none⟩
      · rename_i hne
        refine ⟨_, ?_, .marked hmark hsign (by simpa using hne) hdigits⟩
        rw [List.cons_append, List.append_assoc, hsplit, ← hs]
    · exact ⟨[], rfl, .none⟩
  · exact ⟨[], rfl, .none⟩

/-- What a scan takes is a spelling of the numeral that it gives. -/
theorem spells_of_scan? {cs rest : List Char} {n : Numeral} (h : scan? cs = some (n, rest)) :
    ∃ w, cs = w ++ rest ∧ n.Spells w := by
  rw [scan?_eq] at h
  simp only at h
  split at h
  · contradiction
  · rename_i hne
    obtain ⟨rfl, rfl⟩ := Prod.mk.inj (Option.some.inj h)
    obtain ⟨s, hs, hsign⟩ := scanSign_split cs
    obtain ⟨m, hm, hmantissa⟩ := scanMantissa_split hne
    obtain ⟨e, he, hexponent⟩ := scanExponent_split (scanMantissa (scanSign cs).2).2.2
    refine ⟨s ++ (m ++ e), ?_, s, m, e, rfl, hsign, hmantissa, hexponent⟩
    rw [List.append_assoc, List.append_assoc, ← he, ← hm, ← hs]

/-! A scan takes no less than any numeral that the text begins with. -/

/-- Whether a text goes on with something else than digits or a point. -/
def EndsMantissa (rest : List Char) : Prop :=
  ∀ c more, rest = c :: more → c.isDigit = false ∧ c ≠ '.'

theorem takeWhile_digits {ds : List Char} (hds : AllDigits ds) (rest : List Char) :
    (ds ++ rest).takeWhile Char.isDigit = ds ++ rest.takeWhile Char.isDigit ∧
      (ds ++ rest).dropWhile Char.isDigit = rest.dropWhile Char.isDigit :=
  ⟨List.takeWhile_append_of_pos hds, List.dropWhile_append_of_pos hds⟩

theorem EndsMantissa.takeWhile {rest : List Char} (h : EndsMantissa rest) :
    rest.takeWhile Char.isDigit = [] ∧ rest.dropWhile Char.isDigit = rest := by
  cases rest with
  | nil => exact ⟨rfl, rfl⟩
  | cons c more =>
    have hc := (h c more rfl).1
    exact ⟨List.takeWhile_cons_of_neg (by simp [hc]), List.dropWhile_cons_of_neg (by simp [hc])⟩

theorem length_rest_scanFraction_le (whole cs : List Char) :
    (scanFraction whole cs).2.length ≤ cs.length := by
  by_cases hpoint : ∃ rest, cs = '.' :: rest
  · obtain ⟨rest, rfl⟩ := hpoint
    rw [scanFraction_point]
    split
    · exact Nat.le_refl _
    · exact Nat.le_succ_of_le (List.dropWhile_suffix _).length_le
  · rw [scanFraction_of_ne whole (not_exists.mp hpoint)]

theorem length_rest_scanExponent_le (cs : List Char) :
    (scanExponent cs).2.length ≤ cs.length := by
  obtain ⟨e, he, -⟩ := scanExponent_split cs
  calc (scanExponent cs).2.length ≤ (e ++ (scanExponent cs).2).length := by simp
    _ = cs.length := by rw [← he]

section
variable {negative : Bool} {exponent : Int} {s ds fs m e rest : List Char}

theorem SignText.scanSign_append (h : SignText negative s)
    (hrest : ∀ c more, rest = c :: more → c ≠ '+' ∧ c ≠ '-') :
    scanSign (s ++ rest) = (negative, rest) := by
  cases h with
  | none =>
    rw [List.nil_append]
    unfold scanSign
    split
    · exact absurd rfl (hrest '-' _ rfl).2
    · exact absurd rfl (hrest '+' _ rfl).1
    · rfl
  | plus => rfl
  | minus => rfl

theorem AllDigits.head {d : Char} {more : List Char} (hne : ds ≠ []) (hds : AllDigits ds)
    (h : ds ++ rest = d :: more) : d.isDigit := by
  cases ds with
  | nil => exact absurd rfl hne
  | cons d' ds =>
    obtain ⟨rfl, -⟩ := List.cons.inj h
    exact hds d' List.mem_cons_self

/-- A numeral goes on after its sign with a digit or a point. -/
theorem MantissaText.not_sign (h : MantissaText ds fs m) (rest : List Char) :
    ∀ c more, m ++ rest = c :: more → c ≠ '+' ∧ c ≠ '-' := by
  have hdigit {c : Char} (hc : c.isDigit) : c ≠ '+' ∧ c ≠ '-' := by
    refine ⟨?_, ?_⟩ <;> rintro rfl <;> contradiction
  intro c more hcons
  cases h with
  | whole hne hds => exact hdigit (hds.head hne hcons)
  | pointed hne hds hfs =>
    cases ds with
    | nil =>
      obtain ⟨rfl, -⟩ := List.cons.inj hcons
      decide
    | cons d ds =>
      obtain ⟨rfl, -⟩ := List.cons.inj hcons
      exact hdigit (hds d List.mem_cons_self)

/-- At least the mantissa is taken. -/
theorem MantissaText.scanMantissa_append (h : MantissaText ds fs m) (rest : List Char) :
    ¬((scanMantissa (m ++ rest)).1.isEmpty && (scanMantissa (m ++ rest)).2.1.isEmpty) = true ∧
      (scanMantissa (m ++ rest)).2.2.length ≤ rest.length := by
  cases h with
  | whole hne hds =>
    obtain ⟨htake, hdrop⟩ := takeWhile_digits hds rest
    simp only [scanMantissa, htake, hdrop]
    refine ⟨by simp [hne], ?_⟩
    calc (scanFraction (ds ++ rest.takeWhile Char.isDigit) (rest.dropWhile Char.isDigit)).2.length
      _ ≤ (rest.dropWhile Char.isDigit).length := length_rest_scanFraction_le _ _
      _ ≤ rest.length := (List.dropWhile_suffix _).length_le
  | pointed hne hds hfs =>
    have hpoint (cs : List Char) : ('.' :: cs).takeWhile Char.isDigit = [] ∧
        ('.' :: cs).dropWhile Char.isDigit = '.' :: cs := ⟨rfl, rfl⟩
    obtain ⟨htake, hdrop⟩ := takeWhile_digits hds ('.' :: (fs ++ rest))
    obtain ⟨htake', hdrop'⟩ := takeWhile_digits hfs rest
    have hnonempty : ¬(ds.isEmpty && (fs ++ rest.takeWhile Char.isDigit).isEmpty) = true := by
      intro hempty
      simp only [Bool.and_eq_true, List.isEmpty_iff, List.append_eq_nil_iff] at hempty
      exact hne (by rw [hempty.1, hempty.2.1, List.append_nil])
    rw [(hpoint _).1, List.append_nil] at htake
    rw [(hpoint _).2] at hdrop
    simp only [scanMantissa, List.append_assoc, List.cons_append, htake, hdrop,
      scanFraction_point, htake', hdrop', if_neg hnonempty]
    exact ⟨hnonempty, (List.dropWhile_suffix _).length_le⟩

/-- Just the mantissa is taken if something else follows it. -/
theorem MantissaText.scanMantissa_eq (h : MantissaText ds fs m) (hrest : EndsMantissa rest) :
    scanMantissa (m ++ rest) = (ds, fs, rest) := by
  obtain ⟨hnone, hall⟩ := hrest.takeWhile
  cases h with
  | whole hne hds =>
    obtain ⟨htake, hdrop⟩ := takeWhile_digits hds rest
    rw [scanMantissa, htake, hdrop, hnone, hall, List.append_nil, scanFraction_of_ne]
    exact fun more hmore => (hrest '.' more hmore).2 rfl
  | pointed hne hds hfs =>
    have hpoint (cs : List Char) : ('.' :: cs).takeWhile Char.isDigit = [] ∧
        ('.' :: cs).dropWhile Char.isDigit = '.' :: cs := ⟨rfl, rfl⟩
    obtain ⟨htake, hdrop⟩ := takeWhile_digits hds ('.' :: (fs ++ rest))
    obtain ⟨htake', hdrop'⟩ := takeWhile_digits hfs rest
    have hnonempty : ¬(ds.isEmpty && fs.isEmpty) = true := by
      intro hempty
      simp only [Bool.and_eq_true, List.isEmpty_iff] at hempty
      exact hne (by rw [hempty.1, hempty.2, List.append_nil])
    rw [(hpoint _).1, List.append_nil] at htake
    rw [(hpoint _).2] at hdrop
    simp only [scanMantissa, List.append_assoc, List.cons_append, htake, hdrop,
      scanFraction_point, htake', hdrop', hnone, hall, List.append_nil, if_neg hnonempty]

theorem ExponentText.endsMantissa (h : ExponentText exponent e) (hne : e ≠ []) (rest : List Char) :
    EndsMantissa (e ++ rest) := by
  intro c more hcons
  cases h with
  | none => exact absurd rfl hne
  | marked hmark _ _ _ =>
    obtain ⟨rfl, -⟩ := List.cons.inj hcons
    rcases hmark with rfl | rfl <;> decide

/-- At least the exponent is taken, and just that if no digit follows. -/
theorem ExponentText.scanExponent_append (h : ExponentText exponent e) (hne : e ≠ [])
    (rest : List Char) :
    (scanExponent (e ++ rest)).2.length ≤ rest.length ∧
      (EndsMantissa rest → scanExponent (e ++ rest) = (exponent, rest)) := by
  cases h with
  | none => exact absurd rfl hne
  | @marked mark negative s ds hmark hsign hds hdigits =>
    have hsigned : scanSign (s ++ (ds ++ rest)) = (negative, ds ++ rest) := by
      refine hsign.scanSign_append fun c more hcons => ?_
      exact (MantissaText.whole hds hdigits).not_sign rest c more hcons
    obtain ⟨htake, hdrop⟩ := takeWhile_digits hdigits rest
    have hnonempty : ¬(ds ++ rest.takeWhile Char.isDigit).isEmpty = true := by simp [hds]
    simp only [List.cons_append, List.append_assoc, scanExponent, if_pos hmark, hsigned, htake,
      hdrop, if_neg hnonempty]
    refine ⟨(List.dropWhile_suffix _).length_le, fun hrest => ?_⟩
    rw [hrest.takeWhile.1, hrest.takeWhile.2, List.append_nil]

theorem endsMantissa_nil : EndsMantissa [] := by simp [EndsMantissa]

theorem ExponentText.scanExponent_eq (h : ExponentText exponent e) :
    EndsMantissa e ∧ scanExponent e = (exponent, []) := by
  by_cases hne : e = []
  · subst hne
    cases h with
    | none => exact ⟨endsMantissa_nil, rfl⟩
  · have hend := h.endsMantissa hne []
    have hscan := (h.scanExponent_append hne []).2 endsMantissa_nil
    rw [List.append_nil] at hend hscan
    exact ⟨hend, hscan⟩

/-- A text that begins with a numeral is scanned, and at least that numeral is taken. -/
theorem Spells.scan?_append {n : Numeral} {w : List Char} (h : n.Spells w) (rest : List Char) :
    ∃ n' rest', scan? (w ++ rest) = some (n', rest') ∧ rest'.length ≤ rest.length := by
  obtain ⟨s, m, e, rfl, hs, hm, he⟩ := h
  have hsigned : scanSign (s ++ (m ++ e) ++ rest) = (n.negative, m ++ (e ++ rest)) := by
    rw [List.append_assoc, List.append_assoc]
    exact hs.scanSign_append (hm.not_sign _)
  obtain ⟨hfound, hlength⟩ := hm.scanMantissa_append (e ++ rest)
  rw [scan?_eq, hsigned]
  simp only [if_neg hfound]
  refine ⟨_, _, rfl, ?_⟩
  by_cases hne : e = []
  · subst hne
    exact Nat.le_trans (length_rest_scanExponent_le _) hlength
  · rw [hm.scanMantissa_eq (he.endsMantissa hne rest)]
    exact (he.scanExponent_append hne rest).1

/-- A spelling by itself is scanned as the numeral that it spells. -/
theorem Spells.scan?_eq {n : Numeral} {w : List Char} (h : n.Spells w) :
    scan? w = some (n, []) := by
  obtain ⟨s, m, e, rfl, hs, hm, he⟩ := h
  obtain ⟨hends, hexponent⟩ := he.scanExponent_eq
  obtain ⟨hfound, -⟩ := hm.scanMantissa_append e
  rw [Numeral.scan?_eq, hs.scanSign_append (hm.not_sign e)]
  simp only [if_neg hfound]
  rw [hm.scanMantissa_eq hends, hexponent]

end

end Numeral

/-- Whether a text is the longest that another begins with and that belongs to a language. -/
def IsLongestPrefix (l : Language Char) (text w : List Char) : Prop :=
  w <+: text ∧ w ∈ l ∧ ∀ v, v <+: text → v ∈ l → v.length ≤ w.length

theorem IsLongestPrefix.eq {l : Language Char} {text v w : List Char}
    (hv : IsLongestPrefix l text v) (hw : IsLongestPrefix l text w) : v = w := by
  obtain ⟨hvtext, hvl, hvmax⟩ := hv
  obtain ⟨hwtext, hwl, hwmax⟩ := hw
  have hlength : v.length = w.length :=
    Nat.le_antisymm (hwmax v hvtext hvl) (hvmax w hwtext hwl)
  exact (List.prefix_of_prefix_length_le hvtext hwtext hlength.le).eq_of_length hlength

theorem Numeral.scan?_eq_none_iff {cs : List Char} :
    scan? cs = none ↔ ∀ w, w <+: cs → w ∉ texts := by
  constructor
  · rintro h w ⟨rest, rfl⟩ hw
    obtain ⟨n, hn⟩ := mem_texts.mp hw
    obtain ⟨n', rest', hscan, -⟩ := hn.scan?_append rest
    rw [h] at hscan
    contradiction
  · intro h
    cases hscan : scan? cs with
    | none => rfl
    | some found =>
      obtain ⟨w, hcs, hw⟩ := spells_of_scan? hscan
      exact absurd (mem_texts.mpr ⟨_, hw⟩) (h w ⟨_, hcs.symm⟩)

/-- A scan takes the longest prefix that is a numeral. -/
theorem Numeral.isLongestPrefix_of_scan? {cs rest : List Char} {n : Numeral}
    (h : scan? cs = some (n, rest)) :
    ∃ w, IsLongestPrefix texts cs w ∧ n.Spells w := by
  obtain ⟨w, rfl, hw⟩ := spells_of_scan? h
  refine ⟨w, ⟨List.prefix_append w rest, mem_texts.mpr ⟨n, hw⟩, ?_⟩, hw⟩
  rintro v ⟨more, hv⟩ hmem
  obtain ⟨n', hn'⟩ := mem_texts.mp hmem
  obtain ⟨_, rest', hscan, hle⟩ := hn'.scan?_append more
  rw [hv, h, Option.some.injEq, Prod.mk.injEq] at hscan
  obtain ⟨-, rfl⟩ := hscan
  have := congrArg List.length hv
  rw [List.length_append, List.length_append] at this
  omega

/-- A point may end the digits; a mark and a sign without a digit are left. -/
example : Numeral.scan? "-7.e+x".toList = some (⟨true, ['7'], [], 0⟩, ['e', '+', 'x']) := by decide

theorem Numeral.Spells.readNumber? {n : Numeral} {w : List Char} (h : n.Spells w) :
    readNumber? w = some n.toFloat := by
  rw [Reckon.readNumber?, h.scan?_eq]

/-- A text reads as the number that is the longest numeral at its start, after blanks, and as none just
if no numeral stands there. Each numeral is read as a number whole, with the value of its parts. -/
theorem readNumberPrefix?_longest (s : String) :
    (readNumberPrefix? s.toList = none ↔
      ∀ w, w <+: s.toList.dropWhile isNumericBlank → w ∉ Numeral.texts) ∧
    (∀ x, readNumberPrefix? s.toList = some x ↔
      ∃ w, IsLongestPrefix Numeral.texts (s.toList.dropWhile isNumericBlank) w ∧
        readNumber? w = some x) ∧
    ∀ w ∈ Numeral.texts, ∃ n : Numeral, n.Spells w ∧ readNumber? w = some n.toFloat := by
  refine ⟨?_, fun x => ?_, fun w hw => ?_⟩
  · rw [readNumberPrefix?, Option.map_eq_none_iff, Numeral.scan?_eq_none_iff]
  · rw [readNumberPrefix?, Option.map_eq_some_iff]
    constructor
    · rintro ⟨⟨n, rest⟩, hscan, rfl⟩
      obtain ⟨w, hlongest, hw⟩ := Numeral.isLongestPrefix_of_scan? hscan
      exact ⟨w, hlongest, hw.readNumber?⟩
    · rintro ⟨v, hv, hread⟩
      cases hscan : Numeral.scan? (s.toList.dropWhile isNumericBlank) with
      | none => exact absurd hv.2.1 (Numeral.scan?_eq_none_iff.mp hscan v hv.1)
      | some found =>
        obtain ⟨w, hlongest, hw⟩ := Numeral.isLongestPrefix_of_scan? hscan
        rw [hv.eq hlongest, hw.readNumber?, Option.some.injEq] at hread
        exact ⟨found, rfl, hread⟩
  · obtain ⟨n, hn⟩ := Numeral.mem_texts.mp hw
    exact ⟨n, hn, hn.readNumber?⟩

end Reckon
