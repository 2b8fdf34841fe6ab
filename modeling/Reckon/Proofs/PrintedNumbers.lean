import Reckon.Properties
import Reckon.Proofs.FloatOrder
import Reckon.Proofs.LexemeReading
import Reckon.Proofs.NumeralPrefix
import Reckon.Proofs.TableStorage

/-!
Printed numbers, and all that reads them.

The text of a finite number is a numeral without an exponent, and its digits stand for the number exactly.
So a numeric prefix, a bare text and a formula that are the text of a number all give that number, zero
for both zeros. A formula reads a negative number as a minus before a literal, and folds the two.
-/

namespace Reckon

/-- The number that the text of a number stands for: the number itself, and zero for both zeros. -/
def printed (x : Float) : Float := if x == 0 then 0.0 else x

theorem printed_beq {x : Float} (hf : x.isFinite) : (printed x == x) = true := by
  unfold printed
  split
  · rename_i hzero
    have hbeq : (0.0 == x) = (Float.Model.UnpackedFloat.zero .positive).beq x.toModel.unpack := rfl
    rw [hbeq]
    revert hzero
    show x.toModel.unpack.beq (.zero .positive) → _
    rw [unpacked_beq_zero]
    rintro ⟨s, hs⟩
    rw [hs]
    rfl
  · exact beq_self_of_isFinite hf

theorem toBits_shortest_of_isFinite {x : Float} (hf : x.isFinite) (hzero : ¬(x == 0) = true) :
    (Decimal.shortest .up (x.toBits.toNat % Binary.signWeight)).toBits =
      x.toBits.toNat % Binary.signWeight :=
  Decimal.toBits_shortest .up (Nat.pos_of_ne_zero (mt (beq_zero_iff_magnitude x).mpr hzero))
    ((isFinite_iff_magnitude x).mp hf)

theorem floatOf_magnitude (x : Float) :
    Binary.floatOf (Binary.signWeight ≤ x.toBits.toNat) (x.toBits.toNat % Binary.signWeight) = x := by
  have hx : x.toBits.toNat < 2 ^ 64 := x.toBits.toNat_lt
  rw [Binary.floatOf]
  simp only [decide_eq_true_eq]
  split
  · rename_i hs
    have hsum : Binary.signWeight + x.toBits.toNat % Binary.signWeight = x.toBits.toNat := by
      show 2 ^ 63 + x.toBits.toNat % 2 ^ 63 = x.toBits.toNat
      have hs' : 2 ^ 63 ≤ x.toBits.toNat := hs
      omega
    rw [hsum, UInt64.ofNat_toNat, ofBits_toBits]
  · rename_i hs
    rw [Nat.mod_eq_of_lt (Nat.lt_of_not_le hs), UInt64.ofNat_toNat, ofBits_toBits]

/-! The text as a numeral. -/

namespace Numeral

/-- Digits that are read to the end of a text spell it. -/
theorem mantissaText_of_readDigits {c : Char} {cs whole fraction : List Char} (hc : c.isDigit)
    (h : readDigits (c :: cs) = (whole, fraction, [])) : MantissaText whole fraction (c :: cs) := by
  have hsplit := @List.takeWhile_append_dropWhile Char Char.isDigit (c :: cs)
  have hdigits : AllDigits ((c :: cs).takeWhile Char.isDigit) := allDigits_takeWhile _
  have hne : (c :: cs).takeWhile Char.isDigit ≠ [] := by simp [hc]
  unfold readDigits at h
  split at h
  · rename_i rest hrest
    rw [hrest] at hsplit
    split at h
    · simp only [Prod.mk.injEq] at h
      obtain ⟨rfl, rfl, hdrop⟩ := h
      have hall : rest.takeWhile Char.isDigit = rest := by
        have := @List.takeWhile_append_dropWhile Char Char.isDigit rest
        rwa [hdrop, List.append_nil] at this
      have hpointed := MantissaText.pointed (by simp [hne]) hdigits (allDigits_takeWhile rest)
      rw [hall] at hpointed ⊢
      rwa [hsplit] at hpointed
    · simp at h
  · simp only [Prod.mk.injEq] at h
    obtain ⟨rfl, rfl, hdrop⟩ := h
    rw [hdrop, List.append_nil] at hsplit
    have hwhole := MantissaText.whole hne hdigits
    rwa [hsplit] at hwhole ⊢

end Numeral

theorem spells_positional (negative : Bool) (d : Decimal) :
    ∃ n : Numeral, n.Spells ((if negative then ['-'] else []) ++ d.positional) ∧
      n.toFloat = Binary.floatOf negative d.toBits := by
  obtain ⟨whole, fraction, hread, hbits⟩ := readDigits_positional d AtSeparator.nil
  obtain ⟨c, cs, hpositional, hc, -⟩ := d.positional_eq_cons
  rw [List.append_nil, hpositional] at hread
  refine ⟨⟨negative, whole, fraction, 0⟩, ⟨_, _, [], by rw [List.append_nil], ?_, ?_, .none⟩, ?_⟩
  · cases negative with
    | false => exact .none
    | true => exact .minus
  · exact hpositional ▸ Numeral.mantissaText_of_readDigits hc hread
  · exact congrArg (Binary.floatOf negative) hbits

/-- The text of a finite number spells that number. -/
theorem spells_numberText {x : Float} (hf : x.isFinite) :
    ∃ n : Numeral, n.Spells (numberText x) ∧ n.toFloat = printed x := by
  by_cases hzero : (x == 0) = true
  · refine ⟨⟨false, ['0'], [], 0⟩, ?_, ?_⟩
    · rw [numberText_eq, if_pos hzero]
      exact ⟨[], ['0'], [], rfl, .none, .whole (by simp) (by simp [Numeral.AllDigits]), .none⟩
    · rw [printed, if_pos hzero]
      decide +kernel
  · obtain ⟨n, hn, hx⟩ := spells_positional (Binary.signWeight ≤ x.toBits.toNat)
      (Decimal.shortest .up (x.toBits.toNat % Binary.signWeight))
    rw [toBits_shortest_of_isFinite hf hzero, floatOf_magnitude] at hx
    simp only [decide_eq_true_eq] at hn
    exact ⟨n, numberText_of_isFinite hf hzero ▸ hn, by rw [printed, if_neg hzero, hx]⟩

/-! No blank is dropped at the ends of the text. -/

theorem numberText_eq_signed_cons {x : Float} (hf : x.isFinite) :
    ∃ s c cs, numberText x = s ++ c :: cs ∧ (s = [] ∨ s = ['-']) ∧ c.isDigit ∧
      ∀ e ∈ cs, e.isDigit ∨ e = '.' := by
  by_cases hzero : (x == 0) = true
  · exact ⟨[], '0', [], by rw [numberText_eq, if_pos hzero]; rfl, .inl rfl, rfl, by simp⟩
  · obtain ⟨c, cs, hpositional, hc, hcs⟩ := Decimal.positional_eq_cons
      (Decimal.shortest .up (x.toBits.toNat % Binary.signWeight))
    refine ⟨_, c, cs, hpositional ▸ numberText_of_isFinite hf hzero, ?_, hc, hcs⟩
    split
    · exact .inr rfl
    · exact .inl rfl

theorem isBlank_of_isDigit {c : Char} (h : c.isDigit) : isBlank c = false := by
  have hc : 48 ≤ c.toNat ∧ c.toNat ≤ 57 := by
    simp only [Char.isDigit, Bool.and_eq_true, decide_eq_true_eq, ge_iff_le,
      UInt32.le_iff_toNat_le] at h
    exact h
  simp only [isBlank, Bool.or_eq_false_iff, Bool.and_eq_false_iff, decide_eq_false_iff_not,
    beq_eq_false_iff_ne]
  omega

theorem isBlank_of_isNumericBlank {c : Char} (h : isNumericBlank c) : isBlank c := by
  simp only [isNumericBlank, Bool.or_eq_true, beq_iff_eq] at h
  rcases h with ((rfl | rfl) | rfl) | rfl <;> rfl

theorem not_isBlank_of_mem {x : Float} (hf : x.isFinite) {c : Char} (hc : c ∈ numberText x) :
    isBlank c = false := by
  obtain ⟨s, d, ds, htext, hs, hd, hds⟩ := numberText_eq_signed_cons hf
  rw [htext] at hc
  rcases List.mem_append.mp hc with hc | hc
  · rcases hs with rfl | rfl
    · contradiction
    · rw [List.mem_singleton.mp hc]
      rfl
  · rcases List.mem_cons.mp hc with rfl | hc
    · exact isBlank_of_isDigit hd
    · rcases hds c hc with hdigit | rfl
      · exact isBlank_of_isDigit hdigit
      · rfl

theorem dropWhile_of_forall {p : Char → Bool} {cs : List Char} (h : ∀ c ∈ cs, p c = false) :
    cs.dropWhile p = cs := by
  cases cs with
  | nil => rfl
  | cons c cs => exact List.dropWhile_cons_of_neg (by simp [h c List.mem_cons_self])

theorem trim_of_not_isBlank {cs : List Char} (h : ∀ c ∈ cs, isBlank c = false) : trim cs = cs := by
  rw [trim, trimStart, dropWhile_of_forall h, trimEnd,
    dropWhile_of_forall fun c hc => h c (List.mem_reverse.mp hc), List.reverse_reverse]

theorem readNumberPrefix?_numberText {x : Float} (hf : x.isFinite) :
    readNumberPrefix? (numberText x) = some (printed x) := by
  obtain ⟨n, hn, hx⟩ := spells_numberText hf
  have hkept : (numberText x).dropWhile isNumericBlank = numberText x := by
    refine dropWhile_of_forall fun c hc => ?_
    have hblank := not_isBlank_of_mem hf hc
    exact Bool.eq_false_iff.mpr fun h => by simp [isBlank_of_isNumericBlank h] at hblank
  rw [readNumberPrefix?, hkept, hn.scan?_eq, Option.map_some, hx]

theorem infer_numberText {x : Float} (hf : x.isFinite) :
    Value.infer (String.ofList (numberText x)) = .number (printed x) := by
  obtain ⟨n, hn, hx⟩ := spells_numberText hf
  have hnull : String.ofList (numberText x) ≠ "null" := by
    intro h
    obtain ⟨s, c, cs, htext, hs, hc, -⟩ := numberText_eq_signed_cons hf
    have hlist : numberText x = ['n', 'u', 'l', 'l'] := String.ofList_injective h
    rw [htext] at hlist
    rcases hs with rfl | rfl
    · obtain ⟨rfl, -⟩ := List.cons.inj hlist
      contradiction
    · simp at hlist
  rw [Value.infer, if_neg hnull, String.toList_ofList,
    trim_of_not_isBlank fun c hc => not_isBlank_of_mem hf hc, hn.readNumber?, hx]

/-! The text as a formula. -/

section Read

variable {nested : RegionReader} {x : Float}

/-- A literal at the end of a region, with nothing reported. -/
theorem readRegion_numberText (hx : Unsigned x) (hf : x.isFinite) (before : List Token) (pos : Nat) :
    readRegion nested false before pos (numberText x) = pure (.number x :: before).reverse := by
  obtain ⟨c, cs, htext, hc, -⟩ := numberText_eq_cons hx hf
  have hgap : ¬isGap c = true := by simp [isGap_of_isNameChar (isNameChar_of_isDigit hc)]
  obtain ⟨stop, hread⟩ := readNumeral_numberText hx hf AtSeparator.nil (pos + 0)
  rw [List.append_nil, htext] at hread
  have hlexeme : readLexeme nested false (pos + 0) c cs = pure (.token (.number x) stop []) := by
    rw [readLexeme, isNameStart_of_isDigit hc, hc, ← hread]
    rfl
  rw [htext, readRegion_cons (List.dropWhile_cons_of_neg hgap), List.takeWhile_cons_of_neg hgap,
    List.length_nil, hlexeme, pure_bind]
  exact @readRegion_nil nested false [] rfl (.number x :: before) stop

/-- A minus before a literal. -/
theorem readRegion_minus_numberText (hx : Unsigned x) (hf : x.isFinite) (pos : Nat) :
    readRegion nested false [] pos ('-' :: numberText x) = pure [.operator .sub, .number x] := by
  have hgap : ('-' :: numberText x).dropWhile isGap = '-' :: numberText x := rfl
  rw [readRegion_cons hgap]
  exact readRegion_numberText hx hf [.operator .sub] (pos + 0 + 1)

theorem read_of_tokenize {limit : Nat} {source : String} {tokens : List Token}
    (h : tokenize limit source = pure tokens)
    (hrepair : repair source true tokens = pure ⟨tokens, true⟩) :
    Formula.read limit source = ⟨source, tokens, [], true, limit⟩ := by
  simp [Formula.read, h, hrepair]

/-- The text of a negative number is a minus before that of its negation. -/
theorem numberText_of_negative (hf : x.isFinite) (hzero : ¬(x == 0) = true)
    (hs : Binary.signWeight ≤ x.toBits.toNat) :
    ∃ y, Unsigned y ∧ y.isFinite ∧ -y = x ∧ numberText x = '-' :: numberText y := by
  have hmagnitude := (isFinite_iff_magnitude x).mp hf
  have hpositive := mt (beq_zero_iff_magnitude x).mpr hzero
  have hfloat := floatOf_magnitude x
  have htext := numberText_of_isFinite hf hzero
  rw [decide_eq_true hs] at hfloat
  rw [if_pos hs] at htext
  generalize x.toBits.toNat % Binary.signWeight = m at hmagnitude hpositive hfloat htext
  have hunsigned := unsigned_floatOf (Nat.le_of_lt hmagnitude)
  have hbits : (Binary.floatOf false m).toBits.toNat = m := toBits_ofBits (Nat.le_of_lt hmagnitude)
  have hfinite : (Binary.floatOf false m).isFinite :=
    (isFinite_iff hunsigned.lt_signWeight).mpr (hbits.symm ▸ hmagnitude)
  refine ⟨Binary.floatOf false m, hunsigned, hfinite,
    (neg_floatOf (Nat.le_of_lt hmagnitude)).trans hfloat, ?_⟩
  rw [numberText_finite hunsigned hfinite, hbits, if_neg hpositive]
  exact htext

/-- The formula of a finite number is a literal, or a minus and a literal. -/
theorem tokenize_numberText (limit : Nat) (hf : x.isFinite) :
    ∃ tokens, tokenize limit (String.ofList (numberText x)) = pure tokens ∧
      (tokens = [.number (printed x)] ∨
        ∃ y, tokens = [.operator .sub, .number y] ∧ -y = printed x) := by
  rw [tokenize, String.toList_ofList, readNested]
  by_cases hzero : (x == 0) = true
  · have htext : numberText x = numberText 0.0 := by
      rw [numberText_eq, if_pos hzero]
      decide +kernel
    have hunsigned : Unsigned 0.0 := by
      unfold Unsigned
      decide +kernel
    rw [htext, printed, if_pos hzero, readRegion_numberText hunsigned (by decide +kernel)]
    exact ⟨_, rfl, .inl rfl⟩
  · rw [printed, if_neg hzero]
    by_cases hs : Binary.signWeight ≤ x.toBits.toNat
    · obtain ⟨y, hunsigned, hfinite, hneg, htext⟩ := numberText_of_negative hf hzero hs
      rw [htext, readRegion_minus_numberText hunsigned hfinite]
      exact ⟨_, rfl, .inr ⟨y, rfl, hneg⟩⟩
    · have hunsigned : Unsigned x :=
        Nat.le_of_lt ((isFinite_iff (Nat.lt_of_not_le hs)).mp hf)
      rw [readRegion_numberText hunsigned hf]
      exact ⟨_, rfl, .inl rfl⟩

end Read

/-! The value of the formula. -/

theorem evaluateTokens_number (limit : Nat) (scope : Scope) (y : Float) :
    evaluateTokens limit scope [.number y] = pure (.number y, scope.store) := by
  rfl

theorem evaluateTokens_minus (levels : Nat) (scope : Scope) (y : Float) :
    evaluateTokens (levels + 1) scope [.operator .sub, .number y] =
      pure (.number (-y), scope.store) := by
  rfl

theorem evaluate_numberText {x : Float} (hf : x.isFinite) (scope : Scope) :
    (Formula.ofSource (String.ofList (numberText x))).diagnostics = [] ∧
      (Formula.ofSource (String.ofList (numberText x))).evaluate scope =
        (⟨.number (printed x), []⟩, scope.store) := by
  obtain ⟨tokens, htokens, rfl | ⟨y, rfl, hy⟩⟩ := tokenize_numberText defaultLimit hf
  · rw [Formula.ofSource, read_of_tokenize htokens rfl, Formula.evaluate, evaluateTokens_number]
    exact ⟨rfl, rfl⟩
  · rw [Formula.ofSource, read_of_tokenize htokens rfl, Formula.evaluate, defaultLimit,
      evaluateTokens_minus, hy]
    exact ⟨rfl, rfl⟩

/-! The value of a property. -/

/-- A table with its values replaced. -/
def Table.mapValues {α β : Type} (f : α → β) (t : Table α) : Table β where
  entries := t.entries.map fun e => ⟨e.name, f e.value⟩
  distinct := by
    rw [List.map_map]
    exact t.distinct

theorem Table.get?_mapValues {α β : Type} (f : α → β) (t : Table α) (name : String) :
    (t.mapValues f).get? name = (t.get? name).map f := by
  simp only [get?, mapValues, List.find?_map, Option.map_map]
  rfl

theorem Table.ofList_map_toList {α β : Type} (f : α → β) (t : Table α) :
    ofList (t.toList.map fun p => (p.1, f p.2)) = t.mapValues f := by
  rw [← ofList_toList (t.mapValues f), toList, toList, mapValues, List.map_map, List.map_map]
  rfl

theorem get_ofValues {t : Table Value} {name : String} {x : Float} (hf : x.isFinite)
    (h : t.get? name = some (.number x)) (default : Value) (scope : Scope) :
    (Properties.ofValues t).get name default scope = (.number (printed x), scope.store) := by
  have htext : (Properties.ofValues t).entries.get? name = some (String.ofList (numberText x)) := by
    show (Table.ofList (t.toList.map fun p => (p.1, p.2.toText))).get? name = _
    rw [Table.ofList_map_toList, Table.get?_mapValues, h]
    rfl
  have hblank : trim (numberText x) ≠ [] := by
    obtain ⟨s, c, cs, heq, -⟩ := numberText_eq_signed_cons hf
    rw [trim_of_not_isBlank fun c hc => not_isBlank_of_mem hf hc, heq]
    simp
  have hformula : (Properties.ofValues t).formula? name =
      some (.ofSource (String.ofList (numberText x))) := by
    simp [Properties.formula?, Properties.raw?, htext, hblank]
  rw [Properties.get, hformula]
  simp only [(evaluate_numberText hf scope).2]
  rfl

/-- All readers of a printed number agree. The text of a finite number is that number as a numeric prefix
and as a bare text, and as a formula it evaluates to it, with nothing reported and whatever variables and
functions there are. So does a property that was loaded as the number. -/
theorem printed_number_read (x : Float) (hf : x.isFinite) :
    ∃ y : Float, (y == x) = true ∧
      readNumberPrefix? (numberText x) = some y ∧
      Value.infer (String.ofList (numberText x)) = .number y ∧
      (Formula.ofSource (String.ofList (numberText x))).diagnostics = [] ∧
      (∀ scope, (Formula.ofSource (String.ofList (numberText x))).evaluate scope =
        (⟨.number y, []⟩, scope.store)) ∧
      ∀ (json : String) (t : Table Value) (name : String),
        Json.readTable json.toList = .ok t → t.get? name = some (.number x) →
        ∃ properties, Properties.ofJson json = .ok properties ∧
          ∀ default scope, properties.get name default scope = (.number y, scope.store) := by
  refine ⟨printed x, printed_beq hf, readNumberPrefix?_numberText hf, infer_numberText hf,
    (evaluate_numberText hf ⟨.empty, .empty⟩).1, fun scope => (evaluate_numberText hf scope).2,
    fun json t name hread hget => ⟨.ofValues t, ?_, get_ofValues hf hget⟩⟩
  rw [Properties.ofJson, hread]

/-- A negative fraction, in a document and on its own. -/
theorem printed_fraction_read :
    (-12.5 : Float).isFinite ∧
      (Json.readTable "\x7b\"a\":-12.5\x7d".toList).toOption.bind (·.get? "a") =
        some (.number (-12.5)) ∧
      ∃ y : Float, (y == -12.5) = true ∧
        Value.infer (String.ofList (numberText (-12.5))) = .number y ∧
        ∃ properties, Properties.ofJson "\x7b\"a\":-12.5\x7d" = .ok properties ∧
          properties.get "a" .null ⟨.empty, .empty⟩ = (.number y, .empty) := by
  have hfinite : (-12.5 : Float).isFinite := by decide +kernel
  have hentry : (Json.readTable "\x7b\"a\":-12.5\x7d".toList).toOption.bind (·.get? "a") =
      some (.number (-12.5)) := by decide +kernel
  obtain ⟨y, hy, -, hinfer, -, -, hloaded⟩ := printed_number_read (-12.5) hfinite
  refine ⟨hfinite, hentry, y, hy, hinfer, ?_⟩
  cases hread : Json.readTable "\x7b\"a\":-12.5\x7d".toList with
  | error e =>
    rw [hread] at hentry
    contradiction
  | ok t =>
    rw [hread] at hentry
    obtain ⟨properties, hproperties, hget⟩ := hloaded _ t "a" hread hentry
    exact ⟨properties, hproperties, hget .null ⟨.empty, .empty⟩⟩

end Reckon
