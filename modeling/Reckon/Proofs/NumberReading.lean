import Reckon.Proofs.WholeNumbers
import Reckon.Source.Tokens

/-!
Numbers are read back as they were written.

The text of a number is digits, maybe with a point among them, and what it reads as is the number
itself. This is of the numbers that formulas can hold without an operator: finite ones without a sign.
-/

namespace Reckon

/-- A token ends here: with the text, at a blank or at a comma. -/
def AtSeparator (cs : List Char) : Prop := ∀ c rest, cs = c :: rest → c = ' ' ∨ c = ','

theorem AtSeparator.nil : AtSeparator [] := by simp [AtSeparator]

theorem AtSeparator.not_of {p : Char → Bool} {cs : List Char} (h : AtSeparator cs)
    (hb : p ' ' = false) (hc : p ',' = false) : ∀ c rest, cs = c :: rest → p c = false := by
  intro c rest hcs
  rcases h c rest hcs with rfl | rfl
  · exact hb
  · exact hc

theorem takeWhile_append_of_ends {p : Char → Bool} {cs rest : List Char} (hcs : ∀ c ∈ cs, p c)
    (hrest : ∀ c more, rest = c :: more → p c = false) :
    (cs ++ rest).takeWhile p = cs ∧ (cs ++ rest).dropWhile p = rest := by
  rw [List.takeWhile_append_of_pos hcs, List.dropWhile_append_of_pos hcs]
  cases rest with
  | nil => simp
  | cons c more => simp [hrest c more rfl]

namespace Decimal

theorem isDigit_of_mem_digits {n : Nat} {c : Char} (h : c ∈ digits n) : c.isDigit :=
  Nat.isDigit_of_mem_toDigits (by decide) (by decide) h

theorem isDigit_of_mem_zeros {k : Nat} {c : Char} (h : c ∈ List.replicate k '0') : c.isDigit := by
  obtain ⟨-, rfl⟩ := List.mem_replicate.mp h
  rfl

theorem ofDigits_digits (n : Nat) : ofDigits (digits n) = n := Nat.ofDigitChars_ten_toDigits

theorem ofDigits_append_zeros (ds : List Char) (k : Nat) :
    ofDigits (ds ++ List.replicate k '0') = ofDigits ds * 10 ^ k := by
  show Nat.ofDigitChars 10 _ 0 = Nat.ofDigitChars 10 ds 0 * 10 ^ k
  rw [Nat.ofDigitChars_append, Nat.ofDigitChars_replicate_zero, Nat.mul_comm]

theorem ofDigits_zeros_append (ds : List Char) (k : Nat) :
    ofDigits (List.replicate k '0' ++ ds) = ofDigits ds := by
  show Nat.ofDigitChars 10 _ 0 = Nat.ofDigitChars 10 ds 0
  rw [Nat.ofDigitChars_append, Nat.ofDigitChars_replicate_zero, Nat.mul_zero]

end Decimal

theorem readDigits_whole {ds rest : List Char} (hds : ∀ c ∈ ds, c.isDigit)
    (hrest : AtSeparator rest) : readDigits (ds ++ rest) = (ds, [], rest) := by
  obtain ⟨ht, hd⟩ := takeWhile_append_of_ends hds (hrest.not_of rfl rfl)
  unfold readDigits
  simp only [ht, hd]
  split
  · rename_i more
    rcases hrest '.' more rfl with h | h <;> simp at h
  · rfl

theorem readDigits_fraction {whole fraction rest : List Char} (hw : ∀ c ∈ whole, c.isDigit)
    (hf : ∀ c ∈ fraction, c.isDigit) (hne : fraction ≠ []) (hrest : AtSeparator rest) :
    readDigits (whole ++ '.' :: fraction ++ rest) = (whole, fraction, rest) := by
  obtain ⟨ht, hd⟩ := takeWhile_append_of_ends hf (hrest.not_of rfl rfl)
  have hpoint : Char.isDigit '.' = false := rfl
  have hstart : startsWithDigit (fraction ++ rest) = true := by
    cases fraction with
    | nil => exact absurd rfl hne
    | cons c more => exact hf c (by simp)
  unfold readDigits
  simp only [List.append_assoc, List.cons_append, List.takeWhile_append_of_pos hw,
    List.dropWhile_append_of_pos hw, List.takeWhile_cons, List.dropWhile_cons, hpoint]
  simp [ht, hd, hstart]

/-- The digits of a decimal are read as parts of a numeral for the same double. -/
theorem readDigits_positional (d : Decimal) {rest : List Char} (hrest : AtSeparator rest) :
    ∃ whole fraction, readDigits (d.positional ++ rest) = (whole, fraction, rest) ∧
      (Numeral.decimal ⟨false, whole, fraction, 0⟩).toBits = d.toBits := by
  obtain ⟨n, e⟩ := d
  have hds : ∀ c ∈ Decimal.digits n, c.isDigit := fun _ => Decimal.isDigit_of_mem_digits
  have hne : Decimal.digits n ≠ [] := Nat.toDigits_ne_nil
  unfold Decimal.positional
  simp only
  split
  · rename_i he
    have hall : ∀ c ∈ Decimal.digits n ++ List.replicate e.toNat '0', c.isDigit := by
      intro c hc
      exact (List.mem_append.mp hc).elim (hds c) Decimal.isDigit_of_mem_zeros
    refine ⟨_, [], readDigits_whole hall hrest, ?_⟩
    have hexp : (0 : Int) + e.toNat = e := by omega
    simp only [Numeral.decimal, List.append_nil, Decimal.ofDigits_append_zeros,
      Decimal.ofDigits_digits, List.length_nil, Int.ofNat_zero, Int.sub_zero]
    rw [Decimal.toBits_mul_pow, hexp]
  · rename_i he
    generalize hplaces : (-e).toNat = places
    have hexp : (0 : Int) - places = e := by omega
    split
    · rename_i hlt
      have htake : ∀ c ∈ (Decimal.digits n).take ((Decimal.digits n).length - places), c.isDigit :=
        fun c hc => hds c (List.mem_of_mem_take hc)
      have hdrop : ∀ c ∈ (Decimal.digits n).drop ((Decimal.digits n).length - places), c.isDigit :=
        fun c hc => hds c (List.mem_of_mem_drop hc)
      have hlen : ((Decimal.digits n).drop ((Decimal.digits n).length - places)).length = places := by
        rw [List.length_drop]
        omega
      refine ⟨_, _, readDigits_fraction htake hdrop ?_ hrest, ?_⟩
      · intro h
        rw [h, List.length_nil] at hlen
        omega
      · simp only [Numeral.decimal, List.take_append_drop, Decimal.ofDigits_digits, hlen, hexp]
    · rename_i hge
      have hfraction : ∀ c ∈ List.replicate (places - (Decimal.digits n).length) '0' ++
          Decimal.digits n, c.isDigit := by
        intro c hc
        exact (List.mem_append.mp hc).elim Decimal.isDigit_of_mem_zeros (hds c)
      have hlen : (List.replicate (places - (Decimal.digits n).length) '0' ++
          Decimal.digits n).length = places := by
        rw [List.length_append, List.length_replicate]
        omega
      have hwhole : ∀ c ∈ ['0'], c.isDigit := by simp
      refine ⟨['0'], List.replicate (places - (Decimal.digits n).length) '0' ++ Decimal.digits n,
        readDigits_fraction hwhole hfraction (by simp [hne]) hrest, ?_⟩
      simp only [Numeral.decimal, hlen, hexp]
      rw [← List.replicate_one, ← List.append_assoc, ← List.replicate_add,
        Decimal.ofDigits_zeros_append, Decimal.ofDigits_digits]

theorem Decimal.positional_eq_cons (d : Decimal) :
    ∃ c cs, d.positional = c :: cs ∧ c.isDigit ∧ ∀ e ∈ cs, e.isDigit ∨ e = '.' := by
  have hds : ∀ c ∈ digits d.coefficient, c.isDigit := fun _ => isDigit_of_mem_digits
  unfold positional
  cases h : digits d.coefficient with
  | nil => exact absurd h Nat.toDigits_ne_nil
  | cons c ds =>
    rw [h] at hds
    have hc : c.isDigit := hds c List.mem_cons_self
    have hmem (e : Char) (he : e ∈ ds) : e.isDigit := hds e (List.mem_cons_of_mem _ he)
    simp only
    split
    · refine ⟨c, ds ++ List.replicate d.exponent.toNat '0', rfl, hc, ?_⟩
      intro e he
      exact .inl ((List.mem_append.mp he).elim (hmem e) isDigit_of_mem_zeros)
    · split
      · rename_i hlt
        obtain ⟨k, hk⟩ := Nat.exists_eq_succ_of_ne_zero (Nat.sub_ne_zero_of_lt hlt)
        rw [hk, List.take_succ_cons, List.drop_succ_cons]
        refine ⟨c, _, List.cons_append, hc, ?_⟩
        intro e he
        rcases List.mem_append.mp he with he | he
        · exact .inl (hmem e (List.mem_of_mem_take he))
        · rcases List.mem_cons.mp he with rfl | he
          · exact .inr rfl
          · exact .inl (hmem e (List.mem_of_mem_drop he))
      · refine ⟨'0', _, rfl, rfl, ?_⟩
        intro e he
        rcases List.mem_cons.mp he with rfl | he
        · exact .inr rfl
        · exact .inl ((List.mem_append.mp he).elim isDigit_of_mem_zeros (hds e))

/-- A double without a sign that is a number, infinity included. -/
def Unsigned (x : Float) : Prop := x.toBits.toNat ≤ Binary.infinityBits

theorem infinityBits_lt_signWeight : Binary.infinityBits < Binary.signWeight := by decide +kernel

theorem Unsigned.lt_signWeight {x : Float} (h : Unsigned x) :
    x.toBits.toNat < Binary.signWeight :=
  Nat.lt_of_le_of_lt h infinityBits_lt_signWeight

theorem unsigned_floatOf {m : Nat} (h : m ≤ Binary.infinityBits) :
    Unsigned (Binary.floatOf false m) := by
  unfold Unsigned
  rw [Binary.floatOf, if_neg Bool.false_ne_true, toBits_ofBits h]
  exact h

theorem floatOf_toBits (x : Float) : Binary.floatOf false x.toBits.toNat = x := by
  rw [Binary.floatOf, if_neg Bool.false_ne_true, UInt64.ofNat_toNat, ofBits_toBits]

theorem numberText_infinite {x : Float} (hx : Unsigned x) (hf : ¬x.isFinite) :
    numberText x = ['i', 'n', 'f'] := by
  have hbits : x.toBits.toNat = Binary.infinityBits := by
    have := mt (isFinite_iff hx.lt_signWeight).mpr hf
    unfold Unsigned at hx
    omega
  rw [← floatOf_toBits x, hbits]
  decide +kernel

theorem numberText_finite {x : Float} (hx : Unsigned x) (hf : x.isFinite) :
    numberText x = if x.toBits.toNat = 0 then ['0']
      else (Decimal.shortest .up x.toBits.toNat).positional := by
  by_cases hzero : x.toBits.toNat = 0
  · rw [numberText_eq, if_pos ((beq_zero_iff hx.lt_signWeight).mpr hzero), if_pos hzero]
  · have hne : ¬(x == 0) = true := mt (beq_zero_iff hx.lt_signWeight).mp hzero
    rw [numberText_of_isFinite hf hne, if_neg (Nat.not_le_of_lt hx.lt_signWeight), if_neg hzero,
      Nat.mod_eq_of_lt hx.lt_signWeight]
    rfl

theorem numberText_eq_cons {x : Float} (hx : Unsigned x) (hf : x.isFinite) :
    ∃ c cs, numberText x = c :: cs ∧ c.isDigit ∧ ∀ e ∈ cs, e.isDigit ∨ e = '.' := by
  rw [numberText_finite hx hf]
  split
  · exact ⟨'0', [], rfl, rfl, by simp⟩
  · exact Decimal.positional_eq_cons _

/-- The text of a finite number is read as the number. -/
theorem readNumeral_numberText {x : Float} (hx : Unsigned x) (hf : x.isFinite) {rest : List Char}
    (hrest : AtSeparator rest) (pos : Nat) :
    ∃ stop, readNumeral pos (numberText x ++ rest) = .token (.number x) stop rest := by
  obtain ⟨whole, fraction, hread, hbits⟩ : ∃ whole fraction,
      readDigits (numberText x ++ rest) = (whole, fraction, rest) ∧
        (Numeral.decimal ⟨false, whole, fraction, 0⟩).toBits = x.toBits.toNat := by
    rw [numberText_finite hx hf]
    split
    · rename_i hzero
      refine ⟨['0'], [], readDigits_whole (by simp) hrest, ?_⟩
      rw [hzero]
      rfl
    · rename_i hzero
      obtain ⟨whole, fraction, hread, hbits⟩ :=
        readDigits_positional (Decimal.shortest .up x.toBits.toNat) hrest
      refine ⟨whole, fraction, hread, hbits.trans ?_⟩
      exact Decimal.toBits_shortest .up (Nat.pos_of_ne_zero hzero)
        ((isFinite_iff hx.lt_signWeight).mp hf)
  have hx' : Numeral.toFloat ⟨false, whole, fraction, 0⟩ = x := by
    rw [Numeral.toFloat, Decimal.toFloat, hbits, floatOf_toBits]
  simp only [readNumeral, hread, hx', Lexeme.token.injEq, true_and, and_true, exists_eq']

end Reckon
