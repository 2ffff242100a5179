import DocViews.Proofs.Json.Integers
import DocViews.Proofs.Numeric.Shortest

/-!
Floats survive being written and read as floats, though not always as the same ones: the
decimal that is written names the number, but it is read with more than one rounding. The
text of a float has up to three parts, and all of them are taken for one numeral.
-/

namespace DocViews.Json

/-- The places after the point, with the point if there are any. -/
def fractionChars : List Char → List Char
  | [] => []
  | digits => '.' :: digits

def powerChars : Option Int → List Char
  | none => []
  | some power => 'e' :: (if power < 0 then '-' else '+') :: digitChars power.natAbs

/-- What is read from a written power. -/
def writtenPower : Option Int → Power
  | none => .none
  | some power => .of power

theorem fractionChars_of_ne_nil {digits : List Char} (h : digits ≠ []) :
    fractionChars digits = '.' :: digits := by
  cases digits with
  | nil => exact absurd rfl h
  | cons d digits => rfl

variable {rest : Bytes}

theorem powerOf_digits (negative : Bool) (cs : List Char) (start : Nat)
    (fits : Nat.ofDigitChars 10 cs start < 0x80000000) :
    powerOf negative start (cs.map digitOf) =
      .of (if negative then -(Nat.ofDigitChars 10 cs start : Int)
        else Nat.ofDigitChars 10 cs start) := by
  induction cs generalizing start with
  | nil => rfl
  | cons c cs ih =>
      have hvalue : Nat.ofDigitChars 10 (c :: cs) start =
          Nat.ofDigitChars 10 cs (start * 10 + digitOf c) := by
        rw [Nat.ofDigitChars_cons, Nat.mul_comm]
        rfl
      rw [hvalue] at fits ⊢
      have hstep : start * 10 + digitOf c < 0x80000000 := by
        rw [Nat.ofDigitChars_eq_ofDigitChars_zero] at fits
        have hle : start * 10 + digitOf c ≤ 10 ^ cs.length * (start * 10 + digitOf c) :=
          Nat.le_mul_of_pos_left _ (Nat.pow_pos (by decide))
        omega
      rw [List.map_cons, powerOf, if_pos hstep]
      exact ih _ fits

/-- The digits after the sign of a power. -/
theorem powerOf_digitChars (negative : Bool) {n : Nat} (fits : n < 0x80000000)
    (ends : EndsNumeral rest) :
    ∃ b bytes, Utf8.encode (digitChars n) ++ rest = b :: bytes ∧ isDigit b ∧
      powerOf negative (b.toNat - 0x30) (digitsOf bytes).1 =
        .of (if negative then -(n : Int) else n) ∧ (digitsOf bytes).2 = rest := by
  obtain ⟨c, cs, hcs, -⟩ := digitChars_leading n
  have hdigits : ∀ d ∈ c :: cs, d.isDigit := fun d hd =>
    isDigit_of_mem_digitChars (n := n) (hcs ▸ hd)
  have hfirst := hdigits c List.mem_cons_self
  have hrest := digitsOf_encode (fun d hd => hdigits d (List.mem_cons_of_mem _ hd)) ends.digits
  have hvalue : Nat.ofDigitChars 10 cs (digitOf c) = n := by
    have hall : Nat.ofDigitChars 10 (digitChars n) 0 = n := Nat.ofDigitChars_ten_toDigits
    rw [hcs, Nat.ofDigitChars_cons, Nat.mul_zero, Nat.zero_add] at hall
    exact hall
  refine ⟨UInt8.ofNat c.toNat, Utf8.encode cs ++ rest, ?_, isDigit_ofNat hfirst, ?_, ?_⟩
  · rw [hcs, encode_digit hfirst, List.cons_append]
  · have hdigit : (UInt8.ofNat c.toNat).toNat - 0x30 = digitOf c := by
      rw [toNat_digit hfirst]
      rfl
    rw [hrest, hdigit, powerOf_digits _ _ _ (by omega), hvalue]
  · rw [hrest]

theorem power_powerChars {power : Option Int} (fits : ∀ p ∈ power, p.natAbs < 0x80000000)
    (ends : EndsNumeral rest) :
    Json.power (Utf8.encode (powerChars power) ++ rest) = .ok (writtenPower power, rest) := by
  cases power with
  | none => exact power_of_ends ends
  | some p =>
      have hfits := fits p rfl
      by_cases hnegative : p < 0
      · obtain ⟨b, bytes, hbytes, hb, hpower, hrest⟩ := powerOf_digitChars true hfits ends
        have htext : Utf8.encode (powerChars (some p)) ++ rest = 0x65 :: 0x2d :: b :: bytes := by
          rw [← hbytes]
          simp only [powerChars, if_pos hnegative]
          rfl
        have hopen : Json.power (0x65 :: 0x2d :: b :: bytes) =
            if isDigit b then
              .ok (powerOf true (b.toNat - 0x30) (digitsOf bytes).1, (digitsOf bytes).2)
            else failHere .invalidNumber bytes := rfl
        have hvalue : -(p.natAbs : Int) = p := by omega
        rw [htext, hopen, if_pos hb, hpower, hrest, if_pos rfl, hvalue]
        rfl
      · obtain ⟨b, bytes, hbytes, hb, hpower, hrest⟩ := powerOf_digitChars false hfits ends
        have htext : Utf8.encode (powerChars (some p)) ++ rest = 0x65 :: 0x2b :: b :: bytes := by
          rw [← hbytes]
          simp only [powerChars, if_neg hnegative]
          rfl
        have hopen : Json.power (0x65 :: 0x2b :: b :: bytes) =
            if isDigit b then
              .ok (powerOf false (b.toNat - 0x30) (digitsOf bytes).1, (digitsOf bytes).2)
            else failHere .invalidNumber bytes := rfl
        have hvalue : (p.natAbs : Int) = p := by omega
        rw [htext, hopen, if_pos hb, hpower, hrest, if_neg (by simp), hvalue]
        rfl

/-- Neither digits nor a point can be continued by a power. -/
theorem powerChars_head (power : Option Int) (ends : EndsNumeral rest) :
    EndsDigits (Utf8.encode (powerChars power) ++ rest) ∧
      ∀ bytes, Utf8.encode (powerChars power) ++ rest ≠ 0x2e :: bytes := by
  cases power with
  | none =>
      refine ⟨ends.digits, fun bytes h => ?_⟩
      have hrest : rest = 0x2e :: bytes := h
      rw [hrest] at ends
      exact absurd rfl (ends 0x2e rfl).2.1
  | some p =>
      constructor
      · intro b hb
        cases hb
        rfl
      · intro bytes h
        cases (List.cons.inj h).1

theorem fraction_fractionChars {digits : List Char} {more : Bytes}
    (isDigit : ∀ d ∈ digits, d.isDigit) (ends : EndsDigits more)
    (pointless : ∀ bytes, more ≠ 0x2e :: bytes) :
    fraction (Utf8.encode (fractionChars digits) ++ more) = .ok (digits.map digitOf, more) := by
  cases digits with
  | nil =>
      show fraction more = _
      unfold fraction
      split
      · next bytes => exact absurd rfl (pointless bytes)
      · rfl
  | cons d digits =>
      have hdigits := digitsOf_encode isDigit ends
      have htext : Utf8.encode (fractionChars (d :: digits)) ++ more =
          0x2e :: (Utf8.encode (d :: digits) ++ more) := rfl
      rw [htext, fraction, hdigits]
      rfl

/-- The three parts of a numeral, without sign. -/
theorem unsignedNumeral_parts (negative : Bool) {c : Char} {cs fraction : List Char}
    {power : Option Int} (wholeDigits : ∀ d ∈ c :: cs, d.isDigit) (leading : c = '0' → cs = [])
    (fractionDigits : ∀ d ∈ fraction, d.isDigit) (fits : ∀ p ∈ power, p.natAbs < 0x80000000)
    (ends : EndsNumeral rest) :
    unsignedNumeral negative
        (Utf8.encode (c :: cs ++ fractionChars fraction ++ powerChars power) ++ rest) =
      .ok (⟨negative, (c :: cs).map digitOf, fraction.map digitOf, writtenPower power⟩, rest) := by
  obtain ⟨noDigit, noPoint⟩ := powerChars_head power ends
  have hfraction := fraction_fractionChars fractionDigits noDigit noPoint
  have noDigit' : EndsDigits (Utf8.encode (fractionChars fraction) ++
      (Utf8.encode (powerChars power) ++ rest)) := by
    cases fraction with
    | nil => exact noDigit
    | cons d digits =>
        intro b hb
        cases hb
        rfl
  have hwhole := whole_digits wholeDigits leading noDigit'
  simp only [Utf8.encode_append, List.append_assoc] at hwhole ⊢
  unfold unsignedNumeral
  simp only [hwhole, bind, Except.bind, hfraction, power_powerChars fits ends]
  rfl

/-- The digits of a numeral are gathered to their value, if it fits. -/
theorem decimal_digits (negative : Bool) (whole fraction : List Char) (power : Power)
    (fits : Nat.ofDigitChars 10 (whole ++ fraction) 0 < 0x10000000000000000) :
    (Numeral.mk negative (whole.map digitOf) (fraction.map digitOf) power).decimal =
      (Nat.ofDigitChars 10 (whole ++ fraction) 0, -(fraction.length : Int)) := by
  rw [Nat.ofDigitChars_append] at fits ⊢
  have hwhole : Nat.ofDigitChars 10 whole 0 < 0x10000000000000000 := by
    rw [Nat.ofDigitChars_eq_ofDigitChars_zero] at fits
    have hle : Nat.ofDigitChars 10 whole 0 ≤
        10 ^ fraction.length * Nat.ofDigitChars 10 whole 0 :=
      Nat.le_mul_of_pos_left _ (Nat.pow_pos (by decide))
    omega
  unfold Numeral.decimal
  simp only [gather_digits _ _ hwhole, gather_digits _ _ fits, List.length_map, List.length_nil]
  simp

/-- A numeral with a fraction or a power is a float, if it is finite. -/
theorem number?_parts (negative : Bool) {whole fraction : List Char} {power : Option Int}
    {z : Double} (float : fraction ≠ [] ∨ power ≠ none)
    (fits : Nat.ofDigitChars 10 (whole ++ fraction) 0 < 0x10000000000000000)
    (read : scaled (Nat.ofDigitChars 10 (whole ++ fraction) 0)
      (-(fraction.length : Int) + power.getD 0) = .finite z) :
    (Numeral.mk negative (whole.map digitOf) (fraction.map digitOf)
      (writtenPower power)).number? = some (.float (if negative then z.neg else z)) := by
  have hdecimal := decimal_digits negative whole fraction (writtenPower power) fits
  have hinteger : (Numeral.mk negative (whole.map digitOf) (fraction.map digitOf)
      (writtenPower power)).isInteger = false := by
    unfold Numeral.isInteger
    rcases float with hfraction | hpower
    · cases fraction with
      | nil => exact absurd rfl hfraction
      | cons d digits => rfl
    · cases power with
      | none => exact absurd rfl hpower
      | some p =>
          have hsome : (Power.of p == Power.none) = false := rfl
          simp [writtenPower, hsome]
  have hfloat : (Numeral.mk negative (whole.map digitOf) (fraction.map digitOf)
      (writtenPower power)).float? = some (if negative then z.neg else z) := by
    unfold Numeral.float?
    simp only [hdecimal]
    cases power with
    | none =>
        simp only [Option.getD_none, Int.add_zero] at read
        simp only [writtenPower, read]
    | some p =>
        simp only [Option.getD_some] at read
        simp only [writtenPower, read]
  unfold Numeral.number?
  simp only [hinteger, Bool.false_eq_true, if_false, hfloat, Option.map_some]

/-- Text that begins with a digit and is read as a float, with the sign that is before it. -/
structure FloatText (unsigned : List Char) (z : Double) : Prop where
  head : ∃ c cs, unsigned = c :: cs ∧ c.isDigit
  reads : ∀ negative, ∃ n, n.number? = some (.float (if negative then z.neg else z)) ∧
    ∀ rest, EndsNumeral rest →
      unsignedNumeral negative (Utf8.encode unsigned ++ rest) = .ok (n, rest)

theorem floatText_parts {c : Char} {cs fraction : List Char} {power : Option Int} {z : Double}
    (wholeDigits : ∀ d ∈ c :: cs, d.isDigit) (leading : c = '0' → cs = [])
    (fractionDigits : ∀ d ∈ fraction, d.isDigit) (float : fraction ≠ [] ∨ power ≠ none)
    (small : ∀ p ∈ power, p.natAbs < 0x80000000)
    (fits : Nat.ofDigitChars 10 (c :: cs ++ fraction) 0 < 0x10000000000000000)
    (read : scaled (Nat.ofDigitChars 10 (c :: cs ++ fraction) 0)
      (-(fraction.length : Int) + power.getD 0) = .finite z) :
    FloatText (c :: cs ++ fractionChars fraction ++ powerChars power) z := by
  constructor
  · exact ⟨c, _, rfl, wholeDigits c List.mem_cons_self⟩
  · intro negative
    refine ⟨_, number?_parts negative float fits read, fun rest ends => ?_⟩
    exact unsignedNumeral_parts negative wholeDigits leading fractionDigits small ends

section Layouts

variable {d : Decimal} {z : Double}

theorem ofDigitChars_zeros (n start : Nat) :
    Nat.ofDigitChars 10 (List.replicate n '0') start = start * 10 ^ n := by
  induction n generalizing start with
  | zero => simp [Nat.ofDigitChars]
  | succ n ih =>
      have hzero : 10 * start + ('0'.toNat - '0'.toNat) = start * 10 := by omega
      rw [List.replicate_succ, Nat.ofDigitChars_cons, hzero, ih, Nat.pow_succ]
      ring

theorem ofDigitChars_digitChars (n : Nat) : Nat.ofDigitChars 10 (digitChars n) 0 = n :=
  Nat.ofDigitChars_ten_toDigits

theorem isDigit_zeros {n : Nat} {c : Char} (h : c ∈ List.replicate n '0') : c.isDigit := by
  rw [List.eq_of_mem_replicate h]
  rfl

/-- All digits before the point, and a zero after it. -/
theorem floatText_whole (nonzero : d.digits = 0 → d.exponent = 0) (natural : 0 ≤ d.exponent)
    (fits : d.digits * 10 ^ d.exponent.toNat * 10 < 0x10000000000000000)
    (read : scaled (d.digits * 10 ^ d.exponent.toNat * 10) (-1) = .finite z) :
    FloatText (d.positional .oneZero) z := by
  obtain ⟨c, cs, hcs, leading⟩ := digitChars_leading d.digits
  have hvalue : Nat.ofDigitChars 10
      (c :: (cs ++ List.replicate d.exponent.toNat '0') ++ ['0']) 0 =
      d.digits * 10 ^ d.exponent.toNat * 10 := by
    have hone : ['0'] = List.replicate 1 '0' := rfl
    rw [Nat.ofDigitChars_append, ← List.cons_append, Nat.ofDigitChars_append, ← hcs,
      ofDigitChars_digitChars, ofDigitChars_zeros, hone, ofDigitChars_zeros, Nat.pow_one]
  have htext : d.positional .oneZero =
      c :: (cs ++ List.replicate d.exponent.toNat '0') ++ fractionChars ['0'] ++
        powerChars none := by
    unfold Decimal.positional
    simp only [if_pos natural, hcs, Decimal.Fraction.chars, fractionChars, powerChars]
    simp
  rw [htext]
  apply floatText_parts
  · intro digit hdigit
    rw [← List.cons_append, List.mem_append] at hdigit
    rcases hdigit with h | h
    · exact isDigit_of_mem_digitChars (n := d.digits) (hcs ▸ h)
    · exact isDigit_zeros h
  · rintro rfl
    have hnil := leading rfl
    -- A zero in front is the only digit, and then nothing follows it.
    have hzero : d.digits = 0 := by
      have hdigits := ofDigitChars_digitChars d.digits
      rw [hcs, hnil] at hdigits
      exact hdigits.symm
    rw [hnil, nonzero hzero]
    rfl
  · intro digit hdigit
    rw [List.mem_singleton.mp hdigit]
    rfl
  · exact .inl (by simp)
  · nofun
  · rw [hvalue]
    exact fits
  · rw [hvalue]
    exact read

/-- The places after the point stand for a negative power of ten. -/
theorem exponent_of_places (fractional : d.exponent < 0) :
    -((-d.exponent).toNat : Int) + (none : Option Int).getD 0 = d.exponent := by
  simp only [Option.getD_none]
  omega

/-- Digits on both sides of the point. -/
theorem floatText_between (short : (-d.exponent).toNat < (digitChars d.digits).length)
    (fractional : d.exponent < 0) (fits : d.digits < 0x10000000000000000)
    (read : scaled d.digits d.exponent = .finite z) : FloatText (d.positional .oneZero) z := by
  have hdigits : ∀ c ∈ digitChars d.digits, c.isDigit := fun c => isDigit_of_mem_digitChars
  obtain ⟨c, cs, hcs, leading⟩ := digitChars_leading d.digits
  obtain ⟨before, hbefore⟩ :
      ∃ before, (digitChars d.digits).length - (-d.exponent).toNat = before + 1 :=
    Nat.exists_eq_succ_of_ne_zero (Nat.ne_of_gt (Nat.sub_pos_of_lt short))
  have hwhole : (digitChars d.digits).take (before + 1) = c :: cs.take before := by
    rw [hcs, List.take_succ_cons]
  have hall : c :: cs.take before ++ (digitChars d.digits).drop (before + 1) =
      digitChars d.digits := by
    rw [← hwhole, List.take_append_drop]
  have hlength : ((digitChars d.digits).drop (before + 1)).length = (-d.exponent).toNat := by
    rw [List.length_drop]
    omega
  have hfraction : (digitChars d.digits).drop (before + 1) ≠ [] := by
    intro hnil
    rw [hnil] at hlength
    simp only [List.length_nil] at hlength
    omega
  have htext : d.positional .oneZero =
      c :: cs.take before ++ fractionChars ((digitChars d.digits).drop (before + 1)) ++
        powerChars none := by
    unfold Decimal.positional
    simp only [if_neg (Int.not_le.mpr fractional), if_pos short, hbefore, hwhole,
      fractionChars_of_ne_nil hfraction, powerChars, List.append_nil]
  rw [htext]
  apply floatText_parts
  · exact fun digit h => hdigits digit (List.mem_of_mem_take (hwhole ▸ h))
  · intro hzero
    rw [leading hzero, List.take_nil]
  · exact fun digit h => hdigits digit (List.mem_of_mem_drop h)
  · exact .inl hfraction
  · nofun
  · rw [hall, ofDigitChars_digitChars]
    exact fits
  · rw [hall, ofDigitChars_digitChars, hlength, exponent_of_places fractional]
    exact read

/-- All digits after a zero and the point, and further zeros. -/
theorem floatText_behind (long : (digitChars d.digits).length ≤ (-d.exponent).toNat)
    (fractional : d.exponent < 0) (fits : d.digits < 0x10000000000000000)
    (read : scaled d.digits d.exponent = .finite z) : FloatText (d.positional .oneZero) z := by
  obtain ⟨c, cs, hcs, -⟩ := digitChars_leading d.digits
  obtain ⟨zeros, hzeros⟩ : ∃ zeros, (-d.exponent).toNat - (digitChars d.digits).length = zeros :=
    ⟨_, rfl⟩
  have hlength : (List.replicate zeros '0' ++ digitChars d.digits).length =
      (-d.exponent).toNat := by
    rw [List.length_append, List.length_replicate]
    omega
  have hvalue : Nat.ofDigitChars 10 ('0' :: [] ++ (List.replicate zeros '0' ++
      digitChars d.digits)) 0 = d.digits := by
    have hone : ['0'] = List.replicate 1 '0' := rfl
    rw [hone, Nat.ofDigitChars_append, ofDigitChars_zeros, Nat.ofDigitChars_append,
      ofDigitChars_zeros, Nat.zero_mul, Nat.zero_mul, ofDigitChars_digitChars]
  have hfraction : List.replicate zeros '0' ++ digitChars d.digits ≠ [] := by
    intro hnil
    rw [List.append_eq_nil_iff, hcs] at hnil
    cases hnil.2
  have htext : d.positional .oneZero =
      '0' :: [] ++ fractionChars (List.replicate zeros '0' ++ digitChars d.digits) ++
        powerChars none := by
    unfold Decimal.positional
    simp only [if_neg (Int.not_le.mpr fractional), if_neg (Nat.not_lt.mpr long), hzeros,
      fractionChars_of_ne_nil hfraction, powerChars, List.append_nil]
    rfl
  rw [htext]
  apply floatText_parts
  · intro digit h
    rw [List.mem_singleton.mp h]
    rfl
  · exact fun _ => rfl
  · intro digit h
    rcases List.mem_append.mp h with h | h
    · exact isDigit_zeros h
    · exact isDigit_of_mem_digitChars h
  · exact .inl hfraction
  · nofun
  · rw [hvalue]
    exact fits
  · rw [hvalue, hlength, exponent_of_places fractional]
    exact read

/-- One digit before the point, and a power. -/
theorem floatText_scientific (fits : d.digits < 0x10000000000000000)
    (small : d.leading.natAbs < 0x80000000)
    (read : scaled d.digits d.exponent = .finite z) : FloatText d.scientific z := by
  have hdigits : ∀ c ∈ digitChars d.digits, c.isDigit := fun c => isDigit_of_mem_digitChars
  obtain ⟨c, cs, hcs, -⟩ := digitChars_leading d.digits
  have hvalue : Nat.ofDigitChars 10 (c :: [] ++ cs) 0 = d.digits := by
    rw [List.singleton_append, ← hcs, ofDigitChars_digitChars]
  have hexponent : -(cs.length : Int) + (some d.leading).getD 0 = d.exponent := by
    unfold Decimal.leading
    rw [hcs]
    simp only [Option.getD_some, List.length_cons]
    omega
  have htext : d.scientific = c :: [] ++ fractionChars cs ++ powerChars (some d.leading) := by
    unfold Decimal.scientific
    rw [hcs]
    cases cs <;> rfl
  rw [htext]
  apply floatText_parts
  · intro digit h
    rw [List.mem_singleton.mp h]
    exact hdigits c (hcs ▸ List.mem_cons_self)
  · exact fun _ => rfl
  · exact fun digit h => hdigits digit (hcs ▸ List.mem_cons_of_mem _ h)
  · exact .inr (by simp)
  · intro p hp
    cases hp
    exact small
  · rw [hvalue]
    exact fits
  · rw [hvalue, hexponent]
    exact read

end Layouts

section Shown

variable (x : Double)

theorem shortest_fits : (x.shortest .even).digits < 0x10000000000000000 :=
  Nat.lt_of_le_of_lt (Double.shortest_digits_le .even x) (by decide)

theorem shortest_leading_small : (x.shortest .even).leading.natAbs < 0x80000000 := by
  obtain ⟨hleast, hmost⟩ := Double.shortest_exponent_bounds .even x
  have hdigits : (x.shortest .even).digits < 10 ^ 18 :=
    Nat.lt_of_le_of_lt (Double.shortest_digits_le .even x) (by decide)
  have hlength : (digitChars (x.shortest .even).digits).length ≤ 18 :=
    (Nat.length_toDigits_le_iff (by decide) (by decide)).mpr hdigits
  unfold Decimal.leading
  omega

/-- What is written out ends sixteen places before the point at most. -/
theorem shortest_whole_fits (natural : 0 ≤ (x.shortest .even).exponent)
    (few : (x.shortest .even).leading ≤ 15) :
    (x.shortest .even).digits * 10 ^ (x.shortest .even).exponent.toNat * 10 <
      0x10000000000000000 := by
  generalize x.shortest .even = d at *
  have hlt : d.digits < 10 ^ (digitChars d.digits).length := lt_pow_digitCount d.digits
  have hsum : (digitChars d.digits).length + d.exponent.toNat + 1 ≤ 17 := by
    unfold Decimal.leading at few
    omega
  calc d.digits * 10 ^ d.exponent.toNat * 10
      ≤ 10 ^ (digitChars d.digits).length * 10 ^ d.exponent.toNat * 10 :=
        Nat.mul_le_mul_right _ (Nat.mul_le_mul_right _ (Nat.le_of_lt hlt))
    _ = 10 ^ ((digitChars d.digits).length + d.exponent.toNat + 1) := by
        rw [Nat.pow_succ, Nat.pow_add]
    _ ≤ 10 ^ 17 := Nat.pow_le_pow_right (by decide) hsum
    _ < 0x10000000000000000 := by decide

/-- Whether the places of a float are all written out. -/
def Positional (x : Double) : Prop :=
  x.isZero ∨ (-5 ≤ (x.shortest .even).leading ∧ (x.shortest .even).leading ≤ 15)

instance : Decidable (Positional x) := inferInstanceAs (Decidable (_ ∨ _))

/-- The decimal that the text of a float spells out, which has a zero after the point of a whole
number. -/
def spelled (x : Double) : Decimal :=
  let d := x.shortest .even
  if Positional x ∧ 0 ≤ d.exponent then ⟨d.digits * 10 ^ d.exponent.toNat * 10, -1⟩ else d

/-- What the text of a float is read as. -/
def reread (x : Double) : Double :=
  match scaled (spelled x).digits (spelled x).exponent with
  | .finite z => if x.negative then z.neg else z
  | _ => x

theorem shortest_few (shown : Positional x) : (x.shortest .even).leading ≤ 15 := by
  rcases shown with hzero | ⟨-, few⟩
  · have hshortest : x.shortest .even = ⟨0, 0⟩ := if_pos hzero
    rw [hshortest]
    decide
  · exact few

theorem scaled_spelled : ∃ z, scaled (spelled x).digits (spelled x).exponent = .finite z := by
  unfold spelled
  dsimp only
  split
  · next whole =>
      exact scaled_negative (shortest_whole_fits x whole.2 (shortest_few x whole.1))
        (Int.negSucc_lt_zero 0)
  · exact scaled_shortest x

theorem floatText_positional {z : Double} (shown : Positional x)
    (read : scaled (spelled x).digits (spelled x).exponent = .finite z) :
    FloatText ((x.shortest .even).positional .oneZero) z := by
  unfold spelled at read
  dsimp only at read
  rcases Int.lt_or_le (x.shortest .even).exponent 0 with fractional | natural
  · rw [if_neg fun whole => Int.not_lt.mpr whole.2 fractional] at read
    rcases Nat.lt_or_ge (-(x.shortest .even).exponent).toNat
        (digitChars (x.shortest .even).digits).length with short | long
    · exact floatText_between short fractional (shortest_fits x) read
    · exact floatText_behind long fractional (shortest_fits x) read
  · rw [if_pos ⟨shown, natural⟩] at read
    refine floatText_whole ?_ natural (shortest_whole_fits x natural (shortest_few x shown)) read
    intro hzero
    rw [Double.shortest_of_digits_eq_zero hzero]

/-- The text of a float, after its sign. -/
theorem floatChars_sign {z : Double}
    (read : scaled (spelled x).digits (spelled x).exponent = .finite z) :
    ∃ unsigned, FloatText unsigned z ∧
      floatChars x = if x.negative then '-' :: unsigned else unsigned := by
  refine ⟨_, ?_, rfl⟩
  split
  · next shown => exact floatText_positional x shown read
  · next shown =>
      unfold spelled at read
      rw [if_neg fun whole => shown whole.1] at read
      exact floatText_scientific (shortest_fits x) (shortest_leading_small x) read

/-- A written float begins with a minus sign or a digit. -/
theorem encode_floatChars :
    ∃ b bytes, Utf8.encode (floatChars x) = b :: bytes ∧ (b = 0x2d ∨ isDigit b) := by
  obtain ⟨z, read⟩ := scaled_spelled x
  obtain ⟨unsigned, text, hchars⟩ := floatChars_sign x read
  rw [hchars]
  cases x.negative with
  | true => exact ⟨0x2d, _, rfl, .inl rfl⟩
  | false =>
      obtain ⟨c, cs, rfl, hc⟩ := text.head
      exact ⟨_, _, encode_digit hc cs, .inr (isDigit_ofNat hc)⟩

/-- A float is read as a float from its text, as the same one whatever follows. -/
theorem number_floatChars {rest : Bytes} (ends : EndsNumeral rest) :
    number (Utf8.encode (floatChars x) ++ rest) = .ok (.float (reread x), rest) := by
  obtain ⟨z, read⟩ := scaled_spelled x
  obtain ⟨unsigned, text, hchars⟩ := floatChars_sign x read
  obtain ⟨n, hnumber, reads⟩ := text.reads x.negative
  have hread := reads rest ends
  have hreread : reread x = if x.negative then z.neg else z := by
    rw [reread, read]
  have hnumeral : numeral (Utf8.encode (floatChars x) ++ rest) = .ok (n, rest) := by
    rw [hchars]
    cases hnegative : x.negative with
    | true =>
        rw [hnegative] at hread
        exact hread
    | false =>
        rw [hnegative] at hread
        obtain ⟨c, cs, rfl, hc⟩ := text.head
        simp only [Bool.false_eq_true, if_false]
        rw [encode_digit hc, List.cons_append] at hread ⊢
        unfold numeral
        split
        · next heq =>
            have hminus : isDigit 0x2d := (List.cons.inj heq).1 ▸ isDigit_ofNat hc
            cases hminus
        · exact hread
  unfold number
  rw [hnumeral, hreread]
  simp only [bind, Except.bind, hnumber]
  rfl

end Shown

end DocViews.Json
