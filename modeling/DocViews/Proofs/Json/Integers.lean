import DocViews.Json.Numeral
import DocViews.Json.Writer
import DocViews.Proofs.Text.Utf8

/-!
Integers survive being written and read, if what follows cannot be taken for a part of the
numeral.
-/

namespace DocViews.Json

/-- Whether a numeral surely ends before these bytes. -/
def EndsNumeral (rest : Bytes) : Prop :=
  ∀ b ∈ rest.head?, isDigit b = false ∧ b ≠ 0x2e ∧ b ≠ 0x65 ∧ b ≠ 0x45

theorem endsNumeral_nil : EndsNumeral [] := by
  intro b h
  cases h

/-- Whether digits surely end before these bytes. -/
def EndsDigits (rest : Bytes) : Prop := ∀ b ∈ rest.head?, isDigit b = false

theorem EndsNumeral.digits {rest : Bytes} (ends : EndsNumeral rest) : EndsDigits rest :=
  fun b hb => (ends b hb).1

theorem digit_bounds {c : Char} (h : c.isDigit) : 48 ≤ c.toNat ∧ c.toNat ≤ 57 := by
  simp only [Char.isDigit, Bool.and_eq_true, decide_eq_true_eq, UInt32.le_iff_toNat_le] at h
  exact h

/-- A digit fits one byte. -/
theorem toNat_digit {c : Char} (h : c.isDigit) : (UInt8.ofNat c.toNat).toNat = c.toNat := by
  obtain ⟨_, hhigh⟩ := digit_bounds h
  exact Utf8.toNat_ofNat (by omega)

theorem isDigit_ofNat {c : Char} (h : c.isDigit) : isDigit (UInt8.ofNat c.toNat) := by
  have hbounds := digit_bounds h
  simp only [isDigit, Bool.and_eq_true, decide_eq_true_eq, UInt8.le_iff_toNat_le,
    toNat_digit h, UInt8.reduceToNat]
  exact hbounds

theorem encode_digit {c : Char} (h : c.isDigit) (cs : List Char) :
    Utf8.encode (c :: cs) = UInt8.ofNat c.toNat :: Utf8.encode cs := by
  obtain ⟨_, hhigh⟩ := digit_bounds h
  have hascii : c.toNat < 0x80 := by omega
  rw [Utf8.encode_cons, Utf8.utf8EncodeChar_ascii hascii]
  rfl

/-- The value of a digit. -/
def digitOf (c : Char) : Nat := c.toNat - '0'.toNat

theorem digitsOf_encode {cs : List Char} {rest : Bytes} (digits : ∀ c ∈ cs, c.isDigit)
    (ends : EndsDigits rest) :
    digitsOf (Utf8.encode cs ++ rest) = (cs.map digitOf, rest) := by
  induction cs with
  | nil =>
      cases rest with
      | nil => rfl
      | cons b rest =>
          have hdigit := ends b rfl
          simp [digitsOf, hdigit]
  | cons c cs ih =>
      have hc := digits c List.mem_cons_self
      have hrest := ih fun d hd => digits d (List.mem_cons_of_mem _ hd)
      simp only [digitsOf, Prod.mk.injEq] at hrest
      rw [encode_digit hc, List.cons_append]
      simp only [digitsOf, List.takeWhile_cons, List.dropWhile_cons, isDigit_ofNat hc, if_true,
        List.map_cons, hrest.1, hrest.2, toNat_digit hc]
      rfl

/-- Digits are gathered to their value, if it fits. -/
theorem gather_digits (cs : List Char) (start : Nat)
    (fits : Nat.ofDigitChars 10 cs start < 0x10000000000000000) :
    gather start (cs.map digitOf) = (Nat.ofDigitChars 10 cs start, []) := by
  induction cs generalizing start with
  | nil => rfl
  | cons c cs ih =>
      have hvalue : Nat.ofDigitChars 10 (c :: cs) start =
          Nat.ofDigitChars 10 cs (start * 10 + digitOf c) := by
        rw [Nat.ofDigitChars_cons, Nat.mul_comm]
        rfl
      rw [hvalue] at fits ⊢
      have hstep : start * 10 + digitOf c < 0x10000000000000000 := by
        rw [Nat.ofDigitChars_eq_ofDigitChars_zero] at fits
        have hle : start * 10 + digitOf c ≤ 10 ^ cs.length * (start * 10 + digitOf c) :=
          Nat.le_mul_of_pos_left _ (Nat.pow_pos (by decide))
        omega
      rw [List.map_cons, gather, if_pos hstep]
      exact ih _ fits

theorem isDigit_of_mem_digitChars {n : Nat} {c : Char} (h : c ∈ digitChars n) : c.isDigit :=
  Nat.isDigit_of_mem_toDigits (by decide) (by decide) h

/-- No number but zero begins with the digit zero. -/
theorem digitChars_head {n : Nat} (h : 0 < n) :
    ∃ c cs, digitChars n = c :: cs ∧ c ≠ '0' := by
  induction n using Nat.strongRecOn with
  | ind n ih =>
      unfold digitChars at ih ⊢
      by_cases hlt : n < 10
      · refine ⟨n.digitChar, [], Nat.toDigits_of_lt_base hlt, ?_⟩
        have hdigit : ∀ m < 10, 0 < m → Nat.digitChar m ≠ '0' := by decide
        exact hdigit n hlt h
      · obtain ⟨c, cs, hcs, hc⟩ := ih (n / 10) (by omega) (by omega)
        rw [Nat.toDigits_of_base_le (by decide) (by omega), hcs]
        exact ⟨c, _, rfl, hc⟩

/-- Digits are read back as the whole part of a numeral, if no zero comes before others. -/
theorem whole_digits {c : Char} {cs : List Char} {rest : Bytes}
    (digits : ∀ d ∈ c :: cs, d.isDigit) (leading : c = '0' → cs = []) (ends : EndsDigits rest) :
    whole (Utf8.encode (c :: cs) ++ rest) = .ok ((c :: cs).map digitOf, rest) := by
  have hfirst := digits c List.mem_cons_self
  have hrest := digitsOf_encode (fun d hd => digits d (List.mem_cons_of_mem _ hd)) ends
  by_cases hzero : c = '0'
  · obtain rfl := hzero
    obtain rfl := leading rfl
    have htext : Utf8.encode ['0'] ++ rest = 0x30 :: (Utf8.encode [] ++ rest) := rfl
    rw [htext, whole, if_pos rfl, hrest]
    rfl
  · have hbounds := digit_bounds hfirst
    have hbyte : (UInt8.ofNat c.toNat).toNat = c.toNat := Utf8.toNat_ofNat (by omega)
    have hne : UInt8.ofNat c.toNat ≠ 0x30 := by
      intro h
      have hcode : c.toNat = 48 := by
        rw [← hbyte, h]
        rfl
      exact hzero (Char.toNat_inj.mp hcode)
    rw [encode_digit hfirst, List.cons_append, whole, if_neg hne, if_pos (isDigit_ofNat hfirst),
      hrest, hbyte]
    rfl

/-- No number has a zero before other digits. -/
theorem digitChars_leading (n : Nat) :
    ∃ c cs, digitChars n = c :: cs ∧ (c = '0' → cs = []) := by
  rcases Nat.eq_zero_or_pos n with rfl | hpos
  · exact ⟨'0', [], rfl, fun _ => rfl⟩
  · obtain ⟨c, cs, hcs, hc⟩ := digitChars_head hpos
    exact ⟨c, cs, hcs, fun h => absurd h hc⟩

/-- The digits of a number are read back as the whole part of a numeral. -/
theorem whole_digitChars (n : Nat) {rest : Bytes} (ends : EndsNumeral rest) :
    whole (Utf8.encode (digitChars n) ++ rest) = .ok ((digitChars n).map digitOf, rest) := by
  obtain ⟨c, cs, hcs, leading⟩ := digitChars_leading n
  rw [hcs]
  apply whole_digits _ leading ends.digits
  exact fun d hd => isDigit_of_mem_digitChars (n := n) (hcs ▸ hd)

theorem fraction_of_ends {rest : Bytes} (ends : EndsNumeral rest) :
    fraction rest = .ok ([], rest) := by
  unfold fraction
  split
  · exact absurd rfl (ends _ rfl).2.1
  · rfl

theorem power_of_ends {rest : Bytes} (ends : EndsNumeral rest) :
    power rest = .ok (.none, rest) := by
  unfold power
  split
  · exact absurd rfl (ends _ rfl).2.2.1
  · exact absurd rfl (ends _ rfl).2.2.2
  · rfl

theorem unsignedNumeral_digitChars (negative : Bool) (n : Nat) {rest : Bytes}
    (ends : EndsNumeral rest) :
    unsignedNumeral negative (Utf8.encode (digitChars n) ++ rest) =
      .ok (⟨negative, (digitChars n).map digitOf, [], .none⟩, rest) := by
  unfold unsignedNumeral
  rw [whole_digitChars n ends]
  simp only [bind, Except.bind, fraction_of_ends ends, power_of_ends ends]
  rfl

theorem gather_digitChars {n : Nat} (h : n < 0x10000000000000000) :
    gather 0 ((digitChars n).map digitOf) = (n, []) := by
  have hvalue : Nat.ofDigitChars 10 (digitChars n) 0 = n := Nat.ofDigitChars_ten_toDigits
  rw [gather_digits _ _ (hvalue.symm ▸ h), hvalue]

/-- The first byte of a number without sign. -/
theorem encode_digitChars (n : Nat) :
    ∃ b bytes, Utf8.encode (digitChars n) = b :: bytes ∧ isDigit b := by
  cases hchars : digitChars n with
  | nil => exact absurd hchars Nat.toDigits_ne_nil
  | cons c cs =>
      have hc : c.isDigit := isDigit_of_mem_digitChars (hchars ▸ List.mem_cons_self)
      exact ⟨_, _, encode_digit hc cs, isDigit_ofNat hc⟩

/-- The parts of a written integer. -/
def writtenNumeral : Int → Numeral
  | .ofNat n => ⟨false, (digitChars n).map digitOf, [], .none⟩
  | .negSucc n => ⟨true, (digitChars (n + 1)).map digitOf, [], .none⟩

theorem numeral_integerChars (n : Int) {rest : Bytes} (ends : EndsNumeral rest) :
    numeral (Utf8.encode (integerChars n) ++ rest) = .ok (writtenNumeral n, rest) := by
  cases n with
  | ofNat n =>
      obtain ⟨b, bytes, hbytes, hb⟩ := encode_digitChars n
      have hunsigned := unsignedNumeral_digitChars false n ends
      simp only [integerChars]
      rw [hbytes, List.cons_append] at hunsigned ⊢
      have hminus : b ≠ 0x2d := by
        rintro rfl
        cases hb
      unfold numeral
      split
      · next heq => exact absurd (List.cons.inj heq).1 hminus
      · exact hunsigned
  | negSucc n =>
      have hminus : Utf8.encode (integerChars (.negSucc n)) ++ rest =
          0x2d :: (Utf8.encode (digitChars (n + 1)) ++ rest) := rfl
      rw [hminus]
      exact unsignedNumeral_digitChars true (n + 1) ends

theorem ofInt?_value (n : Integer) : Number.ofInt? n.value = some (.integer n) := by
  unfold Number.ofInt?
  rw [dif_pos ⟨n.least, n.greatest⟩]

theorem number?_writtenNumeral (n : Integer) :
    (writtenNumeral n.value).number? = some (.integer n) := by
  have hnumber := ofInt?_value n
  have hleast := n.least
  have hgreatest := n.greatest
  cases hvalue : n.value with
  | ofNat m =>
      rw [hvalue] at hnumber hgreatest
      have hgather : gather 0 ((digitChars m).map digitOf) = (m, []) :=
        gather_digitChars (Int.ofNat_lt.mp hgreatest)
      have hinteger : (writtenNumeral (.ofNat m)).isInteger := by
        simp [writtenNumeral, Numeral.isInteger, hgather]
      unfold Numeral.number?
      rw [if_pos hinteger]
      simp only [writtenNumeral, hgather]
      rw [Int.ofNat_eq_natCast] at hnumber
      simp only [hnumber, Bool.false_eq_true, if_false, Option.some_or]
  | negSucc m =>
      rw [hvalue] at hnumber hleast
      have hfits : m + 1 < 0x10000000000000000 := by omega
      have hgather : gather 0 ((digitChars (m + 1)).map digitOf) = (m + 1, []) :=
        gather_digitChars hfits
      have hinteger : (writtenNumeral (.negSucc m)).isInteger := by
        simp [writtenNumeral, Numeral.isInteger, hgather]
      unfold Numeral.number?
      rw [if_pos hinteger]
      simp only [writtenNumeral, hgather, if_true]
      have hneg : -((m + 1 : Nat) : Int) = .negSucc m := rfl
      rw [if_neg (Nat.succ_ne_zero m), hneg, hnumber, Option.some_or]

/-- An integer is read back from its text. -/
theorem number_integerChars (n : Integer) {rest : Bytes} (ends : EndsNumeral rest) :
    number (Utf8.encode (integerChars n.value) ++ rest) = .ok (.integer n, rest) := by
  unfold number
  rw [numeral_integerChars n.value ends]
  simp only [bind, Except.bind, number?_writtenNumeral]
  rfl

/-- A written integer begins with a minus sign or a digit. -/
theorem encode_integerChars (n : Int) :
    ∃ b bytes, Utf8.encode (integerChars n) = b :: bytes ∧ (b = 0x2d ∨ isDigit b) := by
  cases n with
  | ofNat n =>
      obtain ⟨b, bytes, hbytes, hb⟩ := encode_digitChars n
      exact ⟨b, bytes, hbytes, .inr hb⟩
  | negSucc n => exact ⟨0x2d, _, rfl, .inl rfl⟩

end DocViews.Json
