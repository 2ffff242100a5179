import DocViews.Config
import DocViews.Proofs.Json.Integers
import Mathlib.Data.List.DropRight
import Mathlib.Data.Nat.Digits.Lemmas

/-!
The environment value from which a bucket's timeout is read. What counts as a number of
milliseconds is said by a grammar: white space, a plus sign or none, decimal digits and white
space again. A number is turned down for what it comes to and not for how many digits it has.
Everything else, and no value at all, gives the timeout that a bucket has anyway.
-/

namespace DocViews

namespace Text

/-- The characters that Unicode calls white space, by their codes. -/
def whiteSpace : List Nat := [
  0x9, 0xa, 0xb, 0xc, 0xd, 0x20, 0x85, 0xa0, 0x1680, 0x2000, 0x2001, 0x2002, 0x2003, 0x2004, 0x2005,
  0x2006, 0x2007, 0x2008, 0x2009, 0x200a, 0x2028, 0x2029, 0x202f, 0x205f, 0x3000]

theorem isBlank_iff {c : Char} : isBlank c ↔ c.toNat ∈ whiteSpace := by
  simp only [isBlank, blankRanges, whiteSpace, List.any_cons, List.any_nil, Bool.or_eq_true,
    Bool.and_eq_true, decide_eq_true_eq, Bool.false_eq_true, or_false, List.mem_cons,
    List.not_mem_nil]
  omega

variable {before core after cs : List Char}

/-- Trimming takes off the blanks around what has none. -/
theorem trimBlanks_of_blank (first : ∀ c ∈ before, isBlank c) (last : ∀ c ∈ after, isBlank c)
    (solid : ∀ c ∈ core, isBlank c = false) (nonempty : core ≠ []) :
    trimBlanks (before ++ core ++ after) = core := by
  have keeps : ∀ {l : List Char} (rest : List Char), l ≠ [] → (∀ c ∈ l, isBlank c = false) →
      (l ++ rest).dropWhile isBlank = l ++ rest := by
    intro l rest some solid
    obtain ⟨c, l, rfl⟩ := List.exists_cons_of_ne_nil some
    rw [List.cons_append, List.dropWhile_cons, solid c List.mem_cons_self]
    rfl
  have backwards : ∀ c ∈ core.reverse, isBlank c = false :=
    fun c hc => solid c (List.mem_reverse.mp hc)
  have trailing : ∀ c ∈ after.reverse, isBlank c := fun c hc => last c (List.mem_reverse.mp hc)
  have back := keeps [] (List.reverse_ne_nil_iff.mpr nonempty) backwards
  rw [List.append_nil] at back
  unfold trimBlanks
  rw [List.append_assoc, List.dropWhile_append_of_pos first, keeps after nonempty solid,
    List.reverse_append, List.dropWhile_append_of_pos trailing, back, List.reverse_reverse]

/-- What is taken off are blanks. -/
theorem exists_trimBlanks (cs : List Char) : ∃ before after,
    before ++ trimBlanks cs ++ after = cs ∧ ∀ c ∈ before ++ after, isBlank c := by
  refine ⟨cs.takeWhile isBlank, ((cs.dropWhile isBlank).reverse.takeWhile isBlank).reverse, ?_, ?_⟩
  · unfold trimBlanks
    rw [List.append_assoc, ← List.reverse_append, List.takeWhile_append_dropWhile,
      List.reverse_reverse, List.takeWhile_append_dropWhile]
  · intro c hc
    rcases List.mem_append.mp hc with hc | hc
    · exact List.mem_takeWhile_imp hc
    · exact List.mem_takeWhile_imp (List.mem_reverse.mp hc)

end Text

namespace Config

open Text (whiteSpace)

/-- Whether a text is a number in decimal digits, the first one counting most, with at most a
plus sign in front. -/
def Numeral (cs : List Char) (n : Nat) : Prop :=
  ∃ (sign : List Char) (digits : List Nat), cs = sign ++ digits.map Nat.digitChar ∧
    (sign = [] ∨ sign = ['+']) ∧ digits ≠ [] ∧ (∀ d ∈ digits, d < 10) ∧
    Nat.ofDigits 10 digits.reverse = n

/-- Whether a value is the bytes of such a number, of 64 bits, with white space around it. -/
def Spells (value : Bytes) (n : Nat) : Prop :=
  ∃ before core after : List Char, Utf8.encode (before ++ core ++ after) = value ∧
    (∀ c ∈ before ++ after, c.toNat ∈ whiteSpace) ∧ Numeral core n ∧ n < 2 ^ 64

/-- Whether the environment says how many milliseconds. -/
def Reads (value : Option Bytes) (n : Nat) : Prop := ∃ bytes, value = some bytes ∧ Spells bytes n

section Digits

variable {cs : List Char} {digits : List Nat} {n : Nat}

/-- The value of digits, one more of them at the end each time. -/
theorem digitsValue_digitChar (decimal : ∀ d ∈ digits, d < 10) :
    digitsValue (digits.map Nat.digitChar) = Nat.ofDigits 10 digits.reverse := by
  induction digits using List.reverseRecOn with
  | nil => rfl
  | append_singleton digits d ih =>
      have hlast : d < 10 := decimal d (by simp)
      have hfirst := ih fun e he => decimal e (List.mem_append_left _ he)
      have hdigit : d.digitChar.toNat - '0'.toNat = d := by
        rw [Nat.toNat_digitChar_of_lt_ten hlast]
        exact Nat.add_sub_cancel_left 48 d
      have hstep : digitsValue ((digits ++ [d]).map Nat.digitChar) =
          digitsValue (digits.map Nat.digitChar) * 10 + (d.digitChar.toNat - '0'.toNat) := by
        simp [digitsValue]
      rw [hstep, hfirst, hdigit, List.reverse_append, List.reverse_singleton,
        List.singleton_append, Nat.ofDigits_cons]
      omega

theorem digitChar_sub {c : Char} (h : c.isDigit) : Nat.digitChar (c.toNat - 48) = c := by
  obtain ⟨least, most⟩ := Json.digit_bounds h
  apply Char.toNat_inj.mp
  rw [Nat.toNat_digitChar_of_lt_ten (by omega)]
  omega

theorem exists_digits (h : ∀ c ∈ cs, c.isDigit) :
    ∃ digits : List Nat, digits.map Nat.digitChar = cs ∧ ∀ d ∈ digits, d < 10 := by
  refine ⟨cs.map (·.toNat - 48), ?_, ?_⟩
  · rw [List.map_map]
    exact (List.map_congr_left fun c hc => digitChar_sub (h c hc)).trans (List.map_id cs)
  · intro d hd
    obtain ⟨c, hc, rfl⟩ := List.mem_map.mp hd
    obtain ⟨least, most⟩ := Json.digit_bounds (h c hc)
    omega

/-- Digits alone, of a number of 64 bits. -/
def digits? (cs : List Char) : Option Nat :=
  if cs ≠ [] ∧ cs.all Char.isDigit then
    if digitsValue cs < 0x10000000000000000 then some (digitsValue cs) else none
  else none

/-- Which digits there are is told by their values. -/
theorem digits?_eq_some_iff : digits? cs = some n ↔
    ∃ digits : List Nat, cs = digits.map Nat.digitChar ∧ digits ≠ [] ∧ (∀ d ∈ digits, d < 10) ∧
      Nat.ofDigits 10 digits.reverse = n ∧ n < 2 ^ 64 := by
  rw [digits?, Option.ite_none_right_eq_some, Option.ite_none_right_eq_some, Option.some_inj]
  constructor
  · rintro ⟨⟨nonempty, decimal⟩, fits, rfl⟩
    obtain ⟨digits, rfl, each⟩ := exists_digits (List.all_eq_true.mp decimal)
    rw [digitsValue_digitChar each] at fits ⊢
    refine ⟨digits, rfl, ?_, each, rfl, fits⟩
    rintro rfl
    exact nonempty rfl
  · rintro ⟨digits, rfl, nonempty, each, rfl, fits⟩
    have decimal : (digits.map Nat.digitChar).all Char.isDigit := by
      simp only [List.all_map, List.all_eq_true, Function.comp_apply, Nat.isDigit_digitChar,
        decide_eq_true_eq]
      exact each
    rw [digitsValue_digitChar each]
    exact ⟨⟨mt List.map_eq_nil_iff.mp nonempty, decimal⟩, fits, rfl⟩

theorem head_digitChars (decimal : ∀ d ∈ digits, d < 10) :
    (digits.map Nat.digitChar).head? ≠ some '+' := by
  intro plus
  obtain ⟨d, hd, hchar⟩ := List.mem_map.mp (List.mem_of_mem_head? plus)
  have digit : d.digitChar.isDigit := by
    rw [Nat.isDigit_digitChar]
    exact decide_eq_true (decimal d hd)
  rw [hchar] at digit
  cases digit

theorem natural?_plus (cs : List Char) : natural? ('+' :: cs) = digits? cs := rfl

theorem natural?_plain (plain : cs.head? ≠ some '+') : natural? cs = digits? cs := by
  unfold natural?
  dsimp only
  split
  · exact absurd rfl plain
  · rfl

/-- A number is read from a numeral of 64 bits, and from nothing else. -/
theorem natural?_eq_some_iff : natural? cs = some n ↔ Numeral cs n ∧ n < 2 ^ 64 := by
  constructor
  · intro h
    by_cases plain : cs.head? = some '+'
    · obtain ⟨rest, rfl⟩ := List.head?_eq_some_iff.mp plain
      obtain ⟨digits, rfl, nonempty, decimal, value, fits⟩ :=
        digits?_eq_some_iff.mp ((natural?_plus rest).symm.trans h)
      exact ⟨⟨['+'], digits, rfl, .inr rfl, nonempty, decimal, value⟩, fits⟩
    · rw [natural?_plain plain] at h
      obtain ⟨digits, rfl, nonempty, decimal, value, fits⟩ := digits?_eq_some_iff.mp h
      exact ⟨⟨[], digits, rfl, .inl rfl, nonempty, decimal, value⟩, fits⟩
  · rintro ⟨⟨sign, digits, rfl, signed, nonempty, decimal, value⟩, fits⟩
    have read := digits?_eq_some_iff.mpr ⟨digits, rfl, nonempty, decimal, value, fits⟩
    rcases signed with rfl | rfl
    · exact (natural?_plain (head_digitChars decimal)).trans read
    · exact (natural?_plus _).trans read

theorem Numeral.solid (h : Numeral cs n) : cs ≠ [] ∧ ∀ c ∈ cs, Text.isBlank c = false := by
  obtain ⟨sign, digits, rfl, signed, nonempty, decimal, -⟩ := h
  refine ⟨?_, fun c hc => ?_⟩
  · intro empty
    exact nonempty (List.map_eq_nil_iff.mp (List.append_eq_nil_iff.mp empty).2)
  · rcases List.mem_append.mp hc with hc | hc
    · rcases signed with rfl | rfl
      · cases hc
      · rw [List.mem_singleton.mp hc]
        decide
    · obtain ⟨d, hd, rfl⟩ := List.mem_map.mp hc
      have each : ∀ d < 10, Text.isBlank d.digitChar = false := by decide
      exact each d (decimal d hd)

end Digits

section Value

variable {bytes : Bytes} {value : Option Bytes} {n : Nat}

/-- Milliseconds are read from a value that spells them, and from no other. -/
theorem milliseconds?_eq_some_iff : milliseconds? bytes = some n ↔ Spells bytes n := by
  unfold milliseconds?
  rw [Option.bind_eq_bind, Option.bind_eq_some_iff]
  constructor
  · rintro ⟨cs, decoded, read⟩
    obtain ⟨before, after, hcs, blank⟩ := Text.exists_trimBlanks cs
    obtain ⟨numeral, fits⟩ := natural?_eq_some_iff.mp read
    refine ⟨before, Text.trimBlanks cs, after, ?_, ?_, numeral, fits⟩
    · rw [hcs]
      exact Utf8.decode?_eq_some_iff.mp decoded
    · exact fun c hc => Text.isBlank_iff.mp (blank c hc)
  · rintro ⟨before, core, after, encoded, blank, numeral, fits⟩
    obtain ⟨nonempty, solid⟩ := numeral.solid
    refine ⟨_, Utf8.decode?_eq_some_iff.mpr encoded, natural?_eq_some_iff.mpr ⟨?_, fits⟩⟩
    rw [Text.trimBlanks_of_blank ?_ ?_ solid nonempty]
    · exact numeral
    · exact fun c hc => Text.isBlank_iff.mpr (blank c (List.mem_append_left _ hc))
    · exact fun c hc => Text.isBlank_iff.mpr (blank c (List.mem_append_right _ hc))

theorem bind_milliseconds?_iff : value.bind milliseconds? = some n ↔ Reads value n := by
  rw [Option.bind_eq_some_iff]
  simp only [milliseconds?_eq_some_iff, Reads]

theorem ofEnvironment_of_reads (reads : Reads value n) :
    ofEnvironment value = ⟨.ofMilliseconds n⟩ := by
  rw [ofEnvironment, bind_milliseconds?_iff.mpr reads]

theorem ofEnvironment_of_not_reads (unread : ∀ n, ¬ Reads value n) :
    ofEnvironment value = ⟨.ofSeconds 75⟩ := by
  have none : value.bind milliseconds? = none :=
    Option.eq_none_iff_forall_ne_some.mpr fun n read => unread n (bind_milliseconds?_iff.mp read)
  rw [ofEnvironment, none]

end Value

/-- The timeout is read from the environment by its grammar. A value that spells a number of
milliseconds gives a timeout of exactly as many; every other value gives 75 seconds, as does none.
So the timeout is a number of milliseconds if the value spells that number, and otherwise only if
it is the number that 75 seconds have, and the value spells none. -/
theorem ofEnvironment_spelled (value : Option Bytes) :
    (∀ n, Reads value n → (ofEnvironment value).viewTimeout.nanoseconds = n * 1000000) ∧
    ((∀ n, ¬ Reads value n) → ofEnvironment value = {} ∧
      (ofEnvironment value).viewTimeout = .ofSeconds 75) ∧
    ∀ n, (ofEnvironment value).viewTimeout = .ofMilliseconds n ↔
      Reads value n ∨ n = 75000 ∧ ∀ m, ¬ Reads value m := by
  have default : Duration.ofSeconds 75 = .ofMilliseconds 75000 := rfl
  have injective : ∀ {n m : Nat}, Duration.ofMilliseconds m = .ofMilliseconds n → m = n := by
    intro n m same
    exact Nat.eq_of_mul_eq_mul_right (by decide) (congrArg Duration.nanoseconds same)
  refine ⟨fun n reads => ?_, fun unread => ?_, fun n => ⟨fun given => ?_, ?_⟩⟩
  · rw [ofEnvironment_of_reads reads]
    rfl
  · rw [ofEnvironment_of_not_reads unread]
    exact ⟨rfl, rfl⟩
  · by_cases read : ∃ m, Reads value m
    · obtain ⟨m, reads⟩ := read
      rw [ofEnvironment_of_reads reads] at given
      exact .inl (injective given ▸ reads)
    · have unread := not_exists.mp read
      rw [ofEnvironment_of_not_reads unread, default] at given
      exact .inr ⟨(injective given).symm, unread⟩
  · rintro (reads | ⟨rfl, unread⟩)
    · rw [ofEnvironment_of_reads reads]
    · rw [ofEnvironment_of_not_reads unread, default]

/-- Blanks of all kinds, a sign and leading zeros do not count, the largest number of 64 bits is
read, and the next one is not. -/
theorem ofEnvironment_spelled_limit :
    (ofEnvironment (some (utf8 "\u2003+00018446744073709551615\n"))).viewTimeout.nanoseconds =
      18446744073709551615000000 ∧
    (∀ n, ¬ Reads (some (utf8 "18446744073709551616")) n) ∧
    (ofEnvironment (some (utf8 "18446744073709551616"))).viewTimeout = .ofSeconds 75 := by
  obtain ⟨given, -, -⟩ := ofEnvironment_spelled (some (utf8 "\u2003+00018446744073709551615\n"))
  obtain ⟨-, otherwise, -⟩ := ofEnvironment_spelled (some (utf8 "18446744073709551616"))
  have blank : ∀ c ∈ ['\u2003'] ++ ['\n'], c.toNat ∈ whiteSpace :=
    List.forall_mem_cons.mpr ⟨by decide, List.forall_mem_singleton.mpr (by decide)⟩
  have spells : Spells (utf8 "\u2003+00018446744073709551615\n") 18446744073709551615 := by
    refine ⟨['\u2003'], "+00018446744073709551615".toList, ['\n'], by decide +kernel, blank, ?_,
      by decide⟩
    exact ⟨['+'], [0, 0, 0, 1, 8, 4, 4, 6, 7, 4, 4, 0, 7, 3, 7, 0, 9, 5, 5, 1, 6, 1, 5],
      by decide +kernel, .inr rfl, by decide, by decide, by decide +kernel⟩
  have unread : ∀ n, ¬ Reads (some (utf8 "18446744073709551616")) n := by
    intro n reads
    have read := bind_milliseconds?_iff.mpr reads
    have none : (some (utf8 "18446744073709551616")).bind milliseconds? = none := by
      decide +kernel
    rw [none] at read
    cases read
  exact ⟨given _ ⟨_, rfl, spells⟩, unread, (otherwise unread).2⟩

end Config

end DocViews
