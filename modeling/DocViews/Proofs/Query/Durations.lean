import DocViews.Proofs.Query.Building
import Mathlib.Algebra.Order.Floor.Semifield
import Mathlib.Data.Rat.Floor

/-!
Whole seconds and durations as microseconds. Signed seconds are multiplied in 64 bits and seconds
without sign are a duration, which is counted in 128 bits; both ways come to the same microseconds
and refuse the same seconds with the same words. On machine words no step of either overflows,
and a query keeps the microseconds of its timeout, which are less than one short of it.
-/

namespace DocViews

namespace Timeout

section Words

/-- Whole seconds in each of the forms they can be given in, and durations by their parts. -/
inductive Given where
  | int32 (n : Int32)
  | int64 (n : Int64)
  | uint32 (n : UInt32)
  | uint64 (n : UInt64)
  | duration (whole : UInt64) (subsecond : UInt32) (proper : subsecond < 1000000000)

/-- Why a computation on words stops: a step has a result that does not fit its word, or what was
given is turned down. -/
inductive Stop where
  | overflow
  | refused
  deriving DecidableEq, Repr

variable {width : Nat}

def addWords (a b : BitVec width) : Except Stop (BitVec width) :=
  if a.uaddOverflow b then .error .overflow else .ok (a + b)

def mulWords (a b : BitVec width) : Except Stop (BitVec width) :=
  if a.umulOverflow b then .error .overflow else .ok (a * b)

/-- Seconds with a sign in 64 bits. A product that does not fit is no accident here: it is looked
for, and refused. -/
def secondsOnWords (n : Int64) : Except Stop UInt64 :=
  if n < 0 then .error .refused
  else (mulWords n.toUInt64.toBitVec 1000000).map UInt64.ofBitVec |>.mapError fun _ => .refused

/-- The microseconds of a duration in 128 bits. -/
def microsWord (whole : UInt64) (subsecond : UInt32) : Except Stop (BitVec 128) := do
  let micros ← mulWords (whole.toBitVec.setWidth 128) 1000000
  addWords micros ((subsecond / 1000).toBitVec.setWidth 128)

/-- Of these bits 64 are kept, if they hold the number. -/
def durationOnWords (whole : UInt64) (subsecond : UInt32) : Except Stop UInt64 := do
  let micros ← microsWord whole subsecond
  if micros < 0x10000000000000000 then pure (.ofBitVec (micros.setWidth 64)) else throw .refused

namespace Given

def timeout : Given → Timeout
  | .int32 n => .ofInt32 n
  | .int64 n => .ofInt64 n
  | .uint32 n => .ofUInt32 n
  | .uint64 n => .ofUInt64 n
  | .duration whole subsecond _ => .duration (.ofParts whole.toNat subsecond.toNat)

/-- The microseconds as a machine works them out. The shorter forms are widened first. -/
def onWords : Given → Except Stop UInt64
  | .int32 n => secondsOnWords n.toInt64
  | .int64 n => secondsOnWords n
  | .uint32 n => secondsOnWords n.toUInt64.toInt64
  | .uint64 n => durationOnWords n 0
  | .duration whole subsecond _ => durationOnWords whole subsecond

/-- The forms of a number of whole seconds. -/
inductive Holds : Int → Given → Prop
  | int32 (n : Int32) : Holds n.toInt (.int32 n)
  | int64 (n : Int64) : Holds n.toInt (.int64 n)
  | uint32 (n : UInt32) : Holds n.toNat (.uint32 n)
  | uint64 (n : UInt64) : Holds n.toNat (.uint64 n)
  | duration (n : UInt64) : Holds n.toNat (.duration n 0 (by decide))

end Given

/-- What goes on with a result, told without opening what goes on. -/
theorem ok_bind {α β : Type} (a : α) (f : α → Except Stop β) : Except.ok a >>= f = f a := rfl

theorem addWords_of_fits {a b : BitVec width} (fits : a.toNat + b.toNat < 2 ^ width) :
    addWords a b = .ok (a + b) ∧ (a + b).toNat = a.toNat + b.toNat := by
  have exact : ¬ a.uaddOverflow b = true := by simpa [BitVec.uaddOverflow] using fits
  exact ⟨if_neg exact, BitVec.toNat_add_of_not_uaddOverflow exact⟩

theorem mulWords_of_fits {a b : BitVec width} (fits : a.toNat * b.toNat < 2 ^ width) :
    mulWords a b = .ok (a * b) ∧ (a * b).toNat = a.toNat * b.toNat := by
  have exact : ¬ a.umulOverflow b = true := by simpa [BitVec.umulOverflow] using fits
  exact ⟨if_neg exact, BitVec.toNat_mul_of_not_umulOverflow exact⟩

theorem mulWords_of_overflow {a b : BitVec width} (large : 2 ^ width ≤ a.toNat * b.toNat) :
    mulWords a b = .error .overflow := by
  have inexact : a.umulOverflow b = true := by simpa [BitVec.umulOverflow] using large
  exact if_pos inexact

/-- Seconds that are not negative have the same bits without a sign. -/
theorem toNat_bits {n : Int64} (nonneg : 0 ≤ n.toInt) :
    n.toUInt64.toBitVec.toNat = n.toInt.toNat := by
  have hbits : n.toInt = n.toUInt64.toBitVec.toInt := rfl
  have hcases := BitVec.toInt_eq_toNat_cond n.toUInt64.toBitVec
  rw [hbits] at nonneg ⊢
  split at hcases <;> omega

theorem secondsOnWords_eq (n : Int64) :
    (secondsOnWords n).map UInt64.toNat =
      (toMicros (.seconds n.toInt)).mapError fun _ => .refused := by
  have hsign : n < 0 ↔ n.toInt < 0 := Int64.lt_iff_toInt_lt
  have hmillion : (1000000 : BitVec 64).toNat = 1000000 := rfl
  unfold secondsOnWords
  simp only [toMicros, hsign]
  split
  · rfl
  · next nonneg =>
      have hword := toNat_bits (Int.not_lt.mp nonneg)
      split
      · next fits =>
          obtain ⟨hproduct, hexact⟩ := mulWords_of_fits (a := n.toUInt64.toBitVec) (b := 1000000)
            (by rw [hword, hmillion]; exact fits)
          rw [hword, hmillion] at hexact
          rw [hproduct]
          exact congrArg Except.ok hexact
      · next large =>
          rw [mulWords_of_overflow (by rw [hword, hmillion]; exact Nat.le_of_not_lt large)]
          rfl

/-- Neither the product nor the sum comes near to what 128 bits hold. -/
theorem microsWord_eq (whole : UInt64) {subsecond : UInt32} (proper : subsecond < 1000000000) :
    ∃ micros, microsWord whole subsecond = .ok micros ∧
      micros.toNat = (Duration.ofParts whole.toNat subsecond.toNat).microseconds := by
  have hseconds : whole.toNat < 2 ^ 64 := whole.toNat_lt
  have hproper : subsecond.toNat < 1000000000 := UInt32.lt_iff_toNat_lt.mp proper
  have hmillion : (1000000 : BitVec 128).toNat = 1000000 := rfl
  have hwhole : (whole.toBitVec.setWidth 128).toNat = whole.toNat := by
    rw [BitVec.toNat_setWidth, UInt64.toNat_toBitVec]
    omega
  have hpart : ((subsecond / 1000).toBitVec.setWidth 128).toNat = subsecond.toNat / 1000 := by
    have hquotient : (subsecond / 1000).toNat = subsecond.toNat / 1000 := UInt32.toNat_div ..
    rw [BitVec.toNat_setWidth, UInt32.toNat_toBitVec, hquotient]
    omega
  obtain ⟨hproduct, product⟩ := mulWords_of_fits (a := whole.toBitVec.setWidth 128)
    (b := 1000000) (by rw [hwhole, hmillion]; omega)
  rw [hwhole, hmillion] at product
  obtain ⟨hsum, sum⟩ := addWords_of_fits (a := whole.toBitVec.setWidth 128 * 1000000)
    (b := (subsecond / 1000).toBitVec.setWidth 128) (by rw [product, hpart]; omega)
  rw [product, hpart] at sum
  refine ⟨_, ?_, sum.trans ?_⟩
  · rw [microsWord, hproduct, ok_bind, hsum]
  · simp only [Duration.ofParts, Duration.microseconds]
    omega

theorem durationOnWords_eq (whole : UInt64) {subsecond : UInt32}
    (proper : subsecond < 1000000000) :
    (durationOnWords whole subsecond).map UInt64.toNat =
      (toMicros (.duration (.ofParts whole.toNat subsecond.toNat))).mapError
        fun _ => .refused := by
  obtain ⟨micros, hmicros, counted⟩ := microsWord_eq whole proper
  have hlimit : micros < 0x10000000000000000 ↔ micros.toNat < limit := BitVec.lt_def
  have hrun : durationOnWords whole subsecond =
      if micros < 0x10000000000000000 then .ok (.ofBitVec (micros.setWidth 64))
      else .error .refused := by
    rw [durationOnWords, hmicros, ok_bind]
    rfl
  rw [hrun, toMicros, ← counted]
  by_cases fits : micros.toNat < limit
  · have hkept : (UInt64.ofBitVec (micros.setWidth 64)).toNat = micros.toNat := by
      rw [UInt64.toNat_ofBitVec, BitVec.toNat_setWidth]
      exact Nat.mod_eq_of_lt fits
    rw [if_pos (hlimit.mpr fits), if_pos fits]
    exact congrArg Except.ok hkept
  · rw [if_neg (mt hlimit.mp fits), if_neg fits]
    rfl

/-- A number of 32 bits is not negative in 64. -/
theorem toInt_widened (n : UInt32) : n.toUInt64.toInt64.toInt = n.toNat := by
  have hsmall := n.toNat_lt
  rw [← UInt64.ofNat_uInt32ToNat, UInt64.toInt64_ofNat']
  exact Int64.toInt_ofNat_of_lt (by omega)

theorem ofParts_whole (n : UInt64) :
    Duration.ofParts n.toNat (0 : UInt32).toNat = .ofSeconds n.toNat :=
  congrArg Duration.mk (Nat.add_zero _)

/-- What is worked out on words is what the timeout comes to, and no step overflows on the way. -/
theorem Given.onWords_eq (g : Given) :
    g.onWords.map UInt64.toNat = g.timeout.toMicros.mapError fun _ => .refused := by
  cases g with
  | int32 n =>
      have hseconds := secondsOnWords_eq n.toInt64
      rwa [Int32.toInt_toInt64] at hseconds
  | int64 n => exact secondsOnWords_eq n
  | uint32 n =>
      have hseconds := secondsOnWords_eq n.toUInt64.toInt64
      rwa [toInt_widened] at hseconds
  | uint64 n =>
      have hnone : (0 : UInt32) < 1000000000 := by decide
      have hduration := durationOnWords_eq n hnone
      rwa [ofParts_whole] at hduration
  | duration whole subsecond proper => exact durationOnWords_eq whole proper

end Words

section Whole

variable {n : Int} {g : Given}

/-- Whole seconds are shown without places. -/
theorem text_ofSeconds (n : Nat) :
    (Duration.ofSeconds n).text = String.ofList (digitChars n ++ ['s']) := by
  have hseconds : (Duration.ofSeconds n).seconds = n := Nat.mul_div_cancel n (by decide)
  have hsubsecond : (Duration.ofSeconds n).subsecond = 0 := Nat.mul_mod_left n 1000000000
  have hplaces : (Duration.ofSeconds n).fractionDigits.reverse.dropWhile (· == '0') = [] := by
    rw [Duration.fractionDigits, hsubsecond]
    decide
  unfold Duration.text
  simp [hseconds, hplaces]

/-- Both ways from whole seconds to microseconds take and refuse the same, in the same words. -/
theorem toMicros_ofSeconds (n : Nat) :
    toMicros (.duration (.ofSeconds n)) = toMicros (.seconds n) := by
  have hmicros : (Duration.ofSeconds n).microseconds = n * 1000000 := by
    simp only [Duration.ofSeconds, Duration.microseconds]
    omega
  have htext : (Duration.ofSeconds n).text = String.ofList (integerChars n) ++ "s" := by
    rw [text_ofSeconds, String.ofList_append]
    rfl
  simp only [toMicros, hmicros, htext, Int.toNat_natCast, if_neg (Int.not_lt.mpr n.cast_nonneg)]

/-- Every form of a number of seconds comes to what the number does. -/
theorem Given.Holds.toMicros_eq (holds : g.Holds n) : g.timeout.toMicros = toMicros (.seconds n) := by
  cases holds with
  | uint64 n => exact toMicros_ofSeconds n.toNat
  | duration n =>
      have hduration := toMicros_ofSeconds n.toNat
      rwa [← ofParts_whole] at hduration
  | _ => rfl

theorem toMicros_of_fits (nonneg : 0 ≤ n) (fits : n * 1000000 < 2 ^ 64) :
    toMicros (.seconds n) = .ok (n * 1000000).toNat := by
  have hproduct : n.toNat * 1000000 = (n * 1000000).toNat := by omega
  have hlimit : (n * 1000000).toNat < limit := by
    unfold limit
    omega
  simp only [toMicros, if_neg (Int.not_lt.mpr nonneg), hproduct, if_pos hlimit]

theorem toMicros_of_not_fits (large : ¬ (0 ≤ n ∧ n * 1000000 < 2 ^ 64)) :
    ∃ message, toMicros (.seconds n) = .error (.invalidArgument message) := by
  by_cases negative : n < 0
  · exact ⟨_, if_pos negative⟩
  · have hlimit : ¬ n.toNat * 1000000 < limit := by
      unfold limit
      omega
    exact ⟨_, (if_neg negative).trans (if_neg hlimit)⟩

end Whole

section Durations

variable (d : Duration)

theorem floor_micros : ⌊(d.nanoseconds / 1000 : ℚ)⌋₊ = d.microseconds :=
  Nat.floor_div_eq_div d.nanoseconds 1000

theorem toMicros_duration_iff {micros : Nat} :
    toMicros (.duration d) = .ok micros ↔ micros = d.microseconds ∧ micros < 2 ^ 64 := by
  simp only [toMicros]
  split
  · next fits =>
      constructor
      · intro h
        cases h
        exact ⟨rfl, fits⟩
      · rintro ⟨rfl, -⟩
        rfl
  · next large =>
      constructor
      · intro h
        cases h
      · rintro ⟨rfl, fits⟩
        exact absurd fits large

/-- A duration that is not accepted is refused. -/
theorem toMicros_duration_refused (large : 2 ^ 64 ≤ d.microseconds) :
    ∃ message, toMicros (.duration d) = .error (.invalidArgument message) :=
  ⟨_, if_neg (Nat.not_lt.mpr large)⟩

/-- The microseconds of a duration last no longer than it, and no microsecond less. -/
theorem ofMicroseconds_le :
    (Duration.ofMicroseconds d.microseconds).nanoseconds ≤ d.nanoseconds ∧
      d.nanoseconds < (Duration.ofMicroseconds d.microseconds).nanoseconds + 1000 := by
  simp only [Duration.ofMicroseconds, Duration.microseconds]
  omega

variable {d} {bucketName designDocument viewName : String} {o : QueryOptions} {t : Timeout}

/-- A timeout keeps a query from being built only if it is refused itself. -/
theorem build_timed_iff (set : o.timeout = some t) :
    (∃ query, Query.build bucketName designDocument viewName o = .ok query) ↔
      (∃ query, Query.build bucketName designDocument viewName { o with timeout := none } =
        .ok query) ∧ ∃ micros, t.toMicros = .ok micros := by
  rw [Query.build_eq_ok_iff, Query.build_eq_ok_iff]
  simp [set, and_assoc]

/-- A query keeps the microseconds of its timeout, and has them in its encoded form. -/
theorem build_micros {query : Query} {micros : Nat} (set : o.timeout = some t)
    (comes : t.toMicros = .ok micros)
    (built : Query.build bucketName designDocument viewName o = .ok query) :
    (query.encoded.natural? QueryField.timeout).map UInt64.toNat = some micros ∧
      query.timeout = some (.ofMicroseconds micros) := by
  obtain ⟨-, -, -, -, -, -, -, checked⟩ := Query.build_ok built
  have kept : query.timeoutMicros = some micros := by
    rw [set, Option.mapM_some, comes] at checked
    exact (Except.ok.inj checked).symm
  refine ⟨(Query.build_timeout built).1.trans kept, ?_⟩
  rw [Query.timeout, kept, Option.map_some]

end Durations

/-- Whole seconds and durations are exact. All forms that hold the same number of seconds come to
the same, which is a million microseconds for each of them if 64 bits hold that many, and a
refusal otherwise, and on machine words no step overflows on the way. A duration comes to the
microseconds that have passed in full exactly if 64 bits hold them. It then keeps no query from
being built, which has these microseconds in its encoded form and as its timeout. That is at most
the duration, and falls short of it by less than a microsecond. -/
theorem toMicros_exact :
    (∀ (n : Int) (g : Given), g.Holds n →
      (0 ≤ n ∧ n * 1000000 < 2 ^ 64 → g.timeout.toMicros = .ok (n * 1000000).toNat) ∧
      (¬ (0 ≤ n ∧ n * 1000000 < 2 ^ 64) →
        ∃ message, g.timeout.toMicros = .error (.invalidArgument message)) ∧
      ∀ other : Given, other.Holds n → other.timeout.toMicros = g.timeout.toMicros) ∧
    (∀ g : Given, g.onWords.map UInt64.toNat = g.timeout.toMicros.mapError fun _ => .refused) ∧
    ∀ (d : Duration) (micros : Nat), ⌊(d.nanoseconds / 1000 : ℚ)⌋₊ = micros →
      (toMicros (.duration d) = .ok micros ↔ micros < 2 ^ 64) ∧
      (2 ^ 64 ≤ micros → ∃ message, toMicros (.duration d) = .error (.invalidArgument message)) ∧
      ∀ (bucketName designDocument viewName : String) (o : QueryOptions),
        o.timeout = some (.duration d) →
        ((∃ query, Query.build bucketName designDocument viewName o = .ok query) ↔
          (∃ query, Query.build bucketName designDocument viewName { o with timeout := none } =
            .ok query) ∧ micros < 2 ^ 64) ∧
        ∀ query, Query.build bucketName designDocument viewName o = .ok query →
          (query.encoded.natural? QueryField.timeout).map UInt64.toNat = some micros ∧
          ∃ kept, query.timeout = some kept ∧ kept = .ofMicroseconds micros ∧
            kept.nanoseconds ≤ d.nanoseconds ∧ d.nanoseconds < kept.nanoseconds + 1000 := by
  refine ⟨?_, Given.onWords_eq, ?_⟩
  · intro n g holds
    rw [holds.toMicros_eq]
    refine ⟨fun ⟨nonneg, fits⟩ => toMicros_of_fits nonneg fits, toMicros_of_not_fits, ?_⟩
    intro other same
    exact same.toMicros_eq
  · intro d micros counted
    rw [floor_micros] at counted
    subst counted
    have accepted : toMicros (.duration d) = .ok d.microseconds ↔ d.microseconds < 2 ^ 64 := by
      rw [toMicros_duration_iff, eq_self, true_and]
    refine ⟨accepted, toMicros_duration_refused d, ?_⟩
    intro bucketName designDocument viewName o set
    have comes : (∃ micros, toMicros (.duration d) = .ok micros) ↔ d.microseconds < 2 ^ 64 := by
      simp [toMicros_duration_iff]
    rw [build_timed_iff set, comes]
    refine ⟨Iff.rfl, fun query built => ?_⟩
    obtain ⟨-, fits⟩ := (build_timed_iff set).mp ⟨query, built⟩
    obtain ⟨encoded, kept⟩ := build_micros set (accepted.mpr (comes.mp fits)) built
    exact ⟨encoded, _, kept, rfl, ofMicroseconds_le d⟩

/-- The last number of seconds that fits, the first that does not, and a duration that has a part
of a microsecond. -/
theorem toMicros_exact_limit :
    (Given.int64 18446744073709).timeout.toMicros = .ok 18446744073709000000 ∧
    (Given.uint64 18446744073709).timeout.toMicros = .ok 18446744073709000000 ∧
    (∃ message, (Given.uint64 18446744073710).timeout.toMicros =
      .error (.invalidArgument message)) ∧
    (Given.uint64 18446744073710).timeout.toMicros =
      (Given.int64 18446744073710).timeout.toMicros ∧
    (∃ message, (Given.int32 (-1)).timeout.toMicros = .error (.invalidArgument message)) ∧
    ∃ query, Query.build "default" "people" "by_age" { timeout := some (.duration ⟨1999⟩) } =
        .ok query ∧
      (query.encoded.natural? QueryField.timeout).map UInt64.toNat = some 1 ∧
      query.timeout = some ⟨1000⟩ := by
  obtain ⟨whole, -, durations⟩ := toMicros_exact
  obtain ⟨fits, -, -⟩ := whole _ _ (.int64 18446744073709)
  obtain ⟨fits', -, -⟩ := whole _ _ (.uint64 18446744073709)
  obtain ⟨-, large, same⟩ := whole _ _ (.uint64 18446744073710)
  obtain ⟨-, negative, -⟩ := whole _ _ (.int32 (-1))
  have counted : ⌊((⟨1999⟩ : Duration).nanoseconds / 1000 : ℚ)⌋₊ = 1 := floor_micros ⟨1999⟩
  obtain ⟨-, -, queries⟩ := durations ⟨1999⟩ 1 counted
  obtain ⟨built, keeps⟩ := queries "default" "people" "by_age"
    { timeout := some (.duration ⟨1999⟩) } rfl
  obtain ⟨query, hquery⟩ := built.mpr ⟨⟨_, rfl⟩, by decide⟩
  obtain ⟨encoded, kept, hkept, rfl, -⟩ := keeps query hquery
  exact ⟨fits (by decide), fits' (by decide), large (by decide),
    (same _ (.int64 18446744073710)).symm, negative (by decide), query, hquery, encoded, hkept⟩

end Timeout

end DocViews
