import DocViews.Json.StringText
import DocViews.Json.Writer
import DocViews.Proofs.Text.Utf8

/-!
Strings survive being written and read. What the reader makes of a written string is
found character by character: an escape gives the character back, and the bytes of any
other character stand for themselves.
-/

namespace DocViews

namespace Json

/-- Bytes that are read as these bytes of a string, with any bound that is large enough. -/
def ReadsTo (input read rest : Bytes) : Prop :=
  ∀ bound : Bytes, input.length ≤ bound.length → stringBytes bound input = .ok (read, rest)

theorem ReadsTo.close (rest : Bytes) : ReadsTo (0x22 :: rest) [] rest := by
  intro bound h
  cases bound with
  | nil => simp at h
  | cons _ bound => rfl

theorem ReadsTo.byte {input read rest : Bytes} (tail : ReadsTo input read rest) {b : UInt8}
    (quote : b ≠ 0x22) (backslash : b ≠ 0x5c) (control : ¬ b < 0x20) :
    ReadsTo (b :: input) (b :: read) rest := by
  intro bound h
  cases bound with
  | nil => simp at h
  | cons _ bound =>
      have hrest := tail bound (Nat.le_of_succ_le_succ h)
      rw [stringBytes, if_neg quote, if_neg backslash, if_neg control, hrest]
      rfl

theorem ReadsTo.bytes {input read rest : Bytes} (tail : ReadsTo input read rest) (plain : Bytes)
    (h : ∀ b ∈ plain, b ≠ 0x22 ∧ b ≠ 0x5c ∧ ¬ b < 0x20) :
    ReadsTo (plain ++ input) (plain ++ read) rest := by
  induction plain with
  | nil => exact tail
  | cons b plain ih =>
      obtain ⟨quote, backslash, control⟩ := h b List.mem_cons_self
      have hrest := ih fun b' hb => h b' (List.mem_cons_of_mem _ hb)
      exact hrest.byte quote backslash control

theorem ReadsTo.escape {input read rest escaped unescaped : Bytes}
    (tail : ReadsTo input read rest) (resolved : Json.escape escaped = .ok (unescaped, input))
    (consumed : input.length ≤ escaped.length) :
    ReadsTo (0x5c :: escaped) (unescaped ++ read) rest := by
  intro bound h
  cases bound with
  | nil => simp at h
  | cons _ bound =>
      have hrest := tail bound (Nat.le_trans consumed (Nat.le_of_succ_le_succ h))
      rw [stringBytes, if_neg (by decide), if_pos rfl, resolved]
      show (stringBytes bound input >>= fun x => pure (unescaped ++ x.1, x.2)) = _
      rw [hrest]
      rfl

theorem hexDigit?_digitChar : ∀ n < 16,
    hexDigit? (UInt8.ofNat (Nat.digitChar n).toNat) = some n := by decide

theorem digitChar_ascii : ∀ n < 16, (Nat.digitChar n).toNat < 0x80 := by decide

/-- A control character is written with the four digits of its code. -/
theorem escape_control {c : Char} (h : c.toNat < 0x20) (rest : Bytes) :
    Json.escape (0x75 :: 0x30 :: 0x30 :: UInt8.ofNat (Nat.digitChar (c.toNat / 16)).toNat
        :: UInt8.ofNat (Nat.digitChar (c.toNat % 16)).toNat :: rest) =
      .ok (String.utf8EncodeChar c, rest) := by
  have hhigh := hexDigit?_digitChar (c.toNat / 16) (by omega)
  have hlow := hexDigit?_digitChar (c.toNat % 16) (by omega)
  have hzero : hexDigit? 0x30 = some 0 := rfl
  have hcode : ((0 * 16 + 0) * 16 + c.toNat / 16) * 16 + c.toNat % 16 = c.toNat := by omega
  have hleading : isLeadingSurrogate c.toNat = false := by
    simp only [isLeadingSurrogate, Bool.and_eq_false_iff, decide_eq_false_iff_not]
    omega
  have htrailing : isTrailingSurrogate c.toNat = false := by
    simp only [isTrailingSurrogate, Bool.and_eq_false_iff, decide_eq_false_iff_not]
    omega
  have hhex : hexCode (0x30 :: 0x30 :: UInt8.ofNat (Nat.digitChar (c.toNat / 16)).toNat
      :: UInt8.ofNat (Nat.digitChar (c.toNat % 16)).toNat :: rest) = .ok (c.toNat, rest) := by
    simp only [hexCode, hzero, hhigh, hlow, hcode]
  simp only [Json.escape, codeEscape, hhex]
  simp only [bind, Except.bind, htrailing, hleading, Bool.false_eq_true, if_false, pure,
    Except.pure, Char.ofNat_toNat]

/-- One written character is read as the bytes of the character. -/
theorem ReadsTo.char {input read rest : Bytes} (tail : ReadsTo input read rest) (c : Char) :
    ReadsTo (Utf8.encode (escapedChar c) ++ input) (String.utf8EncodeChar c ++ read) rest := by
  have letter : ∀ (escaped : UInt8) (code : Nat), c.toNat = code → code < 0x80 →
      Json.escape (escaped :: input) = .ok ([UInt8.ofNat code], input) →
      ReadsTo (0x5c :: escaped :: input) (String.utf8EncodeChar c ++ read) rest := by
    intro escaped code hcode hascii hescape
    rw [Utf8.utf8EncodeChar_ascii (hcode ▸ hascii), hcode]
    exact tail.escape hescape (Nat.le_succ _)
  unfold escapedChar
  split
  · next h => exact letter 0x22 0x22 (by rw [h]; rfl) (by decide) rfl
  split
  · next h => exact letter 0x5c 0x5c (by rw [h]; rfl) (by decide) rfl
  split
  · next h => exact letter 0x62 0x08 h (by decide) rfl
  split
  · next h => exact letter 0x74 0x09 h (by decide) rfl
  split
  · next h => exact letter 0x6e 0x0a h (by decide) rfl
  split
  · next h => exact letter 0x66 0x0c h (by decide) rfl
  split
  · next h => exact letter 0x72 0x0d h (by decide) rfl
  next quote backslash _ _ _ _ _ =>
    split
    · next control =>
        have hhigh := digitChar_ascii (c.toNat / 16) (by omega)
        have hlow := digitChar_ascii (c.toNat % 16) (by omega)
        have hbytes : Utf8.encode ['\\', 'u', '0', '0', Nat.digitChar (c.toNat / 16),
            Nat.digitChar (c.toNat % 16)] ++ input =
            0x5c :: 0x75 :: 0x30 :: 0x30 :: UInt8.ofNat (Nat.digitChar (c.toNat / 16)).toNat
              :: UInt8.ofNat (Nat.digitChar (c.toNat % 16)).toNat :: input := by
          simp only [Utf8.encode_cons, Utf8.utf8EncodeChar_ascii hhigh,
            Utf8.utf8EncodeChar_ascii hlow]
          rfl
        rw [hbytes]
        refine tail.escape (escape_control control input) ?_
        simp only [List.length_cons]
        omega
    · next printed =>
        rw [Utf8.encode_cons, Utf8.encode_nil, List.append_nil]
        refine tail.bytes _ fun b hb => ?_
        have hquote : c.toNat ≠ 0x22 := fun h => quote (Char.toNat_inj.mp h)
        have hbackslash : c.toNat ≠ 0x5c := fun h => backslash (Char.toNat_inj.mp h)
        simp only [ne_eq, ← UInt8.toNat_inj, UInt8.lt_iff_toNat_lt, UInt8.reduceToNat]
        rcases Utf8.mem_utf8EncodeChar hb with ⟨hb, -⟩ | hb <;> omega

theorem ReadsTo.chars (cs : List Char) (rest : Bytes) :
    ReadsTo (Utf8.encode (cs.flatMap escapedChar) ++ 0x22 :: rest) (Utf8.encode cs) rest := by
  induction cs with
  | nil => exact .close rest
  | cons c cs ih =>
      rw [List.flatMap_cons, Utf8.encode_append, Utf8.encode_cons, List.append_assoc]
      exact ih.char c

/-- A written string is read back, from behind its opening quote. -/
theorem stringRest_stringChars (s : String) (rest : Bytes) :
    ∃ body, Utf8.encode (stringChars s) ++ rest = 0x22 :: body ∧ stringRest body = .ok (s, rest) := by
  refine ⟨Utf8.encode (s.toList.flatMap escapedChar) ++ 0x22 :: rest, ?_, ?_⟩
  · rw [stringChars, List.cons_append, Utf8.encode_cons, Utf8.encode_append, Utf8.encode_cons]
    simp [String.utf8EncodeChar]
  · have hread := ReadsTo.chars s.toList rest _ (Nat.le_refl _)
    rw [stringRest, hread]
    have hutf := ofUtf8?_utf8 s
    rw [utf8] at hutf
    simp only [bind, Except.bind, hutf]
    rfl

end Json

end DocViews
