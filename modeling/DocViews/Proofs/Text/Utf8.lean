import DocViews.Text.Utf8

/-!
Decoding undoes encoding: the bytes of characters decode to these characters, whatever
bytes follow. And since only the shortest form of a character is accepted, encoding undoes
decoding: nothing else decodes to these characters.
-/

namespace DocViews

namespace Utf8

theorem charFrom?_toNat {least : Nat} {c : Char} (h : least ≤ c.toNat) :
    charFrom? least c.toNat = some c := by
  have hvalid : c.toNat.isValidChar := c.valid
  unfold charFrom?
  rw [dif_pos hvalid, if_pos h]
  rfl

theorem toNat_ofNat {n : Nat} (h : n < 256) : (UInt8.ofNat n).toNat = n :=
  UInt8.toNat_ofNat_of_lt' h

@[simp]
theorem encode_nil : encode [] = [] := rfl

@[simp]
theorem encode_cons (c : Char) (cs : List Char) :
    encode (c :: cs) = String.utf8EncodeChar c ++ encode cs := List.flatMap_cons

@[simp]
theorem encode_append (cs ds : List Char) : encode (cs ++ ds) = encode cs ++ encode ds :=
  List.flatMap_append

theorem utf8EncodeChar_ascii {c : Char} (h : c.toNat < 0x80) :
    String.utf8EncodeChar c = [UInt8.ofNat c.toNat] := by
  have hle : c.val.toNat ≤ 0x7f := Nat.le_of_lt_succ h
  simp only [String.utf8EncodeChar, if_pos hle]
  rfl

/-- Every byte of a character is the character itself, or no ASCII. -/
theorem mem_utf8EncodeChar {c : Char} {b : UInt8} (h : b ∈ String.utf8EncodeChar c) :
    (b.toNat = c.toNat ∧ c.toNat < 0x80) ∨ 0x80 ≤ b.toNat := by
  simp only [String.utf8EncodeChar] at h
  split at h
  · next hone =>
      left
      rw [List.mem_singleton.mp h]
      have hlt : c.toNat < 0x80 := Nat.lt_succ_of_le hone
      exact ⟨toNat_ofNat (by show c.toNat < 256; omega), hlt⟩
  · right
    have hcode : c.val.toNat < 0x110000 := by
      have hvalid : c.toNat.isValidChar := c.valid
      simp only [Nat.isValidChar] at hvalid
      show c.toNat < 0x110000
      omega
    split at h
    · simp only [List.mem_cons, List.not_mem_nil, or_false] at h
      rcases h with rfl | rfl <;> rw [toNat_ofNat (by omega)] <;> omega
    · split at h
      · simp only [List.mem_cons, List.not_mem_nil, or_false] at h
        rcases h with rfl | rfl | rfl <;> rw [toNat_ofNat (by omega)] <;> omega
      · simp only [List.mem_cons, List.not_mem_nil, or_false] at h
        rcases h with rfl | rfl | rfl | rfl <;> rw [toNat_ofNat (by omega)] <;> omega

/-- The last six bits of a code are what its last byte continues with. -/
theorem continuation?_low (n : Nat) : continuation? (UInt8.ofNat (n % 64 + 0x80)) = some (n % 64) := by
  have hbyte : (UInt8.ofNat (n % 64 + 0x80)).toNat = n % 64 + 0x80 := toNat_ofNat (by omega)
  have hrange : 0x80 ≤ UInt8.ofNat (n % 64 + 0x80) ∧ UInt8.ofNat (n % 64 + 0x80) ≤ 0xBF := by
    simp only [UInt8.le_iff_toNat_le, hbyte, UInt8.reduceToNat]
    omega
  unfold continuation?
  rw [if_pos hrange, hbyte]
  simp

theorem decodeChar?_one {n : Nat} {c : Char} (hc : c.toNat = n) (h : n < 0x80) (rest : Bytes) :
    decodeChar? (UInt8.ofNat n :: rest) = some (c, rest) := by
  have hbyte : (UInt8.ofNat n).toNat = n := toNat_ofNat (by omega)
  have hlt : UInt8.ofNat n < 0x80 := by
    simp only [UInt8.lt_iff_toNat_lt, hbyte, UInt8.reduceToNat]
    omega
  unfold decodeChar?
  simp only [if_pos hlt, hbyte]
  rw [← hc, charFrom?_toNat (Nat.zero_le _)]
  rfl

theorem decodeChar?_two {n : Nat} {c : Char} (hc : c.toNat = n) (hlow : 0x80 ≤ n) (h : n < 0x800)
    (rest : Bytes) :
    decodeChar? (UInt8.ofNat (n / 64 % 0x20 + 0xc0) :: UInt8.ofNat (n % 0x40 + 0x80) :: rest) =
      some (c, rest) := by
  have hbyte : (UInt8.ofNat (n / 64 % 0x20 + 0xc0)).toNat = n / 64 % 0x20 + 0xc0 :=
    toNat_ofNat (by omega)
  have hge : ¬ UInt8.ofNat (n / 64 % 0x20 + 0xc0) < 0x80 := by
    simp only [UInt8.lt_iff_toNat_lt, hbyte, UInt8.reduceToNat]
    omega
  have hlead : 0xC0 ≤ UInt8.ofNat (n / 64 % 0x20 + 0xc0) ∧
      UInt8.ofNat (n / 64 % 0x20 + 0xc0) < 0xE0 := by
    simp only [UInt8.lt_iff_toNat_lt, UInt8.le_iff_toNat_le, hbyte, UInt8.reduceToNat]
    omega
  have hcode : (n / 64 % 0x20 + 0xc0 - 0xC0) * 64 + n % 64 = c.toNat := by omega
  rw [decodeChar?]
  rw [if_neg hge, if_pos hlead]
  simp only [continuation?_low, hbyte, hcode, charFrom?_toNat (hc ▸ hlow), Option.bind_eq_bind,
    Option.bind_some]

theorem decodeChar?_three {n : Nat} {c : Char} (hc : c.toNat = n) (hlow : 0x800 ≤ n)
    (h : n < 0x10000) (rest : Bytes) :
    decodeChar? (UInt8.ofNat (n / 4096 % 0x10 + 0xe0) :: UInt8.ofNat (n / 64 % 0x40 + 0x80)
      :: UInt8.ofNat (n % 0x40 + 0x80) :: rest) = some (c, rest) := by
  have hbyte : (UInt8.ofNat (n / 4096 % 0x10 + 0xe0)).toNat = n / 4096 % 0x10 + 0xe0 :=
    toNat_ofNat (by omega)
  have hge : ¬ UInt8.ofNat (n / 4096 % 0x10 + 0xe0) < 0x80 := by
    simp only [UInt8.lt_iff_toNat_lt, hbyte, UInt8.reduceToNat]
    omega
  have htwo : ¬ (0xC0 ≤ UInt8.ofNat (n / 4096 % 0x10 + 0xe0) ∧
      UInt8.ofNat (n / 4096 % 0x10 + 0xe0) < 0xE0) := by
    simp only [UInt8.lt_iff_toNat_lt, UInt8.le_iff_toNat_le, hbyte, UInt8.reduceToNat]
    omega
  have hlead : 0xE0 ≤ UInt8.ofNat (n / 4096 % 0x10 + 0xe0) ∧
      UInt8.ofNat (n / 4096 % 0x10 + 0xe0) < 0xF0 := by
    simp only [UInt8.lt_iff_toNat_lt, UInt8.le_iff_toNat_le, hbyte, UInt8.reduceToNat]
    omega
  have hcode : ((n / 4096 % 0x10 + 0xe0 - 0xE0) * 64 + n / 64 % 64) * 64 + n % 64 = c.toNat := by
    omega
  rw [decodeChar?]
  rw [if_neg hge, if_neg htwo, if_pos hlead]
  simp only [continuation?_low, hbyte, hcode, charFrom?_toNat (hc ▸ hlow), Option.bind_eq_bind,
    Option.bind_some]

theorem decodeChar?_four {n : Nat} {c : Char} (hc : c.toNat = n) (hlow : 0x10000 ≤ n)
    (rest : Bytes) :
    decodeChar? (UInt8.ofNat (n / 262144 % 0x08 + 0xf0) :: UInt8.ofNat (n / 4096 % 0x40 + 0x80)
      :: UInt8.ofNat (n / 64 % 0x40 + 0x80) :: UInt8.ofNat (n % 0x40 + 0x80) :: rest) =
      some (c, rest) := by
  have hvalid : c.toNat.isValidChar := c.valid
  simp only [Nat.isValidChar] at hvalid
  have hbyte : (UInt8.ofNat (n / 262144 % 0x08 + 0xf0)).toNat = n / 262144 % 0x08 + 0xf0 :=
    toNat_ofNat (by omega)
  have hge : ¬ UInt8.ofNat (n / 262144 % 0x08 + 0xf0) < 0x80 := by
    simp only [UInt8.lt_iff_toNat_lt, hbyte, UInt8.reduceToNat]
    omega
  have htwo : ¬ (0xC0 ≤ UInt8.ofNat (n / 262144 % 0x08 + 0xf0) ∧
      UInt8.ofNat (n / 262144 % 0x08 + 0xf0) < 0xE0) := by
    simp only [UInt8.lt_iff_toNat_lt, UInt8.le_iff_toNat_le, hbyte, UInt8.reduceToNat]
    omega
  have hthree : ¬ (0xE0 ≤ UInt8.ofNat (n / 262144 % 0x08 + 0xf0) ∧
      UInt8.ofNat (n / 262144 % 0x08 + 0xf0) < 0xF0) := by
    simp only [UInt8.lt_iff_toNat_lt, UInt8.le_iff_toNat_le, hbyte, UInt8.reduceToNat]
    omega
  have hlead : 0xF0 ≤ UInt8.ofNat (n / 262144 % 0x08 + 0xf0) ∧
      UInt8.ofNat (n / 262144 % 0x08 + 0xf0) < 0xF8 := by
    simp only [UInt8.lt_iff_toNat_lt, UInt8.le_iff_toNat_le, hbyte, UInt8.reduceToNat]
    omega
  have hcode : (((n / 262144 % 0x08 + 0xf0 - 0xF0) * 64 + n / 4096 % 64) * 64 + n / 64 % 64) * 64
      + n % 64 = c.toNat := by
    omega
  rw [decodeChar?]
  rw [if_neg hge, if_neg htwo, if_neg hthree, if_pos hlead]
  simp only [continuation?_low, hbyte, hcode, charFrom?_toNat (hc ▸ hlow), Option.bind_eq_bind,
    Option.bind_some]

/-- The cases of decoding are those of encoding, by the size of the code. -/
theorem decodeChar?_utf8EncodeChar (c : Char) (rest : Bytes) :
    decodeChar? (String.utf8EncodeChar c ++ rest) = some (c, rest) := by
  simp only [String.utf8EncodeChar]
  split
  · next h => exact decodeChar?_one rfl (Nat.lt_succ_of_le h) rest
  · next hone =>
      split
      · next h => exact decodeChar?_two rfl (Nat.lt_of_not_le hone) (Nat.lt_succ_of_le h) rest
      · next htwo =>
          split
          · next h =>
              exact decodeChar?_three rfl (Nat.lt_of_not_le htwo) (Nat.lt_succ_of_le h) rest
          · next hthree => exact decodeChar?_four rfl (Nat.lt_of_not_le hthree) rest

section Shortest

variable {a b b' b'' : UInt8} {c : Char} {code low middle high : Nat}

theorem charFrom?_eq_some {least : Nat} (h : charFrom? least code = some c) :
    c.val.toNat = code ∧ least ≤ code := by
  obtain ⟨valid, h⟩ := Option.dite_none_right_eq_some.mp h
  obtain ⟨shortest, h⟩ := Option.ite_none_right_eq_some.mp h
  cases h
  exact ⟨rfl, shortest⟩

theorem continuation?_eq_some (h : continuation? b = some low) :
    b.toNat = low + 0x80 ∧ low < 64 := by
  obtain ⟨hrange, h⟩ := Option.ite_none_right_eq_some.mp h
  have hlow := Option.some.inj h
  simp only [UInt8.le_iff_toNat_le, UInt8.reduceToNat] at hrange
  omega

/-- A byte is told by its number. -/
theorem ofNat_eq_of_toNat {n : Nat} (h : b.toNat = n) : UInt8.ofNat n = b := by
  rw [← h, UInt8.ofNat_toNat]

theorem utf8EncodeChar_one (lead : a < 0x80) (hc : charFrom? 0 a.toNat = some c) :
    String.utf8EncodeChar c = [a] := by
  obtain ⟨hcode, -⟩ := charFrom?_eq_some hc
  rw [UInt8.lt_iff_toNat_lt] at lead
  rw [utf8EncodeChar_ascii (by rw [Char.toNat, hcode]; exact lead), Char.toNat, hcode,
    UInt8.ofNat_toNat]

theorem utf8EncodeChar_two (lead : 0xC0 ≤ a ∧ a < 0xE0) (hlow : continuation? b = some low)
    (hc : charFrom? 0x80 ((a.toNat - 0xC0) * 64 + low) = some c) :
    String.utf8EncodeChar c = [a, b] := by
  obtain ⟨hcode, shortest⟩ := charFrom?_eq_some hc
  obtain ⟨hb, small⟩ := continuation?_eq_some hlow
  simp only [UInt8.lt_iff_toNat_lt, UInt8.le_iff_toNat_le, UInt8.reduceToNat] at lead
  simp only [String.utf8EncodeChar]
  rw [if_neg (by omega), if_pos (by omega), hcode,
    ofNat_eq_of_toNat (b := a) (by omega), ofNat_eq_of_toNat (b := b) (by omega)]

theorem utf8EncodeChar_three (lead : 0xE0 ≤ a ∧ a < 0xF0) (hmiddle : continuation? b = some middle)
    (hlow : continuation? b' = some low)
    (hc : charFrom? 0x800 (((a.toNat - 0xE0) * 64 + middle) * 64 + low) = some c) :
    String.utf8EncodeChar c = [a, b, b'] := by
  obtain ⟨hcode, shortest⟩ := charFrom?_eq_some hc
  obtain ⟨hb, small⟩ := continuation?_eq_some hmiddle
  obtain ⟨hb', small'⟩ := continuation?_eq_some hlow
  simp only [UInt8.lt_iff_toNat_lt, UInt8.le_iff_toNat_le, UInt8.reduceToNat] at lead
  simp only [String.utf8EncodeChar]
  rw [if_neg (by omega), if_neg (by omega), if_pos (by omega), hcode,
    ofNat_eq_of_toNat (b := a) (by omega), ofNat_eq_of_toNat (b := b) (by omega),
    ofNat_eq_of_toNat (b := b') (by omega)]

theorem utf8EncodeChar_four (lead : 0xF0 ≤ a ∧ a < 0xF8) (hhigh : continuation? b = some high)
    (hmiddle : continuation? b' = some middle) (hlow : continuation? b'' = some low)
    (hc : charFrom? 0x10000 ((((a.toNat - 0xF0) * 64 + high) * 64 + middle) * 64 + low) = some c) :
    String.utf8EncodeChar c = [a, b, b', b''] := by
  obtain ⟨hcode, shortest⟩ := charFrom?_eq_some hc
  obtain ⟨hb, small⟩ := continuation?_eq_some hhigh
  obtain ⟨hb', small'⟩ := continuation?_eq_some hmiddle
  obtain ⟨hb'', small''⟩ := continuation?_eq_some hlow
  simp only [UInt8.lt_iff_toNat_lt, UInt8.le_iff_toNat_le, UInt8.reduceToNat] at lead
  simp only [String.utf8EncodeChar]
  rw [if_neg (by omega), if_neg (by omega), if_neg (by omega), hcode,
    ofNat_eq_of_toNat (b := a) (by omega), ofNat_eq_of_toNat (b := b) (by omega),
    ofNat_eq_of_toNat (b := b') (by omega), ofNat_eq_of_toNat (b := b'') (by omega)]

/-- A decoded character is encoded as the bytes that it was decoded from. -/
theorem utf8EncodeChar_of_decodeChar? {bytes rest : Bytes}
    (h : decodeChar? bytes = some (c, rest)) : String.utf8EncodeChar c ++ rest = bytes := by
  unfold decodeChar? at h
  split at h
  · cases h
  · split at h
    · next lead =>
        obtain ⟨_, hc, heq⟩ := Option.map_eq_some_iff.mp h
        cases heq
        rw [utf8EncodeChar_one lead hc]
        rfl
    · split at h
      · next lead =>
          split at h
          · simp only [Option.bind_eq_bind, Option.bind_eq_some_iff] at h
            obtain ⟨_, hlow, _, hc, heq⟩ := h
            cases heq
            rw [utf8EncodeChar_two lead hlow hc]
            rfl
          · cases h
      · split at h
        · next lead =>
            split at h
            · simp only [Option.bind_eq_bind, Option.bind_eq_some_iff] at h
              obtain ⟨_, hmiddle, _, hlow, _, hc, heq⟩ := h
              cases heq
              rw [utf8EncodeChar_three lead hmiddle hlow hc]
              rfl
            · cases h
        · split at h
          · next lead =>
              split at h
              · simp only [Option.bind_eq_bind, Option.bind_eq_some_iff] at h
                obtain ⟨_, hhigh, _, hmiddle, _, hlow, _, hc, heq⟩ := h
                cases heq
                rw [utf8EncodeChar_four lead hhigh hmiddle hlow hc]
                rfl
              · cases h
          · cases h

end Shortest

theorem length_le_encode (cs : List Char) : cs.length ≤ (encode cs).length := by
  induction cs with
  | nil => exact Nat.le_refl 0
  | cons c cs ih =>
      have hpos : 0 < (String.utf8EncodeChar c).length :=
        List.length_pos_iff.mpr String.utf8EncodeChar_ne_nil
      simp only [encode, List.flatMap_cons, List.length_append, List.length_cons] at ih ⊢
      omega

theorem decodeUpTo_encode (cs : List Char) {limit : Nat} (h : cs.length ≤ limit) :
    decodeUpTo limit (encode cs) = (cs, []) := by
  induction cs generalizing limit with
  | nil =>
      cases limit with
      | zero => rfl
      | succ limit => rfl
  | cons c cs ih =>
      obtain ⟨limit, rfl⟩ : ∃ n, limit = n + 1 :=
        Nat.exists_eq_succ_of_ne_zero (Nat.ne_of_gt (Nat.lt_of_lt_of_le (Nat.succ_pos _) h))
      have hrest := ih (Nat.le_of_succ_le_succ h)
      have hfirst := decodeChar?_utf8EncodeChar c (encode cs)
      simp only [encode, List.flatMap_cons] at hfirst hrest ⊢
      simp only [decodeUpTo, hfirst, hrest]

theorem decode?_encode (cs : List Char) : decode? (encode cs) = some cs := by
  simp only [decode?, decodePrefix, decodeUpTo_encode cs (length_le_encode cs)]

/-- What was decoded and what was left are what there was. -/
theorem encode_decodeUpTo (limit : Nat) (bytes : Bytes) :
    encode (decodeUpTo limit bytes).1 ++ (decodeUpTo limit bytes).2 = bytes := by
  induction limit generalizing bytes with
  | zero => rfl
  | succ limit ih =>
      rw [decodeUpTo]
      split
      · rfl
      · next c rest hfirst =>
          simp only [encode_cons, List.append_assoc, ih rest]
          exact utf8EncodeChar_of_decodeChar? hfirst

/-- Bytes decode to characters if these are encoded as the bytes, and only then. -/
theorem decode?_eq_some_iff {bytes : Bytes} {cs : List Char} :
    decode? bytes = some cs ↔ encode cs = bytes := by
  constructor
  · intro h
    have whole := encode_decodeUpTo bytes.length bytes
    unfold decode? decodePrefix at h
    split at h
    · next decoded heq =>
        cases h
        rwa [heq, List.append_nil] at whole
    · cases h
  · rintro rfl
    exact decode?_encode cs

end Utf8

/-- A string is read back from its bytes. -/
theorem ofUtf8?_utf8 (s : String) : ofUtf8? (utf8 s) = some s := by
  simp only [ofUtf8?, utf8, Utf8.decode?_encode, Option.map_some, String.ofList_toList]

end DocViews
