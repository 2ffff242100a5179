import DocViews.Metadata
import DocViews.Proofs.Json.Records

/-!
Metadata is read back from an object with some of its members, in any order.
-/

namespace DocViews.Metadata

open Json (Exact ReadAs Takes EndsNumeral written recordMember)

/-- A count as an integer, if it fits 64 bits. -/
def countInteger (n : Nat) (h : n < 0x10000000000000000) : Json.Integer where
  value := n
  least := by omega
  greatest := by omega

theorem ofInt_eq {n : Int} {number : Json.Number} (h : Json.Number.ofInt? n = some number) :
    Json.Value.ofInt n = .number number := by
  unfold Json.Value.ofInt
  rw [h]

theorem ofNat_eq {n : Nat} (h : n < 0x10000000000000000) :
    Json.Value.ofNat n = .number (.integer (countInteger n h)) :=
  ofInt_eq (Json.ofInt?_value (countInteger n h))

theorem exact_ofNat {n : Nat} (levels : Nat) (h : n < 0x10000000000000000) :
    Exact levels (.ofNat n) := by
  rw [ofNat_eq h]
  exact .integer _

/-- An integer that is not negative is read as a count. -/
theorem natural_written {i : Json.Integer} (natural : 0 ≤ i.value) {rest : Bytes}
    (ends : EndsNumeral rest) :
    Json.natural (written (.number (.integer i)) ++ rest) = .ok (.ofNat i.value.toNat, rest) := by
  obtain ⟨b, bytes, hbytes, hb⟩ := Json.encode_integerChars i.value
  obtain ⟨blank, -⟩ := Json.numeral_head hb
  have hread := Json.number_integerChars i ends
  have htext : written (.number (.integer i)) = Utf8.encode (integerChars i.value) := rfl
  rw [hbytes, List.cons_append] at hread
  rw [htext, hbytes, List.cons_append]
  unfold Json.natural
  rw [Json.skipBlank_cons blank]
  simp only [if_pos hb, hread, bind, Except.bind, if_pos natural]
  rfl

theorem toNat_countInteger {n : Nat} (h : n < 0x10000000000000000) :
    (countInteger n h).value.toNat = n := Int.toNat_natCast n

theorem natural_ofNat {n : Nat} (h : n < 0x10000000000000000) {rest : Bytes}
    (ends : EndsNumeral rest) :
    Json.natural (written (.ofNat n) ++ rest) = .ok (.ofNat n, rest) := by
  have hread := natural_written (i := countInteger n h) (Int.natCast_nonneg n) ends
  rw [toNat_countInteger] at hread
  rw [ofNat_eq h]
  exact hread

theorem natural_ofUInt64 (n : UInt64) {rest : Bytes} (ends : EndsNumeral rest) :
    Json.natural (written (.ofUInt64 n) ++ rest) = .ok (n, rest) := by
  have hread := natural_ofNat n.toNat_lt ends
  rw [UInt64.ofNat_toNat, ofNat_eq n.toNat_lt] at hread
  exact hread

theorem takes_totalRows {metadata : Metadata} {seen : List String} {total : UInt64}
    {text rest : Bytes} (unseen : "total_rows" ∉ seen)
    (hread : Json.natural text = .ok (total, rest)) :
    recordMember fields "total_rows" (metadata, seen) (0x3a :: text) =
      .ok (({ metadata with totalRows := total }, "total_rows" :: seen), rest) := by
  apply Json.recordMember_field rfl unseen
  simp only [hread, bind, Except.bind]
  rfl

/-- What is said for debugging is taken up as it is read, unless it is read as nothing. -/
theorem takes_debug {metadata : Metadata} {seen : List String} {v read : Json.Value}
    (back : ReadAs Json.fieldLevels v read) (given : read ≠ .null) (unseen : "debug" ∉ seen)
    {rest : Bytes} (ends : EndsNumeral rest) :
    recordMember fields "debug" (metadata, seen) (0x3a :: (written v ++ rest)) =
      .ok (({ metadata with debug := some read }, "debug" :: seen), rest) := by
  apply Json.recordMember_field rfl unseen
  simp only [Json.optionalValue, back rest ends, bind, Except.bind]
  cases read with
  | null => exact absurd rfl given
  | _ => rfl

/-- What the members of an object take up is what is read from its text. -/
theorem read_object {members : List (String × Json.Value)} {metadata : Metadata}
    {seen : List String}
    (takes : Takes (recordMember fields) (blank, []) members (metadata, seen)) :
    read (Json.Value.object members).bytes = .ok metadata :=
  Json.readAll_record takes

end DocViews.Metadata
