import DocViews.Row
import DocViews.Proofs.Metadata

/-!
Rows and metadata that were read from a text are read from their own texts as they are, whatever
the first text looked like: with fields left out or null, with members that are no fields, or as
an array. Their own texts are objects with one level more than what they hold, and reading has
left that level to spare. The metadata could hold a null, which would be lost; but no text makes
them hold one.
-/

namespace DocViews

open Json (Nested ReadBack Takes EndsNumeral written recordMember fieldLevels)

namespace Row

/-- Whether the key and the value leave a level of nesting to the row. -/
def Shallow (row : Row) : Prop := Nested fieldLevels row.key ∧ Nested fieldLevels row.value

theorem fields_shallow : ∀ field ∈ fields, ∀ (row : Row) (input : Bytes) (read : Row × Bytes),
    row.Shallow → field.read row input = .ok read → read.1.Shallow := by
  intro field hfield row input read shallow h
  simp only [fields, List.mem_cons, List.not_mem_nil, or_false] at hfield
  rcases hfield with rfl | rfl | rfl
  · obtain ⟨id, -, h⟩ := Json.bind_ok h
    cases h
    exact shallow
  · obtain ⟨key, hkey, h⟩ := Json.bind_ok h
    cases h
    exact ⟨Json.value_nested hkey, shallow.2⟩
  · obtain ⟨value, hvalue, h⟩ := Json.bind_ok h
    cases h
    exact ⟨shallow.1, Json.value_nested hvalue⟩

theorem shallow_of_read {text : Bytes} {row : Row} (h : read text = .ok row) : row.Shallow := by
  obtain ⟨rest, hrecord⟩ := Json.readAll_inv h
  have start : blank.Shallow := ⟨.null, .null⟩
  exact Json.record_keep fields_shallow start hrecord

section Written

variable {row : Row} {seen : List String} {rest : Bytes}

theorem takes_id (id : String) (unseen : "id" ∉ seen) :
    recordMember fields "id" (row, seen) (0x3a :: (written (.string id) ++ rest)) =
      .ok (({ row with id := some id }, "id" :: seen), rest) := by
  apply Json.recordMember_field rfl unseen
  simp only [Json.optionalString_written, bind, Except.bind]
  rfl

/-- The key and the value are taken up together, whatever stands before them. -/
theorem takes_keyValue {key value : Json.Value} (hkey : ReadBack fieldLevels key)
    (hvalue : ReadBack fieldLevels value) (unseen : "key" ∉ seen ∧ "value" ∉ seen) :
    Takes (recordMember fields) (row, seen) [("key", key), ("value", value)]
      (⟨row.id, key, value⟩, "value" :: "key" :: seen) := by
  have hseen : "value" ∉ "key" :: seen := by simp [unseen.2]
  have takesKey : ∀ rest, EndsNumeral rest →
      recordMember fields "key" (row, seen) (0x3a :: (written key ++ rest)) =
        .ok ((⟨row.id, key, row.value⟩, "key" :: seen), rest) := by
    intro rest ends
    apply Json.recordMember_field rfl unseen.1
    simp only [hkey rest ends, bind, Except.bind]
    rfl
  have takesValue : ∀ rest, EndsNumeral rest →
      recordMember fields "value" (⟨row.id, key, row.value⟩, "key" :: seen)
          (0x3a :: (written value ++ rest)) =
        .ok ((⟨row.id, key, value⟩, "value" :: "key" :: seen), rest) := by
    intro rest ends
    apply Json.recordMember_field rfl hseen
    simp only [hvalue rest ends, bind, Except.bind]
    rfl
  exact .cons takesKey (.cons takesValue .nil)

/-- A row is read back if its key and its value are, with an id or without one. -/
theorem read_toValue (hkey : ReadBack fieldLevels row.key)
    (hvalue : ReadBack fieldLevels row.value) : read row.toValue.bytes = .ok row := by
  obtain ⟨id, key, value⟩ := row
  cases id with
  | none => exact Json.readAll_record (takes_keyValue hkey hvalue (by decide))
  | some id =>
      have takes : Takes (recordMember fields) (blank, [])
          [("id", .string id), ("key", key), ("value", value)]
          (⟨some id, key, value⟩, ["value", "key", "id"]) :=
        .cons (fun _ _ => takes_id id (by decide)) (takes_keyValue hkey hvalue (by decide))
      exact Json.readAll_record takes

end Written

end Row

namespace Metadata

/-- Whether what is said for debugging leaves a level of nesting to the metadata, and is
something. -/
def Shallow (metadata : Metadata) : Prop :=
  ∀ debug ∈ metadata.debug, Nested fieldLevels debug ∧ debug ≠ .null

theorem fields_shallow : ∀ field ∈ fields, ∀ (metadata : Metadata) (input : Bytes)
    (read : Metadata × Bytes), metadata.Shallow → field.read metadata input = .ok read →
    read.1.Shallow := by
  intro field hfield metadata input read shallow h
  simp only [fields, List.mem_cons, List.not_mem_nil, or_false] at hfield
  rcases hfield with rfl | rfl
  · obtain ⟨total, -, h⟩ := Json.bind_ok h
    cases h
    exact shallow
  · obtain ⟨debug, hdebug, h⟩ := Json.bind_ok h
    cases h
    exact Json.optionalValue_nested hdebug

theorem shallow_of_read {text : Bytes} {metadata : Metadata} (h : read text = .ok metadata) :
    metadata.Shallow := by
  obtain ⟨rest, hrecord⟩ := Json.readAll_inv h
  have start : blank.Shallow := nofun
  exact Json.record_keep fields_shallow start hrecord

section Written

variable {metadata : Metadata} {rest : Bytes}

theorem takes_total (total : UInt64) (ends : EndsNumeral rest) :
    recordMember fields "total_rows" (blank, []) (0x3a :: (written (.ofUInt64 total) ++ rest)) =
      .ok ((⟨total, none⟩, ["total_rows"]), rest) :=
  takes_totalRows (by decide) (natural_ofUInt64 total ends)

/-- Metadata are read back if what is said for debugging is, and is something. -/
theorem read_toValue
    (back : ∀ debug ∈ metadata.debug, ReadBack fieldLevels debug ∧ debug ≠ .null) :
    read metadata.toValue.bytes = .ok metadata := by
  obtain ⟨total, debug⟩ := metadata
  cases debug with
  | none => exact read_object (.cons (fun _ ends => takes_total total ends) .nil)
  | some debug =>
      obtain ⟨hdebug, given⟩ := back debug rfl
      have takes : Takes (recordMember fields) (blank, [])
          [("total_rows", .ofUInt64 total), ("debug", debug)]
          (⟨total, some debug⟩, ["debug", "total_rows"]) :=
        .cons (fun _ ends => takes_total total ends)
          (.cons (fun _ ends => takes_debug hdebug given (by decide) ends) .nil)
      exact read_object takes

end Written

end Metadata

/-- Rows and metadata are stable. Whatever text they were read from, they are what is read from
their own text, if each value that they hold is what its own text holds. That it is so inside of
them, too, a level deeper, follows. The metadata never hold a null: it would be read as nothing. -/
theorem read_stable :
    (∀ (text : Bytes) (row : Row), Row.read text = .ok row →
      Json.read row.key.bytes = .ok row.key → Json.read row.value.bytes = .ok row.value →
      Row.read row.toValue.bytes = .ok row) ∧
    ∀ (text : Bytes) (metadata : Metadata), Metadata.read text = .ok metadata →
      metadata.debug ≠ some .null ∧
      ((∀ debug ∈ metadata.debug, Json.read debug.bytes = .ok debug) →
        Metadata.read metadata.toValue.bytes = .ok metadata) := by
  refine ⟨?_, ?_⟩
  · intro text row hread hkey hvalue
    -- The level that the row takes is one that its key and value do not need.
    obtain ⟨key, value⟩ := Row.shallow_of_read hread
    exact Row.read_toValue (key.readAs_of_read hkey) (value.readAs_of_read hvalue)
  · intro text metadata hread
    have shallow := Metadata.shallow_of_read hread
    refine ⟨fun null => (shallow _ null).2 rfl, fun survives => ?_⟩
    apply Metadata.read_toValue
    intro debug hdebug
    obtain ⟨nested, given⟩ := shallow debug hdebug
    exact ⟨nested.readAs_of_read (survives debug hdebug), given⟩

/-- With no field, with nulls and a member that is none, and as arrays. -/
theorem read_stable_shapes :
    (Row.read (utf8 "\x7b\x7d") = .ok .blank ∧
      Row.read (utf8 "\x7b\"id\":null,\"more\":[1],\"key\":null\x7d") = .ok .blank ∧
      Row.read (utf8 "[null]") = .ok .blank ∧
      Row.read (Row.toValue .blank).bytes = .ok .blank) ∧
    (∃ row : Row, row.id = some "a" ∧ Row.read (utf8 "[\"a\",[1]]") = .ok row ∧
      Row.read row.toValue.bytes = .ok row) ∧
    (Metadata.read (utf8 "\x7b\"debug\":null\x7d") = .ok .blank ∧
      Metadata.read (Metadata.toValue .blank).bytes = .ok .blank) ∧
    ∃ metadata : Metadata, metadata.totalRows = 3 ∧ metadata.debug.isSome ∧
      Metadata.read (utf8 "[3,\x7b\"node\":\"n1\"\x7d]") = .ok metadata ∧
      Metadata.read metadata.toValue.bytes = .ok metadata := by
  obtain ⟨rows, metadata⟩ := read_stable
  have nothing : Row.read (utf8 "\x7b\x7d") = .ok .blank := rfl
  have items : Row.read (utf8 "[\"a\",[1]]") = .ok ⟨some "a", .array [.ofNat 1], .null⟩ := rfl
  have null : Metadata.read (utf8 "\x7b\"debug\":null\x7d") = .ok .blank := rfl
  have object : Metadata.read (utf8 "[3,\x7b\"node\":\"n1\"\x7d]") =
      .ok ⟨3, some (.object [("node", .string "n1")])⟩ := rfl
  have survives : Json.read (Json.Value.object [("node", .string "n1")]).bytes =
      .ok (.object [("node", .string "n1")]) := rfl
  obtain ⟨-, stable⟩ := metadata _ _ null
  obtain ⟨-, stable'⟩ := metadata _ _ object
  refine ⟨⟨nothing, rfl, rfl, rows _ _ nothing rfl rfl⟩,
    ⟨_, rfl, items, rows _ _ items rfl rfl⟩, ⟨null, stable nofun⟩, _, rfl, rfl, object, ?_⟩
  apply stable'
  rintro _ ⟨⟩
  exact survives

end DocViews
