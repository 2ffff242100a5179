import DocViews.Proofs.Json.Nesting

/-!
Records in texts. What a record is read to keeps whatever its fields keep, in both of the forms
it can have, with some fields or all of them. A record that is written as an object is read to
what its members come to, one after another.
-/

namespace DocViews.Json

variable {α : Type} {fields : List (Field α)} {wanted : String} {defaults : α}

section Keeping

variable {P : α → Prop} {input : Bytes}

theorem wrongTypeAt_ne_ok {wanted : String} {a : α} (h : wrongTypeAt wanted input = .ok a) :
    False := by
  unfold wrongTypeAt at h
  split at h
  · cases h
  · cases h
  · split at h <;> cases h

variable (each : ∀ field ∈ fields, ∀ record input read, P record →
  field.read record input = .ok read → P read.1)

include each

/-- The items of an array are fields in their order, until it ends. -/
theorem recordItems_keep {first : Bool} {start : α} {read : α × Bytes} (kept : P start)
    (h : recordItems first fields start input = .ok read) : P read.1 := by
  -- The fields that are still to come get shorter, while the record is whatever it is by then.
  induction fields generalizing first start input with
  | nil =>
      obtain ⟨rest, -, h⟩ := bind_ok h
      cases h
      exact kept
  | cons field fields ih =>
      have later : ∀ {first : Bool} {next : α} {input : Bytes}, P next →
          recordItems first fields next input = .ok read → P read.1 :=
        ih fun field hfield => each field (List.mem_cons_of_mem _ hfield)
      have step := each field List.mem_cons_self
      rw [recordItems] at h
      split at h
      · cases h
      · cases h
        exact kept
      · split at h
        · obtain ⟨next, hnext, h⟩ := bind_ok h
          exact later (step _ _ _ kept hnext) h
        · split at h
          · split at h
            · cases h
            · cases h
            · obtain ⟨next, hnext, h⟩ := bind_ok h
              exact later (step _ _ _ kept hnext) h
          · cases h

/-- A member that is no field changes nothing, and one that is given twice is refused. -/
theorem recordMember_keep {key : String} {state : α × List String}
    {read : (α × List String) × Bytes} (kept : P state.1)
    (h : recordMember fields key state input = .ok read) : P read.1.1 := by
  unfold recordMember at h
  split at h
  · obtain ⟨rest, -, h⟩ := bind_ok h
    obtain ⟨rest', -, h⟩ := bind_ok h
    cases h
    exact kept
  · next field found =>
      split at h
      · unfold duplicateField at h
        split at h <;> cases h
      · obtain ⟨rest, -, h⟩ := bind_ok h
        obtain ⟨next, hnext, h⟩ := bind_ok h
        cases h
        exact each field (List.mem_of_find?_eq_some found) _ _ _ kept hnext

/-- What holds of the defaults and is kept by every field holds of every record that is read. -/
theorem record_keep {read : α × Bytes} (start : P defaults)
    (h : record wanted fields defaults input = .ok read) : P read.1 := by
  unfold record at h
  split at h
  · cases h
  · exact recordItems_keep each start h
  · obtain ⟨⟨⟨record, seen⟩, rest⟩, hmembers, h⟩ := bind_ok h
    cases h
    exact members_keep (P := fun state => P state.1)
      (fun _ _ _ _ kept hmember => recordMember_keep each kept hmember) start hmembers
  · exact absurd h wrongTypeAt_ne_ok

end Keeping

/-- An optional value that is there is not too deep, and it is never a null. -/
theorem optionalValue_nested {levels : Nat} {input : Bytes} {read : Option Value × Bytes}
    (h : optionalValue levels input = .ok read) :
    ∀ v ∈ read.1, Nested levels v ∧ v ≠ .null := by
  obtain ⟨⟨v, rest⟩, hvalue, h⟩ := bind_ok h
  have nested : Nested levels v := value_nested hvalue
  cases v with
  | null =>
      cases h
      nofun
  | _ =>
      cases h
      rintro _ ⟨⟩
      exact ⟨nested, by nofun⟩

section Written

variable {key : String} {seen : List String} {start next : α} {field : Field α}
  {members : List (String × Value)}

/-- A member under the name of a field is read by that field, the first time. -/
theorem recordMember_field (found : fields.find? (·.name == key) = some field)
    (unseen : key ∉ seen) {text rest : Bytes}
    (hread : field.read start text = .ok (next, rest)) :
    recordMember fields key (start, seen) (0x3a :: text) = .ok ((next, key :: seen), rest) := by
  unfold recordMember
  rw [found]
  simp only [if_neg unseen, colon_cons, hread, bind, Except.bind]
  rfl

theorem optionalString_written (s : String) (rest : Bytes) :
    optionalString (written (.string s) ++ rest) = .ok (some s, rest) := by
  obtain ⟨body, hbody, hread⟩ := stringRest_stringChars s rest
  have hwritten : written (.string s) ++ rest = 0x22 :: body := hbody
  have hopen : optionalString (0x22 :: body) =
      (stringRest body).bind fun read => .ok (some read.1, read.2) := rfl
  rw [hwritten, hopen, hread]
  rfl

theorem record_written (takes : Takes (recordMember fields) (defaults, []) members (next, seen))
    (rest : Bytes) :
    record wanted fields defaults (written (.object members) ++ rest) = .ok (next, rest) := by
  have hopen : ∀ rest, record wanted fields defaults (0x7b :: rest) =
      (Json.members (recordMember fields) (defaults, []) rest).bind fun read =>
        .ok (read.1.1, read.2) := fun _ => rfl
  have hwritten : written (.object members) ++ rest =
      0x7b :: (Utf8.encode (Value.membersChars members) ++ rest) := rfl
  rw [hwritten, hopen, members_written takes]
  rfl

/-- A record that is written as an object is what the whole text holds. -/
theorem readAll_record (takes : Takes (recordMember fields) (defaults, []) members (next, seen)) :
    readAll (record wanted fields defaults) (Value.object members).bytes = .ok next := by
  have hrecord : record wanted fields defaults (written (.object members) ++ []) = .ok (next, []) :=
    record_written takes []
  rw [List.append_nil] at hrecord
  exact readAll_ok hrecord

end Written

end DocViews.Json
