import DocViews.Proofs.Json.Nesting

/-!
How deep a value is nested is all that can keep its text from being read. The reader either
takes the whole text of a value, whatever follows on it, or runs out of levels inside of it.
-/

namespace DocViews.Json

/-- Whether the reader runs out of levels inside the text of a value. -/
def TooDeep (levels : Nat) (v : Value) : Prop :=
  ∀ rest, EndsNumeral rest →
    ∃ left, value levels (written v ++ rest) = .error ⟨.tooDeep, left⟩

theorem TooDeep.read {v : Value} (deep : TooDeep maxLevels v) :
    ∃ position, Json.read v.bytes = .error ⟨.tooDeep, some position⟩ := by
  obtain ⟨left, hvalue⟩ := deep [] endsNumeral_nil
  rw [List.append_nil] at hvalue
  refine ⟨positionAt v.bytes (v.bytes.length - left), ?_⟩
  have htext : value maxLevels v.bytes = .error ⟨.tooDeep, left⟩ := hvalue
  simp only [Json.read, readAll, htext]
  rfl

section Members

variable {levels : Nat}

/-- Items are read one after another, up to the first one that is too deep. -/
theorem laterItems_readAs_or_tooDeep {items : List Value}
    (each : ∀ item ∈ items, (∃ read, ReadAs levels item read) ∨ TooDeep levels item) :
    (∃ reads, List.Forall₂ (ReadAs levels) items reads) ∨
      ∀ rest bound : Bytes,
        (Utf8.encode (Value.laterItemsChars items) ++ rest).length ≤ bound.length →
        ∃ left, laterItems (value levels) bound
          (Utf8.encode (Value.laterItemsChars items) ++ rest) = .error ⟨.tooDeep, left⟩ := by
  induction items with
  | nil => exact .inl ⟨[], .nil⟩
  | cons item items ih =>
      have others := ih fun item hitem => each item (List.mem_cons_of_mem _ hitem)
      rcases each item List.mem_cons_self with ⟨read, first⟩ | deep
      · rcases others with ⟨reads, back⟩ | later
        · exact .inl ⟨read :: reads, .cons first back⟩
        · refine .inr fun rest bound h => ?_
          obtain ⟨further, enough, hlater⟩ := laterItems_cons (value levels) item items rest bound h
          obtain ⟨left, hleft⟩ := later rest further enough
          refine ⟨left, ?_⟩
          rw [hlater, first _ (endsNumeral_laterItems items rest)]
          simp only [bind, Except.bind, hleft]
      · refine .inr fun rest bound h => ?_
        obtain ⟨further, -, hlater⟩ := laterItems_cons (value levels) item items rest bound h
        obtain ⟨left, hleft⟩ := deep _ (endsNumeral_laterItems items rest)
        exact ⟨left, by rw [hlater, hleft]; rfl⟩

theorem items_readAs_or_tooDeep {items : List Value}
    (each : ∀ item ∈ items, (∃ read, ReadAs levels item read) ∨ TooDeep levels item) :
    (∃ reads, List.Forall₂ (ReadAs levels) items reads) ∨ TooDeep (levels + 1) (.array items) := by
  have hopen (rest : Bytes) : value (levels + 1) (written (.array items) ++ rest) =
      (Json.items (value levels) (Utf8.encode (Value.itemsChars items) ++ rest)).bind
        fun read => .ok (.array read.1, read.2) := rfl
  cases items with
  | nil => exact .inl ⟨[], .nil⟩
  | cons item items =>
      have others := laterItems_readAs_or_tooDeep fun item hitem =>
        each item (List.mem_cons_of_mem _ hitem)
      rcases each item List.mem_cons_self with ⟨read, first⟩ | deep
      · rcases others with ⟨reads, back⟩ | later
        · exact .inl ⟨read :: reads, .cons first back⟩
        · refine .inr fun rest _ => ?_
          obtain ⟨left, hleft⟩ := later rest _ (Nat.le_refl _)
          refine ⟨left, ?_⟩
          rw [hopen, items_cons, first _ (endsNumeral_laterItems items rest)]
          simp only [bind, Except.bind, hleft]
      · refine .inr fun rest _ => ?_
        obtain ⟨left, hleft⟩ := deep _ (endsNumeral_laterItems items rest)
        exact ⟨left, by rw [hopen, items_cons, hleft]; rfl⟩

/-- Members are read one after another, up to the first one whose value is too deep. -/
theorem laterMembers_readAs_or_tooDeep {members : List (String × Value)}
    (each : ∀ member ∈ members,
      (∃ read, ReadAs levels member.2 read) ∨ TooDeep levels member.2) :
    (∃ reads, List.Forall₂ (MemberReadAs levels) members reads) ∨
      ∀ (before : Dictionary Value) (rest bound : Bytes),
        (Utf8.encode (Value.laterMembersChars members) ++ rest).length ≤ bound.length →
        ∃ left, laterMembers (memberOf (value levels)) bound before
          (Utf8.encode (Value.laterMembersChars members) ++ rest) = .error ⟨.tooDeep, left⟩ := by
  induction members with
  | nil => exact .inl ⟨[], .nil⟩
  | cons member members ih =>
      obtain ⟨key, v⟩ := member
      have others := ih fun member hmember => each member (List.mem_cons_of_mem _ hmember)
      rcases each (key, v) List.mem_cons_self with ⟨read, first⟩ | deep
      · rcases others with ⟨reads, back⟩ | later
        · exact .inl ⟨(key, read) :: reads, .cons ⟨rfl, first⟩ back⟩
        · refine .inr fun before rest bound h => ?_
          obtain ⟨further, enough, hlater⟩ :=
            laterMembers_cons (memberOf (value levels)) before key v members rest bound h
          obtain ⟨left, hleft⟩ := later (before.insert key read) rest further enough
          refine ⟨left, ?_⟩
          rw [hlater, memberOf_written, first _ (endsNumeral_laterMembers members rest)]
          exact hleft
      · refine .inr fun before rest bound h => ?_
        obtain ⟨further, -, hlater⟩ :=
          laterMembers_cons (memberOf (value levels)) before key v members rest bound h
        obtain ⟨left, hleft⟩ := deep _ (endsNumeral_laterMembers members rest)
        refine ⟨left, ?_⟩
        rw [hlater, memberOf_written, hleft]
        rfl

theorem members_readAs_or_tooDeep {members : List (String × Value)}
    (each : ∀ member ∈ members,
      (∃ read, ReadAs levels member.2 read) ∨ TooDeep levels member.2) :
    (∃ reads, List.Forall₂ (MemberReadAs levels) members reads) ∨
      TooDeep (levels + 1) (.object members) := by
  have hopen (rest : Bytes) : value (levels + 1) (written (.object members) ++ rest) =
      (Json.members (memberOf (value levels)) .empty
        (Utf8.encode (Value.membersChars members) ++ rest)).bind
          fun read => .ok (.object read.1.pairs, read.2) := rfl
  cases members with
  | nil => exact .inl ⟨[], .nil⟩
  | cons member members =>
      obtain ⟨key, v⟩ := member
      have others := laterMembers_readAs_or_tooDeep fun member hmember =>
        each member (List.mem_cons_of_mem _ hmember)
      rcases each (key, v) List.mem_cons_self with ⟨read, first⟩ | deep
      · rcases others with ⟨reads, back⟩ | later
        · exact .inl ⟨(key, read) :: reads, .cons ⟨rfl, first⟩ back⟩
        · refine .inr fun rest _ => ?_
          obtain ⟨left, hleft⟩ :=
            later (Dictionary.insert key read .empty) rest _ (Nat.le_refl _)
          refine ⟨left, ?_⟩
          rw [hopen, members_cons, memberOf_written,
            first _ (endsNumeral_laterMembers members rest)]
          simp only [bind, Except.bind, hleft]
      · refine .inr fun rest _ => ?_
        obtain ⟨left, hleft⟩ := deep _ (endsNumeral_laterMembers members rest)
        refine ⟨left, ?_⟩
        rw [hopen, members_cons, memberOf_written, hleft]
        rfl

end Members

/-- The text of a value is read, or it is too deep for the reader. -/
theorem readAs_or_tooDeep (levels : Nat) (v : Value) :
    (∃ read, ReadAs levels v read) ∨ TooDeep levels v := by
  induction v using Value.induction generalizing levels with
  | null => exact .inl ⟨_, readBack_null⟩
  | bool b => exact .inl ⟨_, readBack_bool b⟩
  | number n => exact .inl ⟨_, readAs_number fun _ => number_reread n⟩
  | string s => exact .inl ⟨_, readBack_string s⟩
  | array items ih =>
      cases levels with
      | zero => exact .inr fun rest _ => ⟨_, rfl⟩
      | succ levels =>
          rcases items_readAs_or_tooDeep fun item hitem => ih item hitem levels with
            ⟨reads, back⟩ | deep
          · exact .inl ⟨_, readAs_array back⟩
          · exact .inr deep
  | object members ih =>
      cases levels with
      | zero => exact .inr fun rest _ => ⟨_, rfl⟩
      | succ levels =>
          rcases members_readAs_or_tooDeep fun member hmember => ih member hmember levels with
            ⟨reads, back⟩ | deep
          · exact .inl ⟨_, readAs_object back⟩
          · exact .inr deep

end DocViews.Json
