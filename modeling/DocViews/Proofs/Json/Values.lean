import DocViews.Json.Reader
import DocViews.Proofs.Dictionary
import DocViews.Proofs.Json.Floats
import DocViews.Proofs.Json.Strings
import Mathlib.Data.List.Forall2

/-!
Values without floats survive being written and read, up to the depth that the reader
admits. Floats are left out because the reader rounds twice. What is said of arrays and
objects holds for items and members that are read as others, too.
-/

namespace DocViews

namespace Json

/-- An object whose members are given in order is made of them as they are. -/
theorem ofMembers_of_keys {members : List (String × Value)} (keys : List String)
    (h : members.map (·.1) = keys) (ascending : keys.Pairwise (· < ·)) :
    Value.ofMembers members = .object members :=
  congrArg Value.object (Dictionary.pairs_ofPairs (Pairs.ascending_of_keys keys h ascending))

theorem ofMembers_pairs (members : Dictionary Value) :
    Value.ofMembers members.pairs = .object members.pairs :=
  congrArg Value.object (Dictionary.pairs_ofPairs members.ascending)

/-- A value without floats, with at most so many levels of arrays and objects, and with
dictionaries for its objects. -/
inductive Exact : Nat → Value → Prop where
  | null {levels : Nat} : Exact levels .null
  | bool {levels : Nat} (b : Bool) : Exact levels (.bool b)
  | integer {levels : Nat} (n : Integer) : Exact levels (.number (.integer n))
  | string {levels : Nat} (s : String) : Exact levels (.string s)
  | array {levels : Nat} {items : List Value} (exact : ∀ item ∈ items, Exact levels item) :
      Exact (levels + 1) (.array items)
  | object {levels : Nat} {members : Dictionary Value}
      (exact : ∀ member ∈ members.pairs, Exact levels member.2) :
      Exact (levels + 1) (.object members.pairs)

/-- The text of a value. -/
def written (v : Value) : Bytes := Utf8.encode v.chars

/-- A written number begins with a minus sign or a digit. -/
theorem encode_numberChars (n : Number) :
    ∃ b bytes, Utf8.encode n.chars = b :: bytes ∧ (b = 0x2d ∨ isDigit b) := by
  cases n with
  | integer n => exact encode_integerChars n.value
  | float x => exact encode_floatChars x

/-- A byte with which a value can begin. -/
def BeginsValue (b : UInt8) : Prop := isBlankByte b = false ∧ b ≠ 0x5d

/-- The first byte of a numeral is no other that a value can begin with. -/
theorem numeral_head {b : UInt8} (h : b = 0x2d ∨ isDigit b) :
    isBlankByte b = false ∧
      ∀ c ∈ [0x22, 0x5b, 0x5d, 0x66, 0x6e, 0x74, 0x7b], b ≠ (c : UInt8) := by
  constructor
  · rcases h with rfl | h
    · decide
    · simp only [isDigit, Bool.and_eq_true, decide_eq_true_eq, UInt8.le_iff_toNat_le,
        UInt8.reduceToNat] at h
      simp only [isBlankByte, Bool.or_eq_false_iff, beq_eq_false_iff_ne, ne_eq,
        ← UInt8.toNat_inj, UInt8.reduceToNat]
      omega
  · rintro c hc rfl
    simp only [List.mem_cons, List.not_mem_nil, or_false] at hc
    rcases hc with rfl | rfl | rfl | rfl | rfl | rfl | rfl <;> exact absurd h (by decide)

theorem written_head (v : Value) : ∃ b bytes, written v = b :: bytes ∧ BeginsValue b := by
  cases v with
  | null => exact ⟨0x6e, _, rfl, rfl, by decide⟩
  | bool b =>
      cases b with
      | true => exact ⟨0x74, _, rfl, rfl, by decide⟩
      | false => exact ⟨0x66, _, rfl, rfl, by decide⟩
  | number n =>
      obtain ⟨b, bytes, hbytes, hb⟩ := encode_numberChars n
      obtain ⟨blank, distinct⟩ := numeral_head hb
      exact ⟨b, bytes, hbytes, blank, distinct 0x5d (by decide)⟩
  | string s =>
      obtain ⟨body, hbody, -⟩ := stringRest_stringChars s []
      rw [List.append_nil] at hbody
      exact ⟨0x22, body, hbody, rfl, by decide⟩
  | array items => exact ⟨0x5b, _, rfl, rfl, by decide⟩
  | object members => exact ⟨0x7b, _, rfl, rfl, by decide⟩

theorem skipBlank_cons {b : UInt8} (h : isBlankByte b = false) (rest : Bytes) :
    skipBlank (b :: rest) = b :: rest := by
  rw [skipBlank, List.dropWhile_cons, h]
  rfl

theorem endsNumeral_cons {b : UInt8} (h : b = 0x2c ∨ b = 0x5d ∨ b = 0x7d) (rest : Bytes) :
    EndsNumeral (b :: rest) := by
  intro b' hb
  cases hb
  rcases h with rfl | rfl | rfl <;> decide

theorem laterItems_comma {α : Type} (item : Bytes → Except Failure (α × Bytes)) {b : UInt8}
    (h : BeginsValue b) (spare : UInt8) (bound rest : Bytes) :
    laterItems item (spare :: bound) (0x2c :: b :: rest) = (do
      let (first, rest) ← item (b :: rest)
      let (more, rest) ← laterItems item bound rest
      pure (first :: more, rest)) := by
  have hcomma : skipBlank (0x2c :: b :: rest) = 0x2c :: b :: rest := skipBlank_cons rfl _
  rw [laterItems]
  simp only [hcomma, skipBlank_cons h.1]
  split
  · next heq => cases heq
  · next heq => exact absurd (List.cons.inj heq).1 h.2
  · rfl

theorem items_first {α : Type} (item : Bytes → Except Failure (α × Bytes)) {b : UInt8}
    (h : BeginsValue b) (rest : Bytes) :
    items item (b :: rest) = (do
      let (first, rest) ← item (b :: rest)
      let (more, rest) ← laterItems item rest rest
      pure (first :: more, rest)) := by
  rw [items]
  simp only [skipBlank_cons h.1]
  split
  · next heq => cases heq
  · next heq => exact absurd (List.cons.inj heq).1 h.2
  · rfl

section Items

variable {levels : Nat}

/-- Whether the text of a value is read as this one, from before whatever ends a numeral. -/
def ReadAs (levels : Nat) (v read : Value) : Prop :=
  ∀ rest, EndsNumeral rest → value levels (written v ++ rest) = .ok (read, rest)

/-- Whether a value is read back from its text. -/
def ReadBack (levels : Nat) (v : Value) : Prop := ReadAs levels v v

theorem endsNumeral_laterItems (items : List Value) (rest : Bytes) :
    EndsNumeral (Utf8.encode (Value.laterItemsChars items) ++ rest) := by
  cases items with
  | nil => exact endsNumeral_cons (.inr (.inl rfl)) rest
  | cons item items => exact endsNumeral_cons (.inl rfl) _

/-- After a comma, the text of an item is read, and then the texts of the items behind it. The
bound loses one byte for each item, and the text loses the comma at least. -/
theorem laterItems_cons {α : Type} (reader : Bytes → Except Failure (α × Bytes)) (item : Value)
    (items : List Value) (rest bound : Bytes)
    (h : (Utf8.encode (Value.laterItemsChars (item :: items)) ++ rest).length ≤ bound.length) :
    ∃ further : Bytes,
      (Utf8.encode (Value.laterItemsChars items) ++ rest).length ≤ further.length ∧
      laterItems reader bound (Utf8.encode (Value.laterItemsChars (item :: items)) ++ rest) = (do
        let (first, rest) ←
          reader (written item ++ (Utf8.encode (Value.laterItemsChars items) ++ rest))
        let (more, rest) ← laterItems reader further rest
        pure (first :: more, rest)) := by
  obtain ⟨b, bytes, hwritten, hbegins⟩ := written_head item
  have htext : Utf8.encode (Value.laterItemsChars (item :: items)) ++ rest =
      0x2c :: (written item ++ (Utf8.encode (Value.laterItemsChars items) ++ rest)) := by
    rw [Value.laterItemsChars, Utf8.encode_append, Utf8.encode_cons, List.append_assoc,
      List.append_assoc]
    rfl
  rw [htext] at h ⊢
  cases bound with
  | nil => simp at h
  | cons _ further =>
      refine ⟨further, ?_, ?_⟩
      · simp only [List.length_cons, List.length_append] at h ⊢
        omega
      · rw [hwritten, List.cons_append, laterItems_comma _ hbegins]

theorem laterItems_written {items reads : List Value}
    (back : List.Forall₂ (ReadAs levels) items reads) (rest bound : Bytes)
    (h : (Utf8.encode (Value.laterItemsChars items) ++ rest).length ≤ bound.length) :
    laterItems (value levels) bound (Utf8.encode (Value.laterItemsChars items) ++ rest) =
      .ok (reads, rest) := by
  induction back generalizing bound with
  | nil =>
      cases bound with
      | nil => simp [Value.laterItemsChars, String.utf8EncodeChar] at h
      | cons _ bound => rfl
  | @cons item read items reads first _ ih =>
      obtain ⟨further, enough, hlater⟩ := laterItems_cons (value levels) item items rest bound h
      rw [hlater, first _ (endsNumeral_laterItems items rest)]
      simp only [bind, Except.bind, ih further enough]
      rfl

theorem items_cons {α : Type} (reader : Bytes → Except Failure (α × Bytes)) (item : Value)
    (items : List Value) (rest : Bytes) :
    Json.items reader (Utf8.encode (Value.itemsChars (item :: items)) ++ rest) = (do
      let (first, rest) ←
        reader (written item ++ (Utf8.encode (Value.laterItemsChars items) ++ rest))
      let (more, rest) ← laterItems reader rest rest
      pure (first :: more, rest)) := by
  obtain ⟨b, bytes, hwritten, hbegins⟩ := written_head item
  have htext : Utf8.encode (Value.itemsChars (item :: items)) ++ rest =
      written item ++ (Utf8.encode (Value.laterItemsChars items) ++ rest) := by
    rw [Value.itemsChars, Utf8.encode_append, List.append_assoc]
    rfl
  rw [htext, hwritten, List.cons_append, items_first _ hbegins]

theorem items_written {items reads : List Value}
    (back : List.Forall₂ (ReadAs levels) items reads) (rest : Bytes) :
    Json.items (value levels) (Utf8.encode (Value.itemsChars items) ++ rest) =
      .ok (reads, rest) := by
  cases back with
  | nil => rfl
  | @cons item read items reads first others =>
      have hmore := laterItems_written others rest _ (Nat.le_refl _)
      rw [items_cons, first _ (endsNumeral_laterItems items rest)]
      simp only [bind, Except.bind, hmore]
      rfl

end Items

/-- Whether these members take a state to another one, each being read from behind its key. -/
inductive Takes {α : Type} (member : String → α → Bytes → Except Failure (α × Bytes)) :
    α → List (String × Value) → α → Prop where
  | nil {state : α} : Takes member state [] state
  | cons {state next last : α} {key : String} {v : Value} {more : List (String × Value)}
      (first : ∀ rest, EndsNumeral rest →
        member key state (0x3a :: (written v ++ rest)) = .ok (next, rest))
      (others : Takes member next more last) : Takes member state ((key, v) :: more) last

section Members

variable {α : Type} {member : String → α → Bytes → Except Failure (α × Bytes)} {state last : α}

theorem endsNumeral_laterMembers (members : List (String × Value)) (rest : Bytes) :
    EndsNumeral (Utf8.encode (Value.laterMembersChars members) ++ rest) := by
  cases members with
  | nil => exact endsNumeral_cons (.inr (.inr rfl)) rest
  | cons item items => exact endsNumeral_cons (.inl rfl) _

theorem laterMembers_comma (spare : UInt8) (bound rest : Bytes) :
    laterMembers member (spare :: bound) state (0x2c :: 0x22 :: rest) = (do
      let (key, rest) ← stringRest rest
      let (state, rest) ← member key state rest
      laterMembers member bound state rest) := rfl

/-- After a comma, a key is read, and then what stands behind it is read as its member. -/
theorem laterMembers_cons (member : String → α → Bytes → Except Failure (α × Bytes)) (state : α)
    (key : String) (v : Value) (more : List (String × Value)) (rest bound : Bytes)
    (h : (Utf8.encode (Value.laterMembersChars ((key, v) :: more)) ++ rest).length ≤
      bound.length) :
    ∃ further : Bytes,
      (Utf8.encode (Value.laterMembersChars more) ++ rest).length ≤ further.length ∧
      laterMembers member bound state
          (Utf8.encode (Value.laterMembersChars ((key, v) :: more)) ++ rest) = (do
        let (state, rest) ← member key state
          (0x3a :: (written v ++ (Utf8.encode (Value.laterMembersChars more) ++ rest)))
        laterMembers member further state rest) := by
  obtain ⟨body, hbody, hkey⟩ := stringRest_stringChars key
    (0x3a :: (written v ++ (Utf8.encode (Value.laterMembersChars more) ++ rest)))
  have htext : Utf8.encode (Value.laterMembersChars ((key, v) :: more)) ++ rest =
      0x2c :: 0x22 :: body := by
    rw [← hbody]
    simp only [Value.laterMembersChars, Utf8.encode_append, Utf8.encode_cons,
      List.append_assoc, List.cons_append]
    rfl
  have hlength : (Utf8.encode (Value.laterMembersChars more) ++ rest).length ≤ body.length := by
    have hlength := congrArg List.length hbody
    have hquote : 0 < (Utf8.encode (stringChars key)).length := Nat.succ_pos _
    simp only [List.length_cons, List.length_append] at hlength ⊢
    omega
  rw [htext] at h ⊢
  cases bound with
  | nil => simp at h
  | cons _ further =>
      refine ⟨further, ?_, ?_⟩
      · simp only [List.length_cons] at h
        omega
      · rw [laterMembers_comma, hkey]
        rfl

theorem laterMembers_written {members : List (String × Value)}
    (takes : Takes member state members last) (rest bound : Bytes)
    (h : (Utf8.encode (Value.laterMembersChars members) ++ rest).length ≤ bound.length) :
    laterMembers member bound state (Utf8.encode (Value.laterMembersChars members) ++ rest) =
      .ok (last, rest) := by
  induction takes generalizing bound with
  | nil =>
      cases bound with
      | nil => simp [Value.laterMembersChars, String.utf8EncodeChar] at h
      | cons _ bound => rfl
  | @cons state next last key v more first _ ih =>
      obtain ⟨further, enough, hlater⟩ := laterMembers_cons member state key v more rest bound h
      rw [hlater, first _ (endsNumeral_laterMembers more rest)]
      exact ih further enough

theorem members_cons (member : String → α → Bytes → Except Failure (α × Bytes)) (state : α)
    (key : String) (v : Value) (more : List (String × Value)) (rest : Bytes) :
    Json.members member state (Utf8.encode (Value.membersChars ((key, v) :: more)) ++ rest) = (do
      let (state, rest) ← member key state
        (0x3a :: (written v ++ (Utf8.encode (Value.laterMembersChars more) ++ rest)))
      laterMembers member rest state rest) := by
  obtain ⟨body, hbody, hkey⟩ := stringRest_stringChars key
    (0x3a :: (written v ++ (Utf8.encode (Value.laterMembersChars more) ++ rest)))
  have htext : Utf8.encode (Value.membersChars ((key, v) :: more)) ++ rest = 0x22 :: body := by
    rw [← hbody]
    simp only [Value.membersChars, Utf8.encode_append, Utf8.encode_cons,
      List.append_assoc, List.cons_append]
    rfl
  have hopen : ∀ body, Json.members member state (0x22 :: body) = (do
      let (key, rest) ← stringRest body
      let (state, rest) ← member key state rest
      laterMembers member rest state rest) := fun _ => rfl
  rw [htext, hopen, hkey]
  rfl

theorem members_written {members : List (String × Value)}
    (takes : Takes member state members last) (rest : Bytes) :
    Json.members member state (Utf8.encode (Value.membersChars members) ++ rest) =
      .ok (last, rest) := by
  cases takes with
  | nil => rfl
  | @cons _ next _ key v more first others =>
      rw [members_cons, first _ (endsNumeral_laterMembers more rest)]
      exact laterMembers_written others rest _ (Nat.le_refl _)

end Members

theorem colon_cons (rest : Bytes) : colon (0x3a :: rest) = .ok rest := rfl

/-- Whether the member of an object is read as this one, which has the same key. -/
def MemberReadAs (levels : Nat) (member read : String × Value) : Prop :=
  member.1 = read.1 ∧ ReadAs levels member.2 read.2

/-- A member is read from behind its key if its value is, and put under that key. -/
theorem memberOf_written {levels : Nat} (key : String) (before : Dictionary Value) (v : Value)
    (rest : Bytes) :
    memberOf (value levels) key before (0x3a :: (written v ++ rest)) =
      (value levels (written v ++ rest)).bind fun read => .ok (before.insert key read.1, read.2) :=
  rfl

/-- The members of an object are put into a dictionary one after another. -/
theorem takes_object {levels : Nat} {members reads : List (String × Value)}
    (back : List.Forall₂ (MemberReadAs levels) members reads) (before : Dictionary Value) :
    Takes (memberOf (value levels)) before members
      (reads.foldl (fun d pair => d.insert pair.1 pair.2) before) := by
  induction back generalizing before with
  | nil => exact .nil
  | @cons member read members reads first _ ih =>
      obtain ⟨key, v⟩ := member
      obtain ⟨key', v'⟩ := read
      obtain ⟨rfl, back⟩ : key = key' ∧ ReadAs levels v v' := first
      refine .cons (fun rest ends => ?_) (ih (before.insert key v'))
      rw [memberOf_written, back rest ends]
      rfl

/-- A value that begins with no bracket is a scalar. -/
theorem value_scalar {levels : Nat} {b : UInt8} {rest : Bytes} (blank : isBlankByte b = false)
    (list : b ≠ 0x5b) (object : b ≠ 0x7b) : value levels (b :: rest) = scalar (b :: rest) := by
  unfold value
  rw [skipBlank_cons blank]
  split
  · next heq => exact absurd (List.cons.inj heq).1 list
  · next heq => exact absurd (List.cons.inj heq).1 object
  · next heq => exact absurd (List.cons.inj heq).1 list
  · next heq => exact absurd (List.cons.inj heq).1 object
  · rfl

theorem scalar_number {b : UInt8} {rest : Bytes} (h : b = 0x2d ∨ isDigit b) :
    scalar (b :: rest) = (do
      let (n, rest) ← number (b :: rest)
      pure (.number n, rest)) := by
  have distinct := (numeral_head h).2
  unfold scalar
  split
  · next heq => cases heq
  · next heq => exact absurd (List.cons.inj heq).1 (distinct 0x6e (by decide))
  · next heq => exact absurd (List.cons.inj heq).1 (distinct 0x74 (by decide))
  · next heq => exact absurd (List.cons.inj heq).1 (distinct 0x66 (by decide))
  · next heq => exact absurd (List.cons.inj heq).1 (distinct 0x22 (by decide))
  · next heq =>
      obtain ⟨rfl, rfl⟩ := List.cons.inj heq
      rw [if_pos h]

theorem value_array {levels : Nat} {items : List Value} {rest after : Bytes}
    (h : Json.items (value levels) rest = .ok (items, after)) :
    value (levels + 1) (0x5b :: rest) = .ok (.array items, after) := by
  have hopen : value (levels + 1) (0x5b :: rest) =
      (Json.items (value levels) rest).bind fun read => .ok (.array read.1, read.2) := rfl
  rw [hopen, h]
  rfl

theorem value_object {levels : Nat} {members : Dictionary Value} {rest after : Bytes}
    (h : Json.members (memberOf (value levels)) .empty rest = .ok (members, after)) :
    value (levels + 1) (0x7b :: rest) = .ok (.object members.pairs, after) := by
  have hopen : value (levels + 1) (0x7b :: rest) =
      (Json.members (memberOf (value levels)) .empty rest).bind fun read =>
        .ok (.object read.1.pairs, read.2) := rfl
  rw [hopen, h]
  rfl

section Written

variable {levels : Nat}

theorem readBack_null : ReadBack levels .null :=
  fun _ _ => value_scalar rfl (by decide) (by decide)

theorem readBack_bool (b : Bool) : ReadBack levels (.bool b) := by
  intro rest _
  cases b with
  | true => exact value_scalar rfl (by decide) (by decide)
  | false => exact value_scalar rfl (by decide) (by decide)

/-- A number is read as the number that its text is read as. -/
theorem readAs_number {n read : Number} (back : ∀ rest, EndsNumeral rest →
    number (Utf8.encode n.chars ++ rest) = .ok (read, rest)) :
    ReadAs levels (.number n) (.number read) := by
  intro rest ends
  obtain ⟨b, bytes, hbytes, hb⟩ := encode_numberChars n
  have hread := back rest ends
  have hwritten : written (.number n) ++ rest = b :: (bytes ++ rest) := by
    rw [← List.cons_append, ← hbytes]
    rfl
  obtain ⟨blank, distinct⟩ := numeral_head hb
  rw [hbytes, List.cons_append] at hread
  rw [hwritten, value_scalar blank (distinct 0x5b (by decide)) (distinct 0x7b (by decide)),
    scalar_number hb, hread]
  rfl

theorem readBack_string (s : String) : ReadBack levels (.string s) := by
  intro rest _
  obtain ⟨body, hbody, hread⟩ := stringRest_stringChars s rest
  have hwritten : written (.string s) ++ rest = 0x22 :: body := hbody
  rw [hwritten, value_scalar rfl (by decide) (by decide)]
  simp only [scalar, hread, bind, Except.bind]
  rfl

theorem readAs_array {items reads : List Value}
    (back : List.Forall₂ (ReadAs levels) items reads) :
    ReadAs (levels + 1) (.array items) (.array reads) := by
  intro rest _
  have hwritten : written (.array items) ++ rest =
      0x5b :: (Utf8.encode (Value.itemsChars items) ++ rest) := rfl
  rw [hwritten]
  exact value_array (items_written back rest)

/-- An object is read as what its members come to, in whatever order they are. -/
theorem readAs_object {members reads : List (String × Value)}
    (back : List.Forall₂ (MemberReadAs levels) members reads) :
    ReadAs (levels + 1) (.object members) (.ofMembers reads) := by
  intro rest _
  have hwritten : written (.object members) ++ rest =
      0x7b :: (Utf8.encode (Value.membersChars members) ++ rest) := rfl
  rw [hwritten]
  exact value_object (members_written (takes_object back .empty) rest)

theorem readAs_object_of_keys {members reads : List (String × Value)} (keys : List String)
    (h : reads.map (·.1) = keys) (ascending : keys.Pairwise (· < ·))
    (back : List.Forall₂ (MemberReadAs levels) members reads) :
    ReadAs (levels + 1) (.object members) (.object reads) := by
  rw [← ofMembers_of_keys keys h ascending]
  exact readAs_object back

/-- An exact value is read back from its text. -/
theorem value_written {v : Value} (h : Exact levels v) : ReadBack levels v := by
  -- The levels of the reader are those of `Exact`: a bracket takes one from both.
  induction h with
  | null => exact readBack_null
  | bool b => exact readBack_bool b
  | integer n => exact readAs_number fun _ => number_integerChars n
  | string s => exact readBack_string s
  | array _ back => exact readAs_array (List.forall₂_same.mpr back)
  | @object levels members _ back =>
      have each : ∀ member ∈ members.pairs, MemberReadAs levels member member :=
        fun member h => ⟨rfl, back member h⟩
      have whole := readAs_object (List.forall₂_same.mpr each)
      rwa [ofMembers_pairs] at whole

end Written

theorem readAll_ok {α : Type} {reader : Bytes → Except Failure (α × Bytes)} {text : Bytes} {a : α}
    (h : reader text = .ok (a, [])) : readAll reader text = .ok a := by
  unfold readAll
  rw [h]
  rfl

theorem ReadAs.read {v read : Value} (h : ReadAs maxLevels v read) :
    Json.read v.bytes = .ok read := by
  have hback := h [] endsNumeral_nil
  rw [List.append_nil] at hback
  exact readAll_ok hback

theorem ReadAs.readString {v read : Value} (h : ReadAs maxLevels v read) :
    Json.readString v.text = .ok read := by
  have htext : utf8 v.text = v.bytes := by simp [utf8, Value.text, Value.bytes]
  unfold Json.readString
  rw [htext]
  exact h.read

/-- An exact value that is not too deep is what its own text holds. -/
theorem read_bytes {v : Value} (h : Exact maxLevels v) : read v.bytes = .ok v :=
  (value_written h).read

theorem readString_text {v : Value} (h : Exact maxLevels v) : readString v.text = .ok v :=
  (value_written h).readString

end Json

end DocViews
