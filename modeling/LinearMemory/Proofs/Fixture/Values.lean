import LinearMemory.Fixture.Operation
import LinearMemory.Proofs.Except

/-!
# An operation from its values

The values of an operation, read from a record, give the operation back: each is what its field
holds, and no field occurs twice. Fields are looked up by name, so the order of the record makes no
difference (`Fixture.lookup_of_perm`), and an expected value that is absent may be `null` or
missing.

The result is `Fixture.operation_of_perm`.
-/

namespace LinearMemory.Fixture

open Json

/-! ### Scalars -/

/-- A word, as it is read. -/
def wordValue (w : UInt64) : Value := .number (.integer w.toNat)

/-- An offset, as it is read. -/
def offsetValue (o : Int64) : Value := .number (.integer o.toInt)

/-- A word is read back as it was. -/
@[simp] theorem word_wordValue (expected : Expectation) (w : UInt64) :
    Field.word expected (wordValue w) = .ok w := by
  have hlt : w.toNat < 2 ^ 64 := w.toNat_lt
  have hpow : Nat.pow 2 64 = 2 ^ 64 := rfl
  have hrange : (0 : Int) ≤ w.toNat ∧ (w.toNat : Int) < Nat.pow 2 64 := by omega
  rw [wordValue, Field.word, if_pos hrange, Int.toNat_natCast, UInt64.ofNat_toNat]

/-- An offset is read back as it was. -/
@[simp] theorem offset_offsetValue (o : Int64) : Field.offset (offsetValue o) = .ok o := by
  have hlow := o.le_toInt
  have hhigh := o.toInt_lt
  have hpow : Nat.pow 2 63 = 2 ^ 63 := rfl
  have hrange : -(Nat.pow 2 63 : Int) ≤ o.toInt ∧ o.toInt < Nat.pow 2 63 := by omega
  rw [offsetValue, Field.offset, if_pos hrange, Int64.ofInt_toInt]

/-- A text is read back as it was. -/
@[simp] theorem text_text (s : String) : Field.text (.text s) = .ok s := rfl

/-- An expected value is read back as it was, and null as none. -/
@[simp] theorem optionalText_text (s : String) : Field.optionalText (.text s) = .ok (some s) := rfl

@[simp] theorem optionalText_null : Field.optionalText .null = .ok none := rfl

/-! ### The values of an operation -/

/-- The members of an expected value, as they are read. -/
def expectValues (leaveOut : Bool) : Option String → Members
  | some s => [("expect", .text s)]
  | none => if leaveOut then [] else [("expect", .null)]

/-- **The members of an operation as they are read**, without the one that names its kind. -/
def values (leaveOut : Bool) : Operation → Members
  | .resize size => [("size", wordValue size)]
  | .write offset size value =>
    [("offset", offsetValue offset), ("size", wordValue size), ("value", .text value)]
  | .append value expect => [("value", .text value), ("expect", wordValue expect)]
  | .read offset expect | .view offset expect =>
    ("offset", offsetValue offset) :: expectValues leaveOut expect
  | .normalize offset expect => [("offset", offsetValue offset), ("expect", wordValue expect)]

/-- No field of an operation occurs twice, and none is called like the one that names the kind. -/
theorem nodup_values (leaveOut : Bool) (operation : Operation) :
    ("op" :: (values leaveOut operation).map Prod.fst).Nodup := by
  cases operation with
  | read offset expect =>
    cases expect <;> cases leaveOut <;> exact of_decide_eq_true rfl
  | view offset expect =>
    cases expect <;> cases leaveOut <;> exact of_decide_eq_true rfl
  | _ => exact of_decide_eq_true rfl

/-- **Every value of an operation is what its field holds.** -/
theorem check_values (leaveOut : Bool) (operation : Operation) :
    ∀ member ∈ values leaveOut operation,
      ∃ type, operation.kind.fields.lookup member.1 = some type ∧
        Field.check type member.2 = .ok () := by
  have hword (w : UInt64) : Field.check .word (wordValue w) = .ok () :=
    discard_of_ok (word_wordValue .word w)
  have hoffset (o : Int64) : Field.check .offset (offsetValue o) = .ok () :=
    discard_of_ok (offset_offsetValue o)
  have hexpect (expect : Option String) : ∀ member ∈ expectValues leaveOut expect,
      member.1 = "expect" ∧ Field.check .optionalText member.2 = .ok () := by
    cases expect with
    | some s => exact List.forall_mem_singleton.2 ⟨rfl, rfl⟩
    | none =>
      cases leaveOut with
      | true => exact List.forall_mem_nil _
      | false => exact List.forall_mem_singleton.2 ⟨rfl, rfl⟩
  cases operation with
  | resize size => exact List.forall_mem_singleton.2 ⟨_, rfl, hword size⟩
  | write offset size value =>
    exact List.forall_mem_cons.2 ⟨⟨_, rfl, hoffset offset⟩,
      List.forall_mem_cons.2 ⟨⟨_, rfl, hword size⟩, List.forall_mem_singleton.2 ⟨_, rfl, rfl⟩⟩⟩
  | append value expect =>
    exact List.forall_mem_cons.2 ⟨⟨_, rfl, rfl⟩, List.forall_mem_singleton.2 ⟨_, rfl, hword expect⟩⟩
  | read offset expect | view offset expect =>
    refine List.forall_mem_cons.2 ⟨⟨_, rfl, hoffset offset⟩, fun member hmember => ?_⟩
    obtain ⟨hkey, hcheck⟩ := hexpect expect member hmember
    exact ⟨_, by rw [hkey]; rfl, hcheck⟩
  | normalize offset expect =>
    exact List.forall_mem_cons.2 ⟨⟨_, rfl, hoffset offset⟩,
      List.forall_mem_singleton.2 ⟨_, rfl, hword expect⟩⟩

@[simp] theorem required_cons_self {α : Type} (key : String) (v : Value) (members : Members)
    (read : Value → Except Fault α) : Members.required ((key, v) :: members) key read = read v := by
  simp [Members.required]

@[simp] theorem required_cons_of_ne {α : Type} {key name : String} (h : name ≠ key) (v : Value)
    (members : Members) (read : Value → Except Fault α) :
    Members.required ((key, v) :: members) name read = members.required name read := by
  simp [Members.required, List.lookup_cons, beq_false_of_ne h]

@[simp] theorem optional_cons_of_ne {key name : String} (h : name ≠ key) (v : Value)
    (members : Members) :
    Members.optional ((key, v) :: members) name = members.optional name := by
  simp [Members.optional, List.lookup_cons, beq_false_of_ne h]

@[simp] theorem optional_expectValues (leaveOut : Bool) (expect : Option String) :
    Members.optional (expectValues leaveOut expect) "expect" = .ok expect := by
  cases expect <;> cases leaveOut <;> rfl

/-- **The fields of an operation are taken out of its values.** -/
theorem fields_values (leaveOut : Bool) (operation : Operation) :
    (values leaveOut operation).fields operation.kind = .ok operation := by
  cases operation <;> simp [values, Operation.kind, Members.fields]

/-! ### Looking members up -/

theorem lookup_of_mem {members : Members} (hnodup : (members.map Prod.fst).Nodup) {key : String}
    {v : Value} (h : (key, v) ∈ members) : members.lookup key = some v := by
  induction members with
  | nil => exact absurd h List.not_mem_nil
  | cons member rest ih =>
    obtain ⟨hnot, hrest⟩ := List.nodup_cons.1 hnodup
    rcases List.mem_cons.1 h with rfl | hmem
    · exact List.lookup_cons_self
    · have hne : key ≠ member.1 := fun heq =>
        hnot (heq ▸ List.mem_map_of_mem (f := Prod.fst) hmem)
      rw [List.lookup_cons, beq_false_of_ne hne]
      exact ih hrest hmem

/-- **Members in another order are looked up the same.** -/
theorem lookup_of_perm {members other : Members} (h : members.Perm other)
    (hnodup : (other.map Prod.fst).Nodup) (key : String) :
    members.lookup key = other.lookup key := by
  have hnodup' : (members.map Prod.fst).Nodup := (h.map Prod.fst).nodup_iff.2 hnodup
  -- with no key twice, a member is found wherever it stands
  cases hother : other.lookup key with
  | none =>
    rw [List.lookup_eq_none_iff] at hother ⊢
    exact fun member hmember => hother member (h.mem_iff.1 hmember)
  | some v =>
    obtain ⟨before, behind, rfl, -⟩ := List.lookup_eq_some_iff.1 hother
    exact lookup_of_mem hnodup' (h.mem_iff.2 (List.mem_append_right _ List.mem_cons_self))

/-- The fields of a kind are all that is looked up. -/
theorem fields_congr {members other : Members} {kind : Operation.Kind}
    (h : ∀ field ∈ kind.fields, members.lookup field.1 = other.lookup field.1) :
    members.fields kind = other.fields kind := by
  cases kind <;>
    simp only [Operation.Kind.fields, List.forall_mem_cons] at h <;>
    simp only [Members.fields, Members.required, Members.optional, h]

/-- Members that are what their fields hold, each of another field, pass the check. -/
theorem check_eq_ok {fields : List (String × Operation.FieldType)} {members : Members}
    (hcheck : ∀ member ∈ members,
      ∃ type, fields.lookup member.1 = some type ∧ Field.check type member.2 = .ok ())
    {seen : List String} (hseen : ∀ member ∈ members, member.1 ∉ seen)
    (hnodup : (members.map Prod.fst).Nodup) : members.check fields seen = .ok () := by
  induction members generalizing seen with
  | nil => rfl
  | cons member rest ih =>
    obtain ⟨key, v⟩ := member
    obtain ⟨hnot, hrest⟩ := List.nodup_cons.1 hnodup
    obtain ⟨type, htype, hv⟩ := hcheck _ List.mem_cons_self
    have hunseen : key ∉ seen := hseen _ List.mem_cons_self
    have htail : Members.check fields (key :: seen) rest = .ok () := by
      refine ih (fun member hmember => hcheck member (List.mem_cons_of_mem _ hmember))
        (fun member hmember => ?_) hrest
      rw [List.mem_cons, not_or]
      have hmem : member.1 ∈ rest.map Prod.fst := List.mem_map_of_mem hmember
      exact ⟨fun heq => hnot (heq ▸ hmem), hseen member (List.mem_cons_of_mem _ hmember)⟩
    simp only [Members.check, htype, if_neg hunseen, hv]
    exact htail

/-- **An operation is found in its values**, in whatever order they come. -/
theorem operation_of_perm {leaveOut : Bool} {operation : Operation} {members : Members}
    (h : members.Perm (values leaveOut operation)) :
    members.operation operation.kind = .ok operation := by
  have hnodup : ((values leaveOut operation).map Prod.fst).Nodup :=
    (List.nodup_cons.1 (nodup_values leaveOut operation)).2
  have hcheck : members.check operation.kind.fields [] = .ok () :=
    check_eq_ok (fun member hmember => check_values leaveOut operation member (h.mem_iff.1 hmember))
      (fun _ _ => List.not_mem_nil) ((h.map Prod.fst).nodup_iff.2 hnodup)
  have hfields : members.fields operation.kind = .ok operation :=
    (fields_congr fun field _ => lookup_of_perm h hnodup field.1).trans
      (fields_values leaveOut operation)
  rw [Members.operation, hcheck]
  exact hfields

end LinearMemory.Fixture
