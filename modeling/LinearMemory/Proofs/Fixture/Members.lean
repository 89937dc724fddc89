import LinearMemory.Proofs.Fixture.Typing

/-!
# Which members are an operation

An operation that is a record is found in its members when its closing bracket is read. One of the
members names the kind of the operation. The others are checked from left to right, the fields are
taken out in the order of the schema, and members that the kind does not have are passed over. A
name may come again, so what counts of a name is the list of the values under it:
`Fixture.Members.under`.

There are two outcomes, and each is described without the reader:

| outcome | what it is | theorem |
|---|---|---|
| an operation | `Fixture.Members.Spell` | `Fixture.Members.tagged_eq_ok_iff` |
| a fault | `Fixture.Members.Refused` | `Fixture.Members.tagged_eq_error_iff` |

The check is the only induction: it passes if the members are sound (`Fixture.Members.Sound`), and
otherwise stops at the first declared member that comes again or is not what its field holds
(`Fixture.Members.check_eq_error_iff`). With sound members, nothing can go wrong any more but that a
field is missing (`Fixture.Members.demand_of_sound`).
-/

namespace LinearMemory.Fixture

open Json

namespace Members

/-! ### What stands under a name -/

/-- **The values under a name**, in the order in which they come. -/
def under (name : String) (members : Members) : List Value :=
  (members.filter fun m => m.1 = name).map Prod.snd

variable {members : Members} {kind : Operation.Kind}

@[simp] theorem under_cons_self (key : String) (v : Value) (members : Members) :
    under key ((key, v) :: members) = v :: under key members := by
  simp [under]

@[simp]
theorem under_cons_of_ne {key name : String} (h : key ≠ name) (v : Value) (members : Members) :
    under name ((key, v) :: members) = under name members := by
  simp [under, h]

@[simp] theorem under_append (name : String) (first second : Members) :
    under name (first ++ second) = first.under name ++ second.under name := by
  simp [under]

/-- The first value under a name is the one that is looked up. -/
theorem lookup_eq_head?_under (name : String) (members : Members) :
    members.lookup name = (members.under name).head? := by
  induction members with
  | nil => rfl
  | cons m members ih =>
    obtain ⟨key, v⟩ := m
    by_cases h : key = name
    · subst h
      simp
    · simpa [List.lookup_cons, beq_false_of_ne (Ne.symm h), h] using ih

/-- No value stands under a name that is none of the keys. -/
theorem under_eq_nil {name : String} (h : ∀ m ∈ members, m.1 ≠ name) : members.under name = [] := by
  rw [under, List.map_eq_nil_iff, List.filter_eq_nil_iff]
  exact fun m hm => by rw [decide_eq_true_eq]; exact h m hm

/-! ### Which members are an operation, and what is wrong with others -/

/-- **Members spell an operation**: under `op` its kind is named, once, and under each of its fields
stands what the operation has there. An expected value that is absent may be left out or be null. -/
structure Spell (members : Members) (o : Operation) : Prop where
  named : members.under "op" = [.text o.kind.name]
  filled : ∃ leaveOut, ∀ field ∈ o.kind.fields,
    members.under field.1 = under field.1 (values leaveOut o)

/-- **Members are sound** for a kind: what is there of its fields is there once, and of the type of
the field. -/
def Sound (kind : Operation.Kind) (members : Members) : Prop :=
  ∀ field ∈ kind.fields, members.under field.1 = [] ∨
    ∃ v, members.under field.1 = [v] ∧ Field.Holds field.2 v

/-- **Members are complete** for a kind: each of its fields is there once and of its type, or may be
left out and is. -/
def Complete (kind : Operation.Kind) (members : Members) : Prop :=
  ∀ field ∈ kind.fields, (∃ v, members.under field.1 = [v] ∧ Field.Holds field.2 v) ∨
    field.2 = .optionalText ∧ members.under field.1 = []

/-- **What the fields of a kind are refused for.** The members count from left to right, up to the
first that is at fault. Then the fields count in the order of the schema, up to the first that is
missing. -/
inductive Faulty (kind : Operation.Kind) (members : Members) : Mistyped → Prop
  /-- A value is not what its field holds. -/
  | unfit {before after : Members} {key : String} {type : Operation.FieldType} {v : Value}
      {cause : Mistyped} (h : members = before ++ (key, v) :: after) (hbefore : Sound kind before)
      (hkey : (key, type) ∈ kind.fields) (hnew : before.under key = [])
      (hv : Field.Unfit type v cause) : Faulty kind members cause
  /-- A field comes again. -/
  | again {before after : Members} {key : String} {type : Operation.FieldType} {v : Value}
      (h : members = before ++ (key, v) :: after) (hbefore : Sound kind before)
      (hkey : (key, type) ∈ kind.fields) (hold : before.under key ≠ []) :
      Faulty kind members (.repeated key)
  /-- A field is missing that may not be left out. -/
  | missing {front back : List (String × Operation.FieldType)} {key : String}
      {type : Operation.FieldType} (h : kind.fields = front ++ (key, type) :: back)
      (hsound : Sound kind members)
      (hfront : ∀ field ∈ front, field.2 = .optionalText ∨ members.under field.1 ≠ [])
      (htype : type ≠ .optionalText) (hnone : members.under key = []) :
      Faulty kind members (.missing key)

/-- **What members are refused for.** The faults of `op` come first. -/
inductive Refused (members : Members) : Mistyped → Prop
  /-- The first value under `op` names no kind. -/
  | kind {v : Value} {rest : List Value} {cause : Mistyped} (h : members.under "op" = v :: rest)
      (hv : Field.NoKind v cause) : Refused members cause
  /-- The first value under `op` names a kind, and there is a second one. -/
  | kindAgain {kind : Operation.Kind} {v : Value} {rest : List Value}
      (h : members.under "op" = .text kind.name :: v :: rest) : Refused members (.repeated "op")
  /-- There is no value under `op`. -/
  | noKind (h : members.under "op" = []) : Refused members (.missing "op")
  /-- The one value under `op` names a kind, and the fields are refused. -/
  | fields {kind : Operation.Kind} {cause : Mistyped} (h : members.under "op" = [.text kind.name])
      (hfields : Faulty kind members cause) : Refused members cause

/-! ### Checking members from left to right -/

/-- A field is found in the schema by its name. -/
theorem lookup_fields_eq_some_iff {key : String} {type : Operation.FieldType} :
    kind.fields.lookup key = some type ↔ (key, type) ∈ kind.fields := by
  constructor
  · intro h
    obtain ⟨front, back, heq, -⟩ := List.lookup_eq_some_iff.1 h
    rw [heq]
    exact List.mem_append_right _ List.mem_cons_self
  · have hall : ∀ field ∈ kind.fields, kind.fields.lookup field.1 = some field.2 := by
      cases kind <;> decide
    exact hall (key, type)

variable {fields : List (String × Operation.FieldType)} {seen : List String} {key : String}
  {v : Value} {type : Operation.FieldType}

/-- A member that is not declared is passed over. -/
@[simp] theorem check_cons_of_none (h : fields.lookup key = none) :
    check fields seen ((key, v) :: members) = check fields seen members := by
  simp only [check, h]

/-- A member that was seen is a fault. -/
@[simp] theorem check_cons_of_seen (h : fields.lookup key = some type) (hseen : key ∈ seen) :
    check fields seen ((key, v) :: members) = .error (.mistyped (.repeated key)) := by
  simp only [check, h, if_pos hseen]

/-- A member that was not seen is checked before the others. -/
@[simp] theorem check_cons_of_new (h : fields.lookup key = some type) (hseen : key ∉ seen) :
    check fields seen ((key, v) :: members) =
      Field.check type v >>= fun _ => check fields (key :: seen) members := by
  simp only [check, h, if_neg hseen]

/-- A declared name is none that is not. -/
theorem ne_of_lookup {other : String} (h : fields.lookup key = none)
    (hother : fields.lookup other = some type) : key ≠ other := by
  rintro rfl
  rw [h] at hother
  cases hother

/-- **A field is in order**: it does not occur, or it was not seen, occurs once and holds its
value. -/
def InOrder (seen : List String) (members : Members) (key : String)
    (type : Operation.FieldType) : Prop :=
  members.under key = [] ∨ key ∉ seen ∧ ∃ v, members.under key = [v] ∧ Field.Holds type v

@[simp] theorem inOrder_cons_self :
    InOrder seen ((key, v) :: members) key type ↔
      key ∉ seen ∧ members.under key = [] ∧ Field.Holds type v := by
  simp [InOrder, and_assoc]

@[simp] theorem inOrder_cons_of_ne {other : String} (h : key ≠ other) :
    InOrder seen ((key, v) :: members) other type ↔ InOrder seen members other type := by
  simp [InOrder, h]

/-- A name that was seen is in order if it does not occur again. -/
theorem inOrder_seen {other : String} :
    InOrder (key :: seen) members other type ↔
      if key = other then members.under other = [] else InOrder seen members other type := by
  rw [InOrder, List.mem_cons, not_or]
  split
  · next heq => exact ⟨fun h => h.resolve_right fun hone => hone.1.1 heq.symm, Or.inl⟩
  · next hne =>
    have hnew : (other ≠ key ∧ other ∉ seen) ↔ other ∉ seen := and_iff_right (Ne.symm hne)
    rw [hnew, InOrder]

/-- **A check passes** if each declared member comes once and is what its field holds. -/
theorem check_eq_ok_iff :
    members.check fields seen = .ok () ↔
      ∀ key type, fields.lookup key = some type → InOrder seen members key type := by
  -- the names that were seen grow along the members, so they are arbitrary
  induction members generalizing seen with
  | nil => exact ⟨fun _ _ _ _ => Or.inl rfl, fun _ => rfl⟩
  | cons m members ih =>
    obtain ⟨key, v⟩ := m
    cases hlookup : fields.lookup key with
    | none =>
      rw [check_cons_of_none hlookup]
      refine ih.trans (forall₂_congr fun other type => imp_congr_right fun hother => ?_)
      rw [inOrder_cons_of_ne (ne_of_lookup hlookup hother)]
    | some type =>
      by_cases hseen : key ∈ seen
      · rw [check_cons_of_seen hlookup hseen]
        exact iff_of_false nofun fun h => (inOrder_cons_self.1 (h key type hlookup)).1 hseen
      · rw [check_cons_of_new hlookup hseen, bind_eq_ok_iff]
        constructor
        · rintro ⟨_, hv, hrest⟩ other type' hother
          have hthere := inOrder_seen.1 (ih.1 hrest other type' hother)
          by_cases hkey : key = other
          · subst hkey
            obtain rfl := Option.some.inj (hlookup.symm.trans hother)
            rw [if_pos rfl] at hthere
            exact inOrder_cons_self.2 ⟨hseen, hthere, Field.check_eq_ok_iff.1 hv⟩
          · rw [if_neg hkey] at hthere
            exact (inOrder_cons_of_ne hkey).2 hthere
        · intro h
          obtain ⟨-, hnil, hv⟩ := inOrder_cons_self.1 (h key type hlookup)
          refine ⟨(), Field.check_eq_ok_iff.2 hv, ih.2 fun other type' hother => ?_⟩
          rw [inOrder_seen]
          split
          · next heq => rwa [← heq]
          · next hne => exact (inOrder_cons_of_ne hne).1 (h other type' hother)

/-- **A name is new** behind some members: it was not seen, and is none of theirs. -/
def New (seen : List String) (before : Members) (key : String) : Prop :=
  key ∉ seen ∧ before.under key = []

theorem new_cons {before : Members} {other : String} :
    New seen ((key, v) :: before) other ↔ New (key :: seen) before other := by
  rw [New, New, List.mem_cons, not_or]
  by_cases hkey : key = other
  · subst hkey
    simp
  · simp [hkey, Ne.symm hkey]

/-- **A fault of a declared member**: its name is not new, or it is not what its field holds. -/
def IsFault (seen : List String) (before : Members) (key : String) (type : Operation.FieldType)
    (v : Value) (fault : Fault) : Prop :=
  ¬New seen before key ∧ fault = .mistyped (.repeated key) ∨
    New seen before key ∧ Field.check type v = .error fault

/-- A member that is at fault stops the check. -/
theorem check_of_isFault {before after : Members} {fault : Fault}
    (hbefore : check fields seen before = .ok ()) (hlookup : fields.lookup key = some type)
    (h : IsFault seen before key type v fault) :
    check fields seen (before ++ (key, v) :: after) = .error fault := by
  induction before generalizing seen with
  | nil =>
    rcases h with ⟨hold, rfl⟩ | ⟨hnew, hv⟩
    · refine check_cons_of_seen hlookup (not_not.1 fun hseen => ?_)
      exact hold ⟨hseen, rfl⟩
    · rw [List.nil_append, check_cons_of_new hlookup hnew.1, hv]
      rfl
  | cons m before ih =>
    obtain ⟨other, w⟩ := m
    rw [List.cons_append]
    cases hother : fields.lookup other with
    | none =>
      rw [check_cons_of_none hother] at hbefore ⊢
      refine ih hbefore ?_
      have hnew : New seen ((other, w) :: before) key ↔ New seen before key := by
        rw [New, New, under_cons_of_ne (ne_of_lookup hother hlookup)]
      rwa [IsFault, hnew] at h
    | some type' =>
      by_cases hseen : other ∈ seen
      · rw [check_cons_of_seen hother hseen] at hbefore
        cases hbefore
      · rw [check_cons_of_new hother hseen, bind_eq_ok_iff] at hbefore
        obtain ⟨_, hw, hrest⟩ := hbefore
        rw [check_cons_of_new hother hseen, hw]
        rw [IsFault, new_cons] at h
        exact ih hrest h

/-- **A check fails** at the first declared member that is at fault. -/
theorem check_eq_error_iff {fault : Fault} :
    members.check fields seen = .error fault ↔
      ∃ before key v after type, members = before ++ (key, v) :: after ∧
        check fields seen before = .ok () ∧ fields.lookup key = some type ∧
        IsFault seen before key type v fault := by
  refine ⟨fun h => ?_, ?_⟩
  -- the first fault is found along the members; that it stops the check is known
  · induction members generalizing seen with
    | nil => exact absurd h (by nofun)
    | cons m members ih =>
      obtain ⟨key, v⟩ := m
      cases hlookup : fields.lookup key with
      | none =>
        rw [check_cons_of_none hlookup] at h
        obtain ⟨before, other, w, after, type, rfl, hbefore, hother, hfault⟩ := ih h
        refine ⟨(key, v) :: before, other, w, after, type, rfl, ?_, hother, ?_⟩
        · rwa [check_cons_of_none hlookup]
        · rwa [IsFault, New, under_cons_of_ne (ne_of_lookup hlookup hother)]
      | some type =>
        by_cases hseen : key ∈ seen
        · rw [check_cons_of_seen hlookup hseen] at h
          exact ⟨[], key, v, members, type, rfl, rfl, hlookup,
            Or.inl ⟨fun hnew => hnew.1 hseen, (Except.error.inj h).symm⟩⟩
        · rw [check_cons_of_new hlookup hseen] at h
          cases hv : Field.check type v with
          | error fault' =>
            rw [hv] at h
            exact ⟨[], key, v, members, type, rfl, rfl, hlookup,
              Or.inr ⟨⟨hseen, rfl⟩, hv.trans h⟩⟩
          | ok u =>
            rw [hv] at h
            obtain ⟨before, other, w, after, type', rfl, hbefore, hother, hfault⟩ := ih h
            refine ⟨(key, v) :: before, other, w, after, type', rfl, ?_, hother, ?_⟩
            · rw [check_cons_of_new hlookup hseen, hv]
              exact hbefore
            · rwa [IsFault, new_cons]
  · rintro ⟨before, key, v, after, type, rfl, hbefore, hlookup, hfault⟩
    exact check_of_isFault hbefore hlookup hfault

/-- A check passes for a kind if the members are sound. -/
theorem check_nil_eq_ok_iff : members.check kind.fields [] = .ok () ↔ Sound kind members := by
  rw [check_eq_ok_iff]
  constructor
  · intro h field hfield
    exact (h field.1 field.2 (lookup_fields_eq_some_iff.2 hfield)).imp_right And.right
  · intro h key type hdeclared
    exact (h (key, type) (lookup_fields_eq_some_iff.1 hdeclared)).imp_right fun hone =>
      ⟨List.not_mem_nil, hone⟩

/-- **A check fails** for a kind at the first of its members that comes again or is unfit. -/
theorem check_nil_eq_error_iff {fault : Fault} :
    members.check kind.fields [] = .error fault ↔
      ∃ before key v after type, members = before ++ (key, v) :: after ∧ Sound kind before ∧
        (key, type) ∈ kind.fields ∧
        (before.under key ≠ [] ∧ fault = .mistyped (.repeated key) ∨
          before.under key = [] ∧ ∃ cause, fault = .mistyped cause ∧ Field.Unfit type v cause) := by
  simp only [check_eq_error_iff, check_nil_eq_ok_iff, lookup_fields_eq_some_iff, IsFault, New,
    List.not_mem_nil, not_false_eq_true, true_and, Field.check_eq_error_iff, ne_eq]

/-! ### Taking the fields out -/

/-- **What a field of a kind is refused for**, when the fields are taken out. -/
def demand (members : Members) (field : String × Operation.FieldType) : Except Fault Unit :=
  match members.lookup field.1 with
  | some v => Field.check field.2 v
  | none => if field.2 = .optionalText then .ok () else .error (.mistyped (.missing field.1))

theorem discard_required_bind {α β : Type} {field : String} {type : Operation.FieldType}
    {read : Value → Except Fault α} {f : α → Except Fault β} {rest : Except Fault Unit}
    (hread : ∀ v, discard (read v) = Field.check type v) (htype : type ≠ .optionalText)
    (hrest : ∀ a, discard (f a) = rest) :
    discard (members.required field read >>= f) =
      members.demand (field, type) >>= fun _ => rest := by
  rw [required, demand]
  cases members.lookup field with
  | none => simp only [if_neg htype]; rfl
  | some v =>
    simp only [← hread]
    cases read v with
    | error fault => rfl
    | ok a => exact hrest a

theorem discard_optional_bind {β : Type} {field : String} {f : Option String → Except Fault β}
    {rest : Except Fault Unit} (hrest : ∀ a, discard (f a) = rest) :
    discard (members.optional field >>= f) =
      members.demand (field, .optionalText) >>= fun _ => rest := by
  rw [optional, demand]
  cases members.lookup field with
  | none => exact hrest none
  | some v =>
    simp only [Field.check]
    cases Field.optionalText v with
    | error fault => rfl
    | ok expect => exact hrest expect

/-- The fields of a kind are demanded one after the other, in the order of the schema. -/
theorem discard_fields : discard (members.fields kind) = kind.fields.forM members.demand := by
  cases kind with
  | resize => exact discard_required_bind (fun _ => rfl) nofun fun _ => rfl
  | write =>
    exact discard_required_bind (fun _ => rfl) nofun fun _ =>
      discard_required_bind (fun _ => rfl) nofun fun _ =>
        discard_required_bind (fun _ => rfl) nofun fun _ => rfl
  | append | normalize =>
    exact discard_required_bind (fun _ => rfl) nofun fun _ =>
      discard_required_bind (fun _ => rfl) nofun fun _ => rfl
  | read | view =>
    exact discard_required_bind (fun _ => rfl) nofun fun _ =>
      discard_optional_bind fun _ => rfl

section Demand

variable {field : String × Operation.FieldType}

/-- A field of sound members is only refused for if it is missing. -/
theorem demand_of_sound (h : Sound kind members) (hfield : field ∈ kind.fields) :
    members.demand field =
      if members.under field.1 = [] ∧ field.2 ≠ .optionalText then
        .error (.mistyped (.missing field.1))
      else .ok () := by
  rw [demand, lookup_eq_head?_under]
  rcases h field hfield with hnil | ⟨v, hone, hholds⟩
  · rw [hnil]
    by_cases htype : field.2 = .optionalText
    · exact (if_pos htype).trans (if_neg fun hmissing => hmissing.2 htype).symm
    · exact (if_neg htype).trans (if_pos ⟨rfl, htype⟩).symm
  · simp only [hone, List.head?_cons, Field.check_of_holds hholds, List.cons_ne_nil, false_and,
      if_false]

/-- **Sound members are refused** for the first of the fields that is missing. -/
theorem fields_eq_error_iff (h : Sound kind members) {fault : Fault} :
    members.fields kind = .error fault ↔
      ∃ front key type back, kind.fields = front ++ (key, type) :: back ∧
        (∀ field ∈ front, field.2 = .optionalText ∨ members.under field.1 ≠ []) ∧
        type ≠ .optionalText ∧ members.under key = [] ∧ fault = .mistyped (.missing key) := by
  rw [← discard_eq_error_iff, discard_fields, forM_eq_error_iff]
  constructor
  · rintro ⟨front, ⟨key, type⟩, back, heq, hfront, hfault⟩
    rw [demand_of_sound h (heq ▸ List.mem_append_right _ List.mem_cons_self)] at hfault
    refine ⟨front, key, type, back, heq, fun field hfield => ?_, ?_⟩
    · have hok := hfront field hfield
      rw [demand_of_sound h (heq ▸ List.mem_append_left _ hfield)] at hok
      split at hok
      · cases hok
      · next hnot => exact or_not_of_imp fun hnil => not_not.1 fun htype => hnot ⟨hnil, htype⟩
    · split at hfault
      · next hmissing => exact ⟨hmissing.2, hmissing.1, (Except.error.inj hfault).symm⟩
      · cases hfault
  · rintro ⟨front, key, type, back, heq, hfront, htype, hnil, rfl⟩
    refine ⟨front, (key, type), back, heq, fun field hfield => ?_, ?_⟩
    · rw [demand_of_sound h (heq ▸ List.mem_append_left _ hfield), if_neg]
      exact fun ⟨hnone, hne⟩ => (hfront field hfield).elim hne fun hsome => hsome hnone
    · rw [demand_of_sound h (heq ▸ List.mem_append_right _ List.mem_cons_self),
        if_pos ⟨hnil, htype⟩]

end Demand

theorem operation_of_check_eq_error {fault : Fault}
    (h : members.check kind.fields [] = .error fault) : members.operation kind = .error fault := by
  simp [operation, h]

theorem operation_of_sound (h : Sound kind members) :
    members.operation kind = members.fields kind := by
  simp [operation, check_nil_eq_ok_iff.2 h]

/-- **Members of a kind are refused** for what their fields are refused for. -/
theorem operation_eq_error_iff {fault : Fault} :
    members.operation kind = .error fault ↔
      ∃ cause, fault = .mistyped cause ∧ Faulty kind members cause := by
  constructor
  · intro h
    -- the fields are only taken out if the check has passed, so its faults come first
    cases hcheck : members.check kind.fields [] with
    | error fault' =>
      rw [operation_of_check_eq_error hcheck] at h
      obtain rfl := Except.error.inj h
      obtain ⟨before, key, v, after, type, heq, hbefore, hkey, hfault⟩ :=
        check_nil_eq_error_iff.1 hcheck
      rcases hfault with ⟨hold, rfl⟩ | ⟨hnew, cause, rfl, hunfit⟩
      · exact ⟨_, rfl, .again heq hbefore hkey hold⟩
      · exact ⟨_, rfl, .unfit heq hbefore hkey hnew hunfit⟩
    | ok u =>
      have hsound : Sound kind members := check_nil_eq_ok_iff.1 hcheck
      rw [operation_of_sound hsound] at h
      obtain ⟨front, key, type, back, heq, hfront, htype, hnone, rfl⟩ :=
        (fields_eq_error_iff hsound).1 h
      exact ⟨_, rfl, .missing heq hsound hfront htype hnone⟩
  · rintro ⟨cause, rfl, hfaulty⟩
    cases hfaulty with
    | unfit heq hbefore hkey hnew hunfit =>
      exact operation_of_check_eq_error <| check_nil_eq_error_iff.2
        ⟨_, _, _, _, _, heq, hbefore, hkey, Or.inr ⟨hnew, _, rfl, hunfit⟩⟩
    | again heq hbefore hkey hold =>
      exact operation_of_check_eq_error <| check_nil_eq_error_iff.2
        ⟨_, _, _, _, _, heq, hbefore, hkey, Or.inl ⟨hold, rfl⟩⟩
    | missing heq hsound hfront htype hnone =>
      rw [operation_of_sound hsound]
      exact (fields_eq_error_iff hsound).2 ⟨_, _, _, _, heq, hfront, htype, hnone, rfl⟩

theorem sound_of_operation_eq_ok {o : Operation} (h : members.operation kind = .ok o) :
    Sound kind members := by
  rw [operation, bind_eq_ok_iff] at h
  obtain ⟨_, hcheck, -⟩ := h
  exact check_nil_eq_ok_iff.1 hcheck

/-! ### The operation of sound members -/

theorem required_eq_ok_iff {α : Type} {field : String} {read : Value → Except Fault α} {a : α} :
    members.required field read = .ok a ↔ ∃ v, members.lookup field = some v ∧ read v = .ok a := by
  rw [required]
  cases members.lookup field with
  | none => simp
  | some v => simp

/-- Members with the same values under each field of a kind are the same operation of this kind. -/
theorem operation_eq_ok_congr {other : Members} {o : Operation}
    (h : ∀ field ∈ kind.fields, members.under field.1 = other.under field.1) :
    members.operation kind = .ok o ↔ other.operation kind = .ok o := by
  have hsound : Sound kind members ↔ Sound kind other :=
    forall₂_congr fun field hfield => by rw [h field hfield]
  have hfields : members.fields kind = other.fields kind := fields_congr fun field hfield => by
    rw [lookup_eq_head?_under, lookup_eq_head?_under, h field hfield]
  have hof {xs ys : Members} (hxy : Sound kind xs → Sound kind ys)
      (hfields : xs.fields kind = ys.fields kind) (ho : xs.operation kind = .ok o) :
      ys.operation kind = .ok o := by
    have hxs := sound_of_operation_eq_ok ho
    rwa [operation_of_sound (hxy hxs), ← hfields, ← operation_of_sound hxs]
  exact ⟨hof hsound.1 hfields, hof hsound.2 hfields.symm⟩

/-- What is taken out of a field of sound members stands there alone. -/
theorem Sound.under_of_required (hsound : Sound kind members)
    {field : String × Operation.FieldType} (hfield : field ∈ kind.fields) {α : Type}
    {read : Value → Except Fault α} {a : α} (h : members.required field.1 read = .ok a) :
    ∃ v, members.under field.1 = [v] ∧ read v = .ok a := by
  obtain ⟨v, hv, hread⟩ := required_eq_ok_iff.1 h
  rw [lookup_eq_head?_under] at hv
  rcases hsound field hfield with hnil | ⟨w, hone, -⟩
  · rw [hnil] at hv
    cases hv
  · rw [hone] at hv
    obtain rfl := Option.some.inj hv
    exact ⟨w, hone, hread⟩

theorem Sound.under_word (hsound : Sound kind members) {field : String}
    (hfield : (field, .word) ∈ kind.fields) {w : UInt64}
    (h : members.required field (Field.word .word) = .ok w) :
    members.under field = [wordValue w] := by
  obtain ⟨v, hone, hread⟩ := hsound.under_of_required hfield h
  rw [hone, word_eq_ok_iff.1 hread]
  rfl

theorem Sound.under_offset (hsound : Sound kind members) {field : String}
    (hfield : (field, .offset) ∈ kind.fields) {o : Int64}
    (h : members.required field Field.offset = .ok o) :
    members.under field = [offsetValue o] := by
  obtain ⟨v, hone, hread⟩ := hsound.under_of_required hfield h
  rw [hone, Field.offset_eq_ok_iff.1 hread]

theorem Sound.under_text (hsound : Sound kind members) {field : String}
    (hfield : (field, .text) ∈ kind.fields) {s : String}
    (h : members.required field Field.text = .ok s) : members.under field = [.text s] := by
  obtain ⟨v, hone, hread⟩ := hsound.under_of_required hfield h
  rw [hone, Field.text_eq_ok_iff.1 hread]

/-- An expected value that is absent is left out or is null. -/
theorem Sound.under_expect (hsound : Sound kind members)
    (hfield : ("expect", .optionalText) ∈ kind.fields) {expect : Option String}
    (h : members.optional "expect" = .ok expect) :
    ∃ leaveOut, members.under "expect" = (expectValues leaveOut expect).map Prod.snd := by
  rw [optional, lookup_eq_head?_under] at h
  rcases hsound _ hfield with hnil | ⟨v, hone, -⟩
  · rw [hnil] at h
    obtain rfl := Except.ok.inj h
    exact ⟨true, hnil⟩
  · rw [hone] at h
    rcases Field.optionalText_eq_ok_iff.1 h with ⟨rfl, rfl⟩ | ⟨s, rfl, rfl⟩
    · exact ⟨false, hone⟩
    · exact ⟨false, hone⟩

/-- **The operation of members** has in each of its fields what stands there. -/
theorem operation_eq_ok_iff {o : Operation} :
    members.operation kind = .ok o ↔ o.kind = kind ∧ ∃ leaveOut, ∀ field ∈ o.kind.fields,
      members.under field.1 = under field.1 (values leaveOut o) := by
  constructor
  · intro h
    -- each field is taken out of the one value that is there, so this value spells its content
    have hsound : Sound kind members := sound_of_operation_eq_ok h
    rw [operation_of_sound hsound] at h
    cases kind with
    | resize =>
      obtain ⟨size, hsize, heq⟩ := bind_eq_ok_iff.1 h
      obtain rfl := Except.ok.inj heq
      exact ⟨rfl, false, List.forall_mem_singleton.2 (hsound.under_word List.mem_cons_self hsize)⟩
    | write =>
      obtain ⟨offset, hoffset, h⟩ := bind_eq_ok_iff.1 h
      obtain ⟨size, hsize, h⟩ := bind_eq_ok_iff.1 h
      obtain ⟨value, hvalue, heq⟩ := bind_eq_ok_iff.1 h
      obtain rfl := Except.ok.inj heq
      exact ⟨rfl, false, List.forall_mem_cons.2 ⟨hsound.under_offset (by decide) hoffset,
        List.forall_mem_cons.2 ⟨hsound.under_word (by decide) hsize,
          List.forall_mem_singleton.2 (hsound.under_text (by decide) hvalue)⟩⟩⟩
    | append =>
      obtain ⟨value, hvalue, h⟩ := bind_eq_ok_iff.1 h
      obtain ⟨expect, hexpect, heq⟩ := bind_eq_ok_iff.1 h
      obtain rfl := Except.ok.inj heq
      exact ⟨rfl, false, List.forall_mem_cons.2 ⟨hsound.under_text (by decide) hvalue,
        List.forall_mem_singleton.2 (hsound.under_word (by decide) hexpect)⟩⟩
    | read | view =>
      obtain ⟨offset, hoffset, h⟩ := bind_eq_ok_iff.1 h
      obtain ⟨expect, hexpect, heq⟩ := bind_eq_ok_iff.1 h
      obtain rfl := Except.ok.inj heq
      obtain ⟨leaveOut, hunder⟩ := hsound.under_expect (by decide) hexpect
      refine ⟨rfl, leaveOut, List.forall_mem_cons.2
        ⟨(hsound.under_offset (by decide) hoffset).trans ?_,
          List.forall_mem_singleton.2 (hunder.trans ?_)⟩⟩
      · cases expect <;> cases leaveOut <;> rfl
      · cases expect <;> cases leaveOut <;> rfl
    | normalize =>
      obtain ⟨offset, hoffset, h⟩ := bind_eq_ok_iff.1 h
      obtain ⟨expect, hexpect, heq⟩ := bind_eq_ok_iff.1 h
      obtain rfl := Except.ok.inj heq
      exact ⟨rfl, false, List.forall_mem_cons.2 ⟨hsound.under_offset (by decide) hoffset,
        List.forall_mem_singleton.2 (hsound.under_word (by decide) hexpect)⟩⟩
  · rintro ⟨rfl, leaveOut, hfilled⟩
    exact (operation_eq_ok_congr hfilled).2 (operation_of_perm (List.Perm.refl _))

/-- **Complete members are an operation**, and no others are. -/
theorem exists_operation_iff :
    (∃ o, members.operation kind = .ok o) ↔ Complete kind members := by
  constructor
  · rintro ⟨o, ho⟩ field hfield
    have hsound : Sound kind members := sound_of_operation_eq_ok ho
    rw [operation_of_sound hsound] at ho
    have hdemand := forM_eq_ok_iff.1 (discard_fields.symm.trans (discard_eq_ok_iff.2 ⟨o, ho⟩))
    have hfield' := hdemand field hfield
    rw [demand_of_sound hsound hfield] at hfield'
    rcases hsound field hfield with hnil | hone
    · refine Or.inr ⟨?_, hnil⟩
      by_contra htype
      rw [if_pos ⟨hnil, htype⟩] at hfield'
      cases hfield'
    · exact Or.inl hone
  · intro h
    have hsound : Sound kind members := fun field hfield => (h field hfield).symm.imp_left And.right
    rw [operation_of_sound hsound, ← discard_eq_ok_iff, discard_fields, forM_eq_ok_iff]
    intro field hfield
    rw [demand_of_sound hsound hfield, if_neg]
    rintro ⟨hnil, htype⟩
    rcases h field hfield with ⟨v, hone, -⟩ | ⟨hoptional, -⟩
    · rw [hnil] at hone
      cases hone
    · exact htype hoptional

/-! ### Members that are not declared -/

/-- Members that are not declared make no difference to a check. -/
theorem check_filter {p : String → Bool}
    (hp : ∀ key type, fields.lookup key = some type → p key = true) :
    check fields seen (members.filter fun m => p m.1) = check fields seen members := by
  induction members generalizing seen with
  | nil => rfl
  | cons m members ih =>
    obtain ⟨key, v⟩ := m
    cases hlookup : fields.lookup key with
    | none =>
      by_cases hkept : p key = true
      · simp [hlookup, hkept, ih]
      · simp [hlookup, hkept, ih]
    | some type =>
      have hkept : p key = true := hp key type hlookup
      by_cases hseen : key ∈ seen
      · simp [hkept, check_cons_of_seen hlookup hseen]
      · simp [hkept, check_cons_of_new hlookup hseen, ih]

/-- Members of other names make no difference to what is looked up. -/
theorem lookup_filter {p : String → Bool} {name : String} (hp : p name = true) :
    (members.filter fun m => p m.1).lookup name = members.lookup name := by
  induction members with
  | nil => rfl
  | cons m members ih =>
    obtain ⟨key, v⟩ := m
    by_cases hkey : key = name
    · subst hkey
      simp [hp]
    · have hne : (name == key) = false := beq_false_of_ne (Ne.symm hkey)
      by_cases hkept : p key = true
      · simp [List.lookup_cons, hne, hkept, ih]
      · simp [List.lookup_cons, hne, hkept, ih]

/-- **Members that a kind does not have make no difference** to its operation. -/
theorem operation_filter {p : String → Bool} (hp : ∀ field ∈ kind.fields, p field.1 = true) :
    operation (members.filter fun m => p m.1) kind = members.operation kind := by
  have hcheck : check kind.fields [] (members.filter fun m => p m.1) =
      check kind.fields [] members :=
    check_filter fun key type hlookup => hp (key, type) (lookup_fields_eq_some_iff.1 hlookup)
  have hfields : fields (members.filter fun m => p m.1) kind = members.fields kind :=
    fields_congr fun field hfield => lookup_filter (hp field hfield)
  rw [operation, operation, hcheck, hfields]

/-- A member that a kind does not have makes no difference, wherever it stands. -/
theorem operation_append_cons_of_none (h : kind.fields.lookup key = none) (before : Members) :
    operation (before ++ (key, v) :: members) kind = operation (before ++ members) kind := by
  have hp : ∀ field ∈ kind.fields, decide (field.1 ≠ key) = true := fun field hfield =>
    decide_eq_true (ne_of_lookup h (lookup_fields_eq_some_iff.2 hfield)).symm
  have hdropped : (before ++ (key, v) :: members).filter (fun m => m.1 ≠ key) =
      (before ++ members).filter fun m => m.1 ≠ key := by
    rw [List.filter_append, List.filter_append]
    congr 1
    exact List.filter_cons_of_neg fun hkey => of_decide_eq_true hkey rfl
  rw [← operation_filter (p := fun name => name ≠ key) hp, hdropped,
    operation_filter (p := fun name => name ≠ key) hp]

/-! ### The member that names the kind -/

/-- Behind the kind, another `op` is a fault. -/
def unlessAgain {α : Type} (again : List Value) (x : Except Fault α) : Except Fault α :=
  match again with
  | [] => x
  | _ :: _ => .error (.mistyped (.repeated "op"))

/-- **The operation of members**, the one among them that names the kind. -/
def tagged (members : Members) : Except Fault Operation :=
  match members.under "op" with
  | [] => .error (.mistyped (.missing "op"))
  | v :: again => do
    let kind ← Field.kind v
    unlessAgain again (members.operation kind)

/-- **Members spell what their tag and their fields are.** -/
theorem tagged_eq_ok_iff {o : Operation} : members.tagged = .ok o ↔ members.Spell o := by
  rw [tagged]
  constructor
  · intro h
    split at h
    · cases h
    · next v again hop =>
      obtain ⟨kind, hkind, hrest⟩ := bind_eq_ok_iff.1 h
      obtain rfl := Field.kind_eq_ok_iff.1 hkind
      cases again with
      | cons w again => cases hrest
      | nil =>
        obtain ⟨rfl, hfilled⟩ := operation_eq_ok_iff.1 hrest
        exact ⟨hop, hfilled⟩
  · rintro ⟨hop, hfilled⟩
    simp only [hop, Field.kind_eq_ok_iff.2 rfl]
    exact operation_eq_ok_iff.2 ⟨rfl, hfilled⟩

/-- Some members spell an operation: one of the kind that they name, if they are complete. -/
theorem exists_spell_iff :
    (∃ o, members.Spell o) ↔
      ∃ kind : Operation.Kind, members.under "op" = [.text kind.name] ∧ Complete kind members := by
  constructor
  · rintro ⟨o, hop, hfilled⟩
    exact ⟨o.kind, hop, exists_operation_iff.1 ⟨o, operation_eq_ok_iff.2 ⟨rfl, hfilled⟩⟩⟩
  · rintro ⟨kind, hop, hcomplete⟩
    obtain ⟨o, ho⟩ := exists_operation_iff.2 hcomplete
    obtain ⟨rfl, hfilled⟩ := operation_eq_ok_iff.1 ho
    exact ⟨o, hop, hfilled⟩

/-- **Members are refused** for their tag, and then for their fields. -/
theorem tagged_eq_error_iff {fault : Fault} :
    members.tagged = .error fault ↔ ∃ cause, fault = .mistyped cause ∧ members.Refused cause := by
  rw [tagged]
  constructor
  · intro h
    split at h
    · next hop => exact ⟨_, (Except.error.inj h).symm, .noKind hop⟩
    · next v again hop =>
      cases hkind : Field.kind v with
      | error fault' =>
        rw [hkind] at h
        obtain rfl := Except.error.inj h
        obtain ⟨cause, rfl, hcause⟩ := Field.kind_eq_error_iff.1 hkind
        exact ⟨cause, rfl, .kind hop hcause⟩
      | ok kind =>
        rw [hkind] at h
        obtain rfl := Field.kind_eq_ok_iff.1 hkind
        cases again with
        | cons w again => exact ⟨_, (Except.error.inj h).symm, .kindAgain hop⟩
        | nil =>
          obtain ⟨cause, rfl, hfaulty⟩ := operation_eq_error_iff.1 h
          exact ⟨cause, rfl, .fields hop hfaulty⟩
  · rintro ⟨cause, rfl, hrefused⟩
    cases hrefused with
    | noKind hop => simp only [hop]
    | kind hop hcause =>
      simp only [hop, Field.kind_eq_error_iff.2 ⟨cause, rfl, hcause⟩]
      rfl
    | kindAgain hop =>
      simp only [hop, Field.kind_eq_ok_iff.2 rfl]
      rfl
    | fields hop hfaulty =>
      simp only [hop, Field.kind_eq_ok_iff.2 rfl]
      exact operation_eq_error_iff.2 ⟨cause, rfl, hfaulty⟩

/-- The members that count for a kind: its fields, and the one that names it. -/
def declared (kind : Operation.Kind) (members : Members) : Members :=
  members.filter fun m => m.1 ∈ "op" :: kind.fields.map Prod.fst

theorem under_declared {name : String} (h : name ∈ "op" :: kind.fields.map Prod.fst) :
    under name (declared kind members) = members.under name := by
  have hboth : (members.filter fun m => m.1 ∈ "op" :: kind.fields.map Prod.fst).filter
      (fun m => m.1 = name) = members.filter fun m => m.1 = name := by
    rw [List.filter_filter]
    refine List.filter_congr fun m _ => ?_
    by_cases hname : m.1 = name
    · rw [hname, decide_eq_true rfl, decide_eq_true h]
      rfl
    · rw [decide_eq_false hname, Bool.false_and]
  rw [under, declared, hboth]
  rfl

/-- In whatever order some members come, what stands alone under a name still does. -/
theorem under_of_perm {name : String} {other : Members} (h : other.Perm members)
    (hone : members.under name = [] ∨ ∃ v, members.under name = [v]) :
    other.under name = members.under name := by
  have hperm : (other.under name).Perm (members.under name) := (h.filter _).map _
  rcases hone with hnil | ⟨v, hv⟩
  · rw [hnil] at hperm ⊢
    exact hperm.eq_nil
  · rw [hv] at hperm ⊢
    exact List.perm_singleton.1 hperm

/-- **Neither the order of the members nor other members count.** -/
theorem Spell.of_perm {other : Members} {o : Operation} (h : members.Spell o)
    (hperm : (declared o.kind other).Perm (declared o.kind members)) : other.Spell o := by
  have hsame {name : String} (hname : name ∈ "op" :: o.kind.fields.map Prod.fst)
      (hone : members.under name = [] ∨ ∃ v, members.under name = [v]) :
      other.under name = members.under name := by
    have hmembers : under name (declared o.kind members) = members.under name :=
      under_declared hname
    have hother : under name (declared o.kind other) = other.under name := under_declared hname
    rw [← hmembers] at hone
    rw [← hmembers, ← hother]
    exact under_of_perm hperm hone
  have hsound : Sound o.kind members :=
    sound_of_operation_eq_ok (operation_eq_ok_iff.2 ⟨rfl, h.filled⟩)
  obtain ⟨leaveOut, hfilled⟩ := h.filled
  constructor
  · exact (hsame List.mem_cons_self (Or.inr ⟨_, h.named⟩)).trans h.named
  · refine ⟨leaveOut, fun field hfield => (hsame ?_ ?_).trans (hfilled field hfield)⟩
    · exact List.mem_cons_of_mem _ (List.mem_map_of_mem hfield)
    · exact (hsound field hfield).imp_right fun ⟨v, hv, _⟩ => ⟨v, hv⟩

/-- **What spells nothing is refused**, and nothing else is. -/
theorem exists_spell_iff_not_refused :
    (∃ o, members.Spell o) ↔ ∀ cause, ¬members.Refused cause := by
  simp only [← tagged_eq_ok_iff]
  constructor
  · rintro ⟨o, ho⟩ cause hcause
    rw [tagged_eq_error_iff.2 ⟨cause, rfl, hcause⟩] at ho
    cases ho
  · intro h
    cases htagged : members.tagged with
    | ok o => exact ⟨o, rfl⟩
    | error fault =>
      obtain ⟨cause, -, hcause⟩ := tagged_eq_error_iff.1 htagged
      exact absurd hcause (h cause)

end Members

end LinearMemory.Fixture
