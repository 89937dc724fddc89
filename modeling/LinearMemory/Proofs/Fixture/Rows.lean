import LinearMemory.Proofs.Fixture.Objects

/-!
# Rows and records agree

An operation may stand in a document as a row: the name of its kind, and then a value for each field
in the order of the schema. A row is decoded in its own way. The fields are taken from it one after
the other, and at the end none may be left over. A record is checked from left to right before any
field is taken.

The two agree because both come down to the same checks in the same order. What a row is refused for
is the first value that is not what its field holds, and after all of them the number of values
(`Fixture.Values.discard_operation_eq`). What a record in the order of the schema is refused for is
the first such value (`Fixture.Members.check_zip`). If there is none, then the values are those of
an operation (`Fixture.Values.exists_values_of_holds`), and both readings give it back.

A scenario may stand as a row as well. It is typed as it comes, so there is nothing to compare but
the order of its three parts (`Fixture.scenario_array`, `Fixture.scenario_ofThree`).

The result is `Fixture.load_row`.
-/

namespace LinearMemory.Fixture

open Json

/-! ### Taking values in order -/

namespace Values

variable {kind : Operation.Kind}

/-- **What a row of values is refused for**: a value that is not what its field holds, a missing
one, or one too many. -/
def demand (kind : Operation.Kind) : List Operation.FieldType → Values → Except Fault Unit
  | [], values =>
    if values.rest.isEmpty then .ok ()
    else .error (.mistyped (.operationTooLong kind (values.taken + values.rest.length)))
  | _ :: _, ⟨[], taken⟩ => .error (.mistyped (.operationTooShort kind taken))
  | type :: types, ⟨v :: rest, taken⟩ => do
    Field.check type v
    demand kind types ⟨rest, taken + 1⟩

theorem discard_take_bind {α β : Type} {type : Operation.FieldType}
    {types : List Operation.FieldType} {read : Value → Except Fault α} {values : Values}
    {f : α × Values → Except Fault β} (hread : ∀ v, discard (read v) = Field.check type v)
    (hrest : ∀ a left, left.taken + left.rest.length = values.taken + values.rest.length →
      discard (f (a, left)) = demand kind types left) :
    discard ((take kind read).run values >>= f) = demand kind (type :: types) values := by
  obtain ⟨rest, taken⟩ := values
  cases rest with
  | nil => rfl
  | cons v rest =>
    change discard ((read v >>= fun a => pure (a, ⟨rest, taken + 1⟩)) >>= f) = _
    rw [demand, ← hread]
    cases read v with
    | error fault => rfl
    | ok a => exact hrest a ⟨rest, taken + 1⟩ (Nat.add_right_comm taken 1 rest.length)

/-- **The fields of a row are demanded one after the other.** -/
theorem discard_operation (values : List Value) :
    discard (operation values kind) = demand kind (kind.fields.map Prod.snd) ⟨values, 0⟩ := by
  have hend {o : Operation} {left : Values}
      (hcount : left.taken + left.rest.length = 0 + values.length) :
      discard (if left.rest.isEmpty then (pure o : Except Fault Operation)
        else throw (.mistyped (.operationTooLong kind values.length))) = demand kind [] left := by
    rw [demand, hcount, Nat.zero_add]
    split <;> rfl
  rw [operation]
  cases kind with
  | resize =>
    simp only [fields, StateT.run_bind, StateT.run_pure, bind_assoc, pure_bind]
    exact discard_take_bind (fun _ => rfl) fun _ _ h => hend h
  | write =>
    simp only [fields, StateT.run_bind, StateT.run_pure, bind_assoc, pure_bind]
    exact discard_take_bind (fun _ => rfl) fun _ _ h =>
      discard_take_bind (fun _ => rfl) fun _ _ h' =>
        discard_take_bind (fun _ => rfl) fun _ _ h'' => hend (h''.trans (h'.trans h))
  | append | read | view | normalize =>
    simp only [fields, StateT.run_bind, StateT.run_pure, bind_assoc, pure_bind]
    exact discard_take_bind (fun _ => rfl) fun _ _ h =>
      discard_take_bind (fun _ => rfl) fun _ _ h' => hend (h'.trans h)

/-- **A row has to have as many values** as its kind has fields. -/
def counted (kind : Operation.Kind) (wanted count : Nat) : Except Fault Unit :=
  if count < wanted then .error (.mistyped (.operationTooShort kind count))
  else if wanted < count then .error (.mistyped (.operationTooLong kind count))
  else .ok ()

/-- **Values come before their number**: all that are there are checked before any is missed or one
is found to be too many. -/
theorem demand_eq (types : List Operation.FieldType) (values : List Value) (taken : Nat) :
    demand kind types ⟨values, taken⟩ =
      (types.zip values).forM (fun p => Field.check p.1 p.2) >>= fun _ =>
        counted kind (taken + types.length) (taken + values.length) := by
  induction types generalizing values taken with
  | nil =>
    change demand kind [] ⟨values, taken⟩ = counted kind taken (taken + values.length)
    cases values with
    | nil =>
      change .ok () = counted kind taken taken
      rw [counted, if_neg (Nat.lt_irrefl taken), if_neg (Nat.lt_irrefl taken)]
    | cons v rest =>
      have hmore : taken < taken + (v :: rest).length := Nat.lt_add_of_pos_right (Nat.succ_pos _)
      rw [demand, counted, if_neg (Nat.not_lt_of_gt hmore), if_pos hmore]
      rfl
  | cons type types ih =>
    cases values with
    | nil =>
      have hmore : taken < taken + (type :: types).length :=
        Nat.lt_add_of_pos_right (Nat.succ_pos _)
      change demand kind (type :: types) ⟨[], taken⟩ = counted kind _ taken
      rw [demand, counted, if_pos hmore]
    | cons v rest =>
      have htypes : taken + 1 + types.length = taken + (type :: types).length :=
        Nat.add_right_comm taken 1 types.length
      have hvalues : taken + 1 + rest.length = taken + (v :: rest).length :=
        Nat.add_right_comm taken 1 rest.length
      rw [demand, ih, htypes, hvalues]
      change _ = (Field.check type v >>= fun _ => _) >>= _
      rw [bind_assoc]
      rfl

/-- **A row of values is refused** for the first that is not what its field holds, and then for
their number. -/
theorem discard_operation_eq (values : List Value) :
    discard (operation values kind) =
      ((kind.fields.map Prod.snd).zip values).forM (fun p => Field.check p.1 p.2) >>= fun _ =>
        counted kind kind.fields.length values.length := by
  rw [discard_operation, demand_eq, Nat.zero_add, Nat.zero_add, List.length_map]

variable {values : List Value}

theorem operation_of_unfit {front back : List (Operation.FieldType × Value)}
    {type : Operation.FieldType} {v : Value} {cause : Mistyped}
    (h : (kind.fields.map Prod.snd).zip values = front ++ (type, v) :: back)
    (hfront : ∀ p ∈ front, Field.Holds p.1 p.2) (hv : Field.Unfit type v cause) :
    operation values kind = .error (.mistyped cause) := by
  have hchecks : ((kind.fields.map Prod.snd).zip values).forM (fun p => Field.check p.1 p.2) =
      .error (.mistyped cause) :=
    forM_eq_error_iff.2 ⟨front, (type, v), back, h,
      fun p hp => Field.check_of_holds (hfront p hp), Field.check_of_unfit hv⟩
  rw [← discard_eq_error_iff, discard_operation_eq, hchecks]
  rfl

theorem operation_of_count
    (hholds : ∀ p ∈ (kind.fields.map Prod.snd).zip values, Field.Holds p.1 p.2) {fault : Fault}
    (hcount : counted kind kind.fields.length values.length = .error fault) :
    operation values kind = .error fault := by
  have hchecks : ((kind.fields.map Prod.snd).zip values).forM (fun p => Field.check p.1 p.2) =
      .ok () := forM_eq_ok_iff.2 fun p hp => Field.check_of_holds (hholds p hp)
  rw [← discard_eq_error_iff, discard_operation_eq, hchecks]
  exact hcount

/-! ### As many values as fields -/

/-- A value that is there is taken. -/
@[simp] theorem run_take_cons (kind : Operation.Kind) {α : Type} (read : Value → Except Fault α)
    (v : Value) (rest : List Value) (taken : Nat) :
    (take kind read).run ⟨v :: rest, taken⟩ =
      read v >>= fun content => .ok (content, ⟨rest, taken + 1⟩) := rfl

/-- **The values of an operation are a row of it**, with null for an expected value that is
absent. -/
theorem operation_values (o : Operation) :
    operation ((Fixture.values false o).map Prod.snd) o.kind = .ok o := by
  cases o with
  | read offset expect | view offset expect =>
    cases expect <;> simp [operation, Operation.kind, fields, Fixture.values, expectValues]
  | _ => simp [operation, Operation.kind, fields, Fixture.values]

/-- The values of an operation stand in the order of its fields. -/
theorem map_fst_values (o : Operation) :
    (Fixture.values false o).map Prod.fst = o.kind.fields.map Prod.fst := by
  cases o with
  | read offset expect | view offset expect => cases expect <;> rfl
  | _ => rfl

/-- **Values that their fields hold** are those of an operation. -/
theorem exists_values_of_holds (h : List.Forall₂ Field.Holds (kind.fields.map Prod.snd) values) :
    ∃ o : Operation, o.kind = kind ∧ values = (Fixture.values false o).map Prod.snd := by
  cases kind with
  | resize =>
    obtain _ | ⟨hsize, ⟨⟩⟩ := h
    obtain ⟨size, rfl⟩ := hsize.exists_word
    exact ⟨.resize size, rfl, rfl⟩
  | write =>
    obtain _ | ⟨hoffset, _ | ⟨hsize, _ | ⟨hvalue, ⟨⟩⟩⟩⟩ := h
    obtain ⟨offset, rfl⟩ := hoffset.exists_offset
    obtain ⟨size, rfl⟩ := hsize.exists_word
    obtain ⟨value, rfl⟩ := hvalue.exists_text
    exact ⟨.write offset size value, rfl, rfl⟩
  | append =>
    obtain _ | ⟨hvalue, _ | ⟨hexpect, ⟨⟩⟩⟩ := h
    obtain ⟨value, rfl⟩ := hvalue.exists_text
    obtain ⟨expect, rfl⟩ := hexpect.exists_word
    exact ⟨.append value expect, rfl, rfl⟩
  | read =>
    obtain _ | ⟨hoffset, _ | ⟨hexpect, ⟨⟩⟩⟩ := h
    obtain ⟨offset, rfl⟩ := hoffset.exists_offset
    rcases hexpect.null_or_text with rfl | ⟨s, rfl⟩
    · exact ⟨.read offset none, rfl, rfl⟩
    · exact ⟨.read offset (some s), rfl, rfl⟩
  | view =>
    obtain _ | ⟨hoffset, _ | ⟨hexpect, ⟨⟩⟩⟩ := h
    obtain ⟨offset, rfl⟩ := hoffset.exists_offset
    rcases hexpect.null_or_text with rfl | ⟨s, rfl⟩
    · exact ⟨.view offset none, rfl, rfl⟩
    · exact ⟨.view offset (some s), rfl, rfl⟩
  | normalize =>
    obtain _ | ⟨hoffset, _ | ⟨hexpect, ⟨⟩⟩⟩ := h
    obtain ⟨offset, rfl⟩ := hoffset.exists_offset
    obtain ⟨expect, rfl⟩ := hexpect.exists_word
    exact ⟨.normalize offset expect, rfl, rfl⟩

end Values

/-! ### The same values as members -/

/-- **Fields in order are checked one after the other**, as none of them comes again. -/
theorem Members.check_zip {fields todo : List (String × Operation.FieldType)} {seen : List String}
    (hlookup : ∀ field ∈ todo, fields.lookup field.1 = some field.2)
    (hseen : ∀ field ∈ todo, field.1 ∉ seen) (hnodup : (todo.map Prod.fst).Nodup)
    (values : List Value) :
    check fields seen ((todo.map Prod.fst).zip values) =
      ((todo.map Prod.snd).zip values).forM fun p => Field.check p.1 p.2 := by
  induction todo generalizing seen values with
  | nil => rfl
  | cons field todo ih =>
    cases values with
    | nil => rfl
    | cons v values =>
      obtain ⟨key, type⟩ := field
      obtain ⟨hkey, hlookup⟩ := List.forall_mem_cons.1 hlookup
      obtain ⟨hnew, hseen⟩ := List.forall_mem_cons.1 hseen
      obtain ⟨hnot, hnodup⟩ := List.nodup_cons.1 hnodup
      have hrest : ∀ field ∈ todo, field.1 ∉ key :: seen := fun field hfield =>
        List.not_mem_cons_of_ne_of_not_mem
          (fun heq => hnot (List.mem_map.2 ⟨field, hfield, heq⟩)) (hseen field hfield)
      change check fields seen ((key, v) :: (todo.map Prod.fst).zip values) = _
      rw [check_cons_of_new hkey hnew, ih hlookup hrest hnodup]
      rfl

theorem Members.check_zip_kind (kind : Operation.Kind) (values : List Value) :
    check kind.fields [] ((kind.fields.map Prod.fst).zip values) =
      ((kind.fields.map Prod.snd).zip values).forM fun p => Field.check p.1 p.2 := by
  refine check_zip (fun field hfield => lookup_fields_eq_some_iff.2 hfield)
    (fun _ _ => List.not_mem_nil) ?_ values
  cases kind <;> decide

/-- **A row with as many values as fields is the operation of a record** that has these values under
the fields, in their order. -/
theorem Values.operation_eq_of_length {kind : Operation.Kind} {values : List Value}
    (h : values.length = kind.fields.length) :
    Values.operation values kind =
      Members.operation ((kind.fields.map Prod.fst).zip values) kind := by
  have hrecord := Members.check_zip_kind kind values
  -- the same checks decide both, and when they pass the values are those of an operation
  cases hchecks : ((kind.fields.map Prod.snd).zip values).forM fun p => Field.check p.1 p.2 with
  | error fault =>
    rw [hchecks] at hrecord
    rw [Members.operation_of_check_eq_error hrecord, ← discard_eq_error_iff, discard_operation_eq,
      hchecks]
    rfl
  | ok u =>
    have hlength : (kind.fields.map Prod.snd).length = values.length := by
      rw [List.length_map, h]
    have hholds : List.Forall₂ Field.Holds (kind.fields.map Prod.snd) values :=
      List.forall₂_iff_zip.2 ⟨hlength, fun hmem =>
        Field.check_eq_ok_iff.1 (forM_eq_ok_iff.1 hchecks _ hmem)⟩
    obtain ⟨o, rfl, rfl⟩ := exists_values_of_holds hholds
    rw [operation_values, ← map_fst_values, ← List.zip_of_prod rfl rfl]
    exact (operation_of_perm (List.Perm.refl _)).symm

/-! ### Rows of trees -/

/-- **Elements stand for values**, as far as they are looked at before the row is taken. -/
def Stand (elements : List Tree) (values : List Value) : Prop :=
  List.Forall₂ (fun t v => t.value operationDepth = .ok v) elements values

/-- Behind the kind, values are kept until the end. -/
theorem operation_behind_kind {elements : List Tree} {values : List Value}
    (h : Stand elements values) (kind : Operation.Kind) (earlier : List Value) :
    (elements.foldlM PartialRow.element (some (kind, earlier)) >>= PartialRow.operation) =
      Values.operation (earlier.reverse ++ values) kind := by
  induction h generalizing earlier with
  | nil =>
    change Values.operation earlier.reverse kind = Values.operation (earlier.reverse ++ []) kind
    rw [List.append_nil]
  | @cons t v elements values ht _ ih =>
    have hstep : PartialRow.element (some (kind, earlier)) t = .ok (some (kind, v :: earlier)) := by
      rw [PartialRow.element, ht]
      rfl
    rw [List.foldlM_cons, hstep]
    refine (ih (v :: earlier)).trans ?_
    rw [List.reverse_cons, List.append_assoc]
    rfl

variable {kind : Operation.Kind} {tag : Tree} {elements : List Tree} {values : List Value}

/-- **An array is the operation of what its elements stand for.** -/
theorem operation_array (htag : tag.value operationDepth = .ok (.text kind.name))
    (h : Stand elements values) :
    (Tree.array (tag :: elements)).operation = Values.operation values kind := by
  have hkind : PartialRow.element none tag = .ok (some (kind, [])) := by
    rw [PartialRow.element, kind_of_value htag, Field.kind_eq_ok_iff.2 rfl]
    rfl
  rw [Tree.operation, List.foldlM_cons, hkind]
  exact operation_behind_kind h kind []

/-- **The record of a row**: the tag under `op`, and each element under the name of its field. -/
structure IsRecordOf (kind : Operation.Kind) (tag : Tree) (elements : List Tree)
    (members : List Member) : Prop where
  names : members.map Member.name = "op" :: kind.fields.map Prod.fst
  values : members.map Member.value = tag :: elements

theorem hold_of_stand {members : List Member} {names : List String} (h : Stand elements values)
    (hnames : members.map Member.name = names) (helements : members.map Member.value = elements) :
    Hold members (names.zip values) := by
  induction h generalizing members names with
  | nil =>
    obtain rfl := List.map_eq_nil_iff.1 helements
    rw [List.zip_nil_right]
    exact .nil
  | @cons t v elements values ht _ ih =>
    obtain ⟨m, members, rfl, rfl, hrest⟩ := List.map_eq_cons_iff.1 helements
    subst hnames
    exact .cons ⟨rfl, ht⟩ (ih rfl hrest)

/-- **The record of a row is an object of the same operation.** -/
theorem operation_of_isRecordOf {members : List Member}
    (htag : tag.value operationDepth = .ok (.text kind.name)) (h : Stand elements values)
    (hrecord : IsRecordOf kind tag elements members) :
    (Tree.ofMembers members).operation =
      Members.operation ((kind.fields.map Prod.fst).zip values) kind := by
  have hold : Hold members (("op" :: kind.fields.map Prod.fst).zip (.text kind.name :: values)) :=
    hold_of_stand (.cons htag h) hrecord.names hrecord.values
  have hnone : Members.under "op" ((kind.fields.map Prod.fst).zip values) = [] :=
    Members.under_eq_nil fun m hm hname => by
      have hmem : m.1 ∈ kind.fields.map Prod.fst := (List.of_mem_zip hm).1
      rw [hname] at hmem
      revert hmem
      cases kind <;> decide
  have hundeclared : kind.fields.lookup "op" = none := by
    cases kind <;> rfl
  rw [operation_ofMembers hold, List.zip_cons_cons, Members.tagged, Members.under_cons_self, hnone]
  change (Field.kind (.text kind.name) >>= _) = _
  rw [Field.kind_eq_ok_iff.2 rfl]
  exact Members.operation_append_cons_of_none hundeclared []

/-- A row with as many elements as its kind has fields has a record. -/
theorem exists_isRecordOf (tag : Tree) (h : elements.length = kind.fields.length) :
    ∃ members, IsRecordOf kind tag elements members := by
  have hlength : ("op" :: kind.fields.map Prod.fst).length = (tag :: elements).length := by
    rw [List.length_cons, List.length_cons, List.length_map, h]
  refine ⟨(("op" :: kind.fields.map Prod.fst).zip (tag :: elements)).map fun p => written p.1 p.2,
    ?_, ?_⟩
  · rw [List.map_map]
    exact List.map_fst_zip (Nat.le_of_eq hlength)
  · rw [List.map_map]
    exact List.map_snd_zip (Nat.le_of_eq hlength.symm)

/-! ### Rows of scenarios -/

/-- **A scenario as a row** is read like a record in the same order. -/
theorem scenario_array (ops len size : Tree) :
    (Tree.array [ops, len, size]).scenario =
      ops.operations >>= fun operations => len.word .word >>= fun length =>
        size.word .storeSize >>= fun store => .ok ⟨operations, length, store⟩ := by
  rw [Tree.scenario]
  simp only [List.foldlM_cons, List.foldlM_nil, Draft.empty, Draft.element, bind_assoc, pure_bind]
  rfl

/-- **Entries with the same scenario** are the same in a document. -/
theorem load_congr_entry {front back : List Member} {e e' : Member} {octets octets' : List UInt8}
    (hname : e.name = e'.name) (hvalue : e.value.scenario = e'.value.scenario)
    (htext : (Tree.ofMembers (front ++ e :: back)).Text octets)
    (htext' : (Tree.ofMembers (front ++ e' :: back)).Text octets') :
    load octets = load octets' := by
  have hentry (f : Fixture) : f.entry e = f.entry e' := by
    rw [entry, entry, hname, hvalue]
  rw [load_text htext, load_text htext', fixture_ofMembers, fixture_ofMembers]
  simp only [List.foldlM_append, List.foldlM_cons, hentry]

/-! ### The number of values -/

/-- What a row of another length than its record is refused for. -/
def wrongCount (kind : Operation.Kind) (count : Nat) : Mistyped :=
  if count < kind.fields.length then .operationTooShort kind count
  else .operationTooLong kind count

theorem Values.counted_of_ne {count : Nat} (h : count ≠ kind.fields.length) :
    Values.counted kind kind.fields.length count = .error (.mistyped (wrongCount kind count)) := by
  rw [Values.counted, wrongCount]
  split
  · rfl
  · next hless => rw [if_pos (by omega)]

/-- A row of another length is refused. -/
theorem Values.operation_ne_ok (h : values.length ≠ kind.fields.length) (o : Operation) :
    Values.operation values kind ≠ .ok o := by
  intro ho
  have hdiscard : discard (Values.operation values kind) = _ := Values.discard_operation_eq values
  rw [discard_eq_ok_iff.2 ⟨o, ho⟩, Values.counted_of_ne h] at hdiscard
  obtain ⟨_, -, hfault⟩ := bind_eq_ok_iff.1 hdiscard.symm
  cases hfault

variable {name : String} {before after : List Tree} {len size : Tree} {octets : List UInt8}

/-- **Rows and records agree.** For an operation as a row, with the name of any kind and with any
values that were looked through, and for the members in which the same values stand under the fields
of the kind:

* A row with as many values as the kind has fields loads as the record does, fault or not.
* So a row loads if and only if there is such a record and it loads, and both load as the same.
* A row of another length is refused for the first value that is not what its field holds. Values
  behind the last field are not looked at. If there is none, the row is refused for its length.

A scenario as a row and a scenario as a record, with any three values, load as the same, whatever
scenarios come before and behind. -/
theorem load_row {values : List Value} (htag : tag.value operationDepth = .ok (.text kind.name))
    (hstand : Stand elements values)
    (htext : (documentAround name before (.array (tag :: elements)) after len size).Text octets) :
    (elements.length = kind.fields.length →
      ∀ members octets', IsRecordOf kind tag elements members →
        (documentAround name before (Tree.ofMembers members) after len size).Text octets' →
          load octets = load octets') ∧
    (∀ f, load octets = .ok f ↔ elements.length = kind.fields.length ∧
      ∃ members octets', IsRecordOf kind tag elements members ∧
        (documentAround name before (Tree.ofMembers members) after len size).Text octets' ∧
          load octets' = .ok f) ∧
    (elements.length ≠ kind.fields.length → ∀ earlier, IsOperations (.array before) earlier →
      (∀ front type v back cause,
        (kind.fields.map Prod.snd).zip values = front ++ (type, v) :: back →
          (∀ p ∈ front, Field.Holds p.1 p.2) → Field.Unfit type v cause →
            load octets = .error (.mistyped cause)) ∧
      ((∀ p ∈ (kind.fields.map Prod.snd).zip values, Field.Holds p.1 p.2) →
        load octets = .error (.mistyped (wrongCount kind elements.length)))) ∧
    ∀ (front back : List Member) (row record m₁ m₂ m₃ : Member) text text',
      row.name = record.name → row.value = .array [m₁.value, m₂.value, m₃.value] →
        record.value = Tree.ofMembers [m₁, m₂, m₃] →
          m₁.name = "ops" → m₂.name = "len" → m₃.name = "memSize" →
            (Tree.ofMembers (front ++ row :: back)).Text text →
              (Tree.ofMembers (front ++ record :: back)).Text text' → load text = load text' := by
  have hrow : (Tree.array (tag :: elements)).operation = Values.operation values kind :=
    operation_array htag hstand
  have hlength : elements.length = values.length := hstand.length_eq
  have hagree (hcount : elements.length = kind.fields.length) (members : List Member)
      (octets' : List UInt8) (hrecord : IsRecordOf kind tag elements members)
      (htext' : (documentAround name before (Tree.ofMembers members) after len size).Text octets') :
      load octets = load octets' := by
    refine load_documentAround_congr htext htext' ?_
    rw [hrow, operation_of_isRecordOf htag hstand hrecord,
      Values.operation_eq_of_length (hlength.symm.trans hcount)]
  refine ⟨hagree, fun f => ⟨fun hf => ?_, ?_⟩, fun hcount earlier hbefore => ⟨?_, ?_⟩, ?_⟩
  · -- a document that loads has an operation in this place, so its row is not of another length
    have hcount : elements.length = kind.fields.length := by
      by_contra hne
      rw [load_documentAround htext, hrow] at hf
      obtain ⟨_, -, hf⟩ := bind_eq_ok_iff.1 hf
      obtain ⟨o, ho, -⟩ := bind_eq_ok_iff.1 hf
      exact Values.operation_ne_ok (hlength ▸ hne) o ho
    obtain ⟨members, hrecord⟩ := exists_isRecordOf tag hcount
    have htext' :=
      Tree.text_compact (documentAround name before (Tree.ofMembers members) after len size)
    exact ⟨hcount, members, _, hrecord, htext',
      (hagree hcount members _ hrecord htext').symm.trans hf⟩
  · rintro ⟨hcount, members, octets', hrecord, htext', hf⟩
    rw [hagree hcount members octets' hrecord htext', hf]
  · intro front type v back cause hzip hfront hv
    refine load_documentAround_of_error hbefore htext ?_
    rw [hrow]
    exact Values.operation_of_unfit hzip hfront hv
  · intro hholds
    rw [hlength] at hcount ⊢
    refine load_documentAround_of_error hbefore htext ?_
    rw [hrow]
    exact Values.operation_of_count hholds (Values.counted_of_ne hcount)
  · intro front back row record m₁ m₂ m₃ text text' hname hrow hrecord hops hlen hsize
    refine load_congr_entry hname ?_
    rw [hrow, hrecord, scenario_array, scenario_ofThree hops hlen hsize]

/-- Null stands for an expected value that is absent, and a row with a value too many is refused. -/
theorem load_row_readNull :
    load (documentAround "a" [] (.array [spelled "get", three, .null]) [] three three).compact =
      .ok ((∅ : Fixture).insert "a" ⟨[.read 3 none], 3, 3⟩) ∧
    load (documentAround "a" [] (.array [spelled "resize", three, .null]) [.null] .null
        .null).compact =
      .error (.mistyped (.operationTooLong .resize 2)) := by
  have hnone : IsOperations (.array []) [] := ⟨[], rfl, .nil⟩
  have hthree : IsWord three 3 := ⟨_, rfl, rfl⟩
  have hstand : Stand [three, .null] [.number (.integer 3), .null] := .cons rfl (.cons rfl .nil)
  constructor
  · have htag : (spelled "get").value operationDepth = .ok (.text Operation.Kind.read.name) := rfl
    obtain ⟨-, hloads, -⟩ := load_row htag hstand (Tree.text_compact _)
    refine (hloads _).2 ⟨rfl, [written "op" (spelled "get"), written "offset" three,
      written "expect" .null], _, ⟨rfl, rfl⟩, Tree.text_compact _, ?_⟩
    exact (load_documentAround_eq_ok_iff hnone (Tree.text_compact _)).2
      ⟨.read 3 none, [], 3, 3, rfl, hnone, hthree, hthree, rfl⟩
  · have htag : (spelled "resize").value operationDepth =
        .ok (.text Operation.Kind.resize.name) := rfl
    obtain ⟨-, -, hrefused, -⟩ := load_row htag hstand (Tree.text_compact _)
    exact (hrefused (by decide) [] hnone).2 (List.forall_mem_singleton.2 (.word 3))

end LinearMemory.Fixture
