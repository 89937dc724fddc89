import LinearMemory.Proofs.Fixture.Entries
import LinearMemory.Proofs.Fixture.Members

/-!
# Operations that are objects

An object that stands for an operation is read member by member. Its tag, the member `op`, may come
anywhere. What comes in front of it is kept until the kind is known, and so is what comes behind.
Hence the object is the operation of what its members hold (`Fixture.operation_ofMembers`), with two
things settled on the way: a tag that names no kind is refused where it stands, and so is a second
tag.

The reader never sees an operation alone. It stands in a document, with other operations in front of
it and behind (`Fixture.documentAround`), and these are read in the order of the text.

The result is `Fixture.load_object`.
-/

namespace LinearMemory.Fixture

open Json

/-! ### Objects -/

/-- **Members hold what was read of them**: each name, and each value as far as it is looked at
before the kind of the operation is known. -/
def Hold (members : List Member) (contents : Members) : Prop :=
  List.Forall₂ (fun m c => m.name = c.1 ∧ m.value.value operationDepth = .ok c.2) members contents

/-- What is seen of a value that was looked through. -/
theorem surface_of_value {t : Tree} {depth : Nat} {v : Value} (h : t.value depth = .ok v) :
    t.surface = .ok v := by
  cases t with
  | array elements =>
    rw [Tree.value] at h
    split at h
    · obtain ⟨_, -, heq⟩ := bind_eq_ok_iff.1 h
      exact heq
    · cases h
  | object members =>
    rw [Tree.value] at h
    split at h
    · obtain ⟨_, -, heq⟩ := bind_eq_ok_iff.1 h
      exact heq
    · cases h
  | null | boolean | number | text => exact h

theorem kind_of_value {t : Tree} {depth : Nat} {v : Value} (h : t.value depth = .ok v) :
    t.kind = Field.kind v := by
  rw [Tree.kind, surface_of_value h]
  rfl

/-- The members without those that name the kind. -/
def untagged (contents : Members) : Members :=
  contents.filter fun m => m.1 ≠ "op"

@[simp]
theorem untagged_cons_of_ne {key : String} (h : key ≠ "op") (v : Value) (contents : Members) :
    untagged ((key, v) :: contents) = (key, v) :: untagged contents :=
  List.filter_cons_of_pos (decide_eq_true h)

@[simp] theorem untagged_cons_tag (v : Value) (contents : Members) :
    untagged (("op", v) :: contents) = untagged contents :=
  List.filter_cons_of_neg fun h => of_decide_eq_true h rfl

theorem member_tag (r : PartialRecord) {m : Member} {v : Value} (hname : m.name = "op")
    (h : m.value.value operationDepth = .ok v) :
    r.member (m.key, m.value) = do
      unread "op" r.kind
      return ⟨some (← Field.kind v), r.members⟩ := by
  rw [PartialRecord.member, m.name_key]
  change (if m.name = "op" then _ else _) = _
  rw [if_pos hname, kind_of_value h, hname]

theorem member_field (r : PartialRecord) {m : Member} {v : Value} (hname : m.name ≠ "op")
    (h : m.value.value operationDepth = .ok v) :
    r.member (m.key, m.value) = .ok ⟨r.kind, (m.name, v) :: r.members⟩ := by
  rw [PartialRecord.member, m.name_key]
  change (if m.name = "op" then _ else _) = _
  rw [if_neg hname, h]
  rfl

/-- **Behind the tag**, fields are kept until the end, and a second tag is a fault. -/
theorem operation_behind_tag {members : List Member} {contents : Members}
    (h : Hold members contents) (kind : Operation.Kind) (earlier : Members) :
    ((members.map fun m => (m.key, m.value)).foldlM PartialRecord.member ⟨some kind, earlier⟩ >>=
        PartialRecord.operation) =
      Members.unlessAgain (contents.under "op")
        (Members.operation (earlier.reverse ++ untagged contents) kind) := by
  induction h generalizing earlier with
  | nil =>
    change Members.operation earlier.reverse kind = Members.operation (earlier.reverse ++ []) kind
    rw [List.append_nil]
  | @cons m c members contents hm _ ih =>
    obtain ⟨key, v⟩ := c
    obtain ⟨hname, hv⟩ := hm
    rw [List.map_cons, List.foldlM_cons]
    by_cases hkey : key = "op"
    · simp [member_tag _ (hname.trans hkey) hv, hkey, unread, Members.unlessAgain]
    · simpa [member_field _ (hname.trans_ne hkey) hv, hkey, hname] using ih ((key, v) :: earlier)

/-- **An operation is read from its members**: whatever stands before the tag is kept for it. -/
theorem operation_of_hold {members : List Member} {contents : Members} (h : Hold members contents)
    (earlier : Members) :
    ((members.map fun m => (m.key, m.value)).foldlM PartialRecord.member ⟨none, earlier⟩ >>=
        PartialRecord.operation) =
      match contents.under "op" with
      | [] => .error (.mistyped (.missing "op"))
      | v :: again => Field.kind v >>= fun kind =>
        Members.unlessAgain again
          (Members.operation (earlier.reverse ++ untagged contents) kind) := by
  -- up to the tag the fields are only kept; behind it the kind is settled
  induction h generalizing earlier with
  | nil => rfl
  | @cons m c members contents hm hrest ih =>
    obtain ⟨key, v⟩ := c
    obtain ⟨hname, hv⟩ := hm
    rw [List.map_cons, List.foldlM_cons]
    by_cases hkey : key = "op"
    · rw [member_tag _ (hname.trans hkey) hv, hkey, Members.under_cons_self, untagged_cons_tag]
      change (Field.kind v >>= _) >>= _ >>= _ = Field.kind v >>= _
      cases Field.kind v with
      | error fault => rfl
      | ok kind => exact operation_behind_tag hrest kind earlier
    · simpa [member_field _ (hname.trans_ne hkey) hv, hkey, hname] using ih ((key, v) :: earlier)

/-- **An object is the operation of what its members hold.** -/
theorem operation_ofMembers {members : List Member} {contents : Members}
    (h : Hold members contents) : (Tree.ofMembers members).operation = contents.tagged := by
  have hdeclared (kind : Operation.Kind) :
      ∀ field ∈ kind.fields, decide (field.1 ≠ "op") = true := by
    cases kind <;> decide
  have huntagged (kind : Operation.Kind) :
      Members.operation (untagged contents) kind = contents.operation kind :=
    Members.operation_filter (p := fun key => key ≠ "op") (hdeclared kind)
  refine (operation_of_hold h []).trans ?_
  simp only [List.reverse_nil, List.nil_append, huntagged]
  rfl

/-! ### Documents -/

/-- **Operations are read one after the other.** -/
theorem operations_append_cons (before after : List Tree) (t : Tree) :
    (Tree.array (before ++ t :: after)).operations =
      (Tree.array before).operations >>= fun earlier => t.operation >>= fun o =>
        (Tree.array after).operations >>= fun later => .ok (earlier ++ o :: later) := by
  simp only [Tree.operations, List.mapM_append, List.mapM_cons, bind_assoc]
  rfl

/-- **The three members of a scenario**, in the order in which a row has them. -/
theorem scenario_ofThree {ops len size : Member} (hops : ops.name = "ops") (hlen : len.name = "len")
    (hsize : size.name = "memSize") :
    (Tree.ofMembers [ops, len, size]).scenario =
      ops.value.operations >>= fun operations => len.value.word .word >>= fun length =>
        size.value.word .storeSize >>= fun store => .ok ⟨operations, length, store⟩ := by
  rw [Tree.ofMembers, Tree.scenario]
  simp only [List.map_cons, List.foldlM_cons, member_eq, hops, hlen, hsize, String.reduceEq,
    if_true, if_false]
  cases ops.value.operations with
  | error fault => rfl
  | ok operations =>
    cases len.value.word .word with
    | error fault => rfl
    | ok length =>
      cases size.value.word .storeSize with
      | error fault => rfl
      | ok store => rfl

/-- **A document with an operation in it**, which some come before and some behind. -/
def documentAround (name : String) (before : List Tree) (operation : Tree) (after : List Tree)
    (len size : Tree) : Tree :=
  Tree.ofMembers [written name (Tree.ofMembers
    [written "ops" (.array (before ++ operation :: after)), written "len" len,
      written "memSize" size])]

variable {name : String} {before after : List Tree} {t len size : Tree} {octets : List UInt8}
  {earlier : List Operation}

/-- **A document is read in the order of its text.** -/
theorem load_documentAround (htext : (documentAround name before t after len size).Text octets) :
    load octets = (Tree.array before).operations >>= fun earlier => t.operation >>= fun o =>
      (Tree.array after).operations >>= fun later => len.word .word >>= fun length =>
        size.word .storeSize >>= fun store =>
          .ok ((∅ : Fixture).insert name ⟨earlier ++ o :: later, length, store⟩) := by
  have hscenario : (Tree.ofMembers [written "ops" (.array (before ++ t :: after)),
      written "len" len, written "memSize" size]).scenario = _ := scenario_ofThree rfl rfl rfl
  rw [load_text htext, documentAround, fixture_ofMembers]
  change ((Tree.ofMembers _).scenario >>= fun s => pure ((∅ : Fixture).insert name s)) >>= pure = _
  rw [hscenario, bind_pure]
  simp only [written, operations_append_cons, bind_assoc]
  rfl

/-- **A document is loaded** if its operation is one, and what comes behind is in order. -/
theorem load_documentAround_eq_ok_iff (hbefore : IsOperations (.array before) earlier)
    (htext : (documentAround name before t after len size).Text octets) {f : Fixture} :
    load octets = .ok f ↔
      ∃ o later l s, t.operation = .ok o ∧ IsOperations (.array after) later ∧ IsWord len l ∧
        IsWord size s ∧ f = (∅ : Fixture).insert name ⟨earlier ++ o :: later, l, s⟩ := by
  rw [load_documentAround htext, operations_eq_ok_iff.2 hbefore]
  change (t.operation >>= _) = .ok f ↔ _
  simp only [bind_eq_ok_iff, operations_eq_ok_iff, tree_word_eq_ok_iff, Except.ok.injEq]
  constructor
  · rintro ⟨o, ho, later, hlater, l, hl, s, hs, rfl⟩
    exact ⟨o, later, l, s, ho, hlater, hl, hs, rfl⟩
  · rintro ⟨o, later, l, s, ho, hlater, hl, hs, rfl⟩
    exact ⟨o, ho, later, hlater, l, hl, s, hs, rfl⟩

/-- **A document is refused** for an operation that is none, whatever comes behind. -/
theorem load_documentAround_of_error (hbefore : IsOperations (.array before) earlier)
    (htext : (documentAround name before t after len size).Text octets) {fault : Fault}
    (h : t.operation = .error fault) : load octets = .error fault := by
  rw [load_documentAround htext, operations_eq_ok_iff.2 hbefore, h]
  rfl

/-- **Documents with the same operation are the same.** -/
theorem load_documentAround_congr {t' : Tree} {octets' : List UInt8}
    (htext : (documentAround name before t after len size).Text octets)
    (htext' : (documentAround name before t' after len size).Text octets')
    (h : t.operation = t'.operation) : load octets = load octets' := by
  rw [load_documentAround htext, load_documentAround htext', h]

/-- **An operation that is an object.** For any members, whose values were looked through, in a
document that is in order up to them:

* The document loads if and only if the members spell an operation and what comes behind them is in
  order. The operation is the one that they spell.
* They spell an operation if and only if under `op` the name of a kind stands, once, and under each
  field of this kind one value of its type and range. An expected value that may be absent may be
  missing or null.
* In another order, and with any other members that the kind does not have in between, the members
  load as the same.
* Members that spell no operation are refused: for what is wrong with `op`, then for the first of
  them that is unfit or comes again, then for the first field that is missing. What comes behind
  them makes no difference. -/
theorem load_object {members : List Member} {contents : Members} (hold : Hold members contents)
    (hbefore : IsOperations (.array before) earlier)
    (htext : (documentAround name before (Tree.ofMembers members) after len size).Text octets) :
    (∀ f, load octets = .ok f ↔
      ∃ o later l s, contents.Spell o ∧ IsOperations (.array after) later ∧ IsWord len l ∧
        IsWord size s ∧ f = (∅ : Fixture).insert name ⟨earlier ++ o :: later, l, s⟩) ∧
    ((∃ o, contents.Spell o) ↔ ∃ kind : Operation.Kind,
      contents.under "op" = [.text kind.name] ∧ Members.Complete kind contents) ∧
    (∀ o, contents.Spell o → ∀ members' contents' octets', Hold members' contents' →
      (Members.declared o.kind contents').Perm (Members.declared o.kind contents) →
        (documentAround name before (Tree.ofMembers members') after len size).Text octets' →
          load octets' = load octets) ∧
    (∀ cause, contents.Refused cause → load octets = .error (.mistyped cause)) ∧
    ((∃ o, contents.Spell o) ↔ ∀ cause, ¬contents.Refused cause) := by
  have hoperation {o : Operation} {members : List Member} {contents : Members}
      (hold : Hold members contents) :
      (Tree.ofMembers members).operation = .ok o ↔ contents.Spell o := by
    rw [operation_ofMembers hold, Members.tagged_eq_ok_iff]
  refine ⟨fun f => ?_, Members.exists_spell_iff, ?_, fun cause hcause => ?_,
    Members.exists_spell_iff_not_refused⟩
  · simp only [load_documentAround_eq_ok_iff hbefore htext, hoperation hold]
  · intro o ho members' contents' octets' hold' hperm htext'
    have ho' : contents'.Spell o := ho.of_perm hperm
    refine load_documentAround_congr htext' htext ?_
    rw [(hoperation hold).2 ho, (hoperation hold').2 ho']
  · refine load_documentAround_of_error hbefore htext ?_
    rw [operation_ofMembers hold]
    exact Members.tagged_eq_error_iff.2 ⟨cause, rfl, hcause⟩

/-- A read whose kind comes last. Other members come in between, and one of them comes again. -/
def lateKind : List Member :=
  [written "note" .null, written "offset" three, written "note" (.boolean true),
    written "op" (spelled "get")]

/-- A resize to nothing, whose kind is named twice. -/
def twoKinds : List Member :=
  [written "size" .null, written "op" (spelled "resize"), written "op" (spelled "resize")]

/-- A kind may come last, and one that comes twice is a fault before all others. -/
theorem load_object_lateKind :
    load (documentAround "a" [] (Tree.ofMembers lateKind) [] three three).compact =
      .ok ((∅ : Fixture).insert "a" ⟨[.read 3 none], 3, 3⟩) ∧
    load (documentAround "a" [] (Tree.ofMembers twoKinds) [.null] .null .null).compact =
      .error (.mistyped (.repeated "op")) := by
  have hnone : IsOperations (.array []) [] := ⟨[], rfl, .nil⟩
  have hthree : IsWord three 3 := ⟨_, rfl, rfl⟩
  constructor
  · have hold : Hold lateKind [("note", .null), ("offset", .number (.integer 3)),
        ("note", .boolean true), ("op", .text "get")] :=
      .cons ⟨rfl, rfl⟩ (.cons ⟨rfl, rfl⟩ (.cons ⟨rfl, rfl⟩ (.cons ⟨rfl, rfl⟩ .nil)))
    obtain ⟨hloads, -⟩ := load_object hold hnone (Tree.text_compact _)
    refine (hloads _).2 ⟨.read 3 none, [], 3, 3, ⟨rfl, true, ?_⟩, hnone, hthree, hthree, rfl⟩
    exact List.forall_mem_cons.2 ⟨rfl, List.forall_mem_singleton.2 rfl⟩
  · have hold : Hold twoKinds [("size", .null), ("op", .text Operation.Kind.resize.name),
        ("op", .text Operation.Kind.resize.name)] :=
      .cons ⟨rfl, rfl⟩ (.cons ⟨rfl, rfl⟩ (.cons ⟨rfl, rfl⟩ .nil))
    obtain ⟨-, -, -, hrefused, -⟩ := load_object hold hnone (Tree.text_compact _)
    exact hrefused _ (.kindAgain rfl)

end LinearMemory.Fixture
