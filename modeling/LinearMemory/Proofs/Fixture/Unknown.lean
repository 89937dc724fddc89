import LinearMemory.Proofs.Fixture.Acceptance
import LinearMemory.Proofs.Fixture.Nesting
import LinearMemory.Proofs.Fixture.Slots

/-!
# Members that are not known

Objects may have members that nobody asks for. In a scenario such a member is passed over as it is
read, so that its value may be any tree at all. In an operation it is kept until the kind is known,
since it could be a field of the kind, so its value is looked through and has to be proper, with
room for its brackets (`Json.Tree.IsProper.discard_value`). Once the kind is known, the member makes
no difference (`Fixture.operation_insert`).

The result is `Fixture.load_insert`.
-/

namespace LinearMemory.Fixture

open Json

/-! ### Scenarios -/

/-- **A member that a scenario does not have** makes no difference to it. -/
theorem scenario_insert {m : Member} (h : m.name ∉ scenarioFields)
    (front back : List (Quoted × Tree)) :
    (Tree.object (front ++ (m.key, m.value) :: back)).scenario =
      (Tree.object (front ++ back)).scenario := by
  have hpassed (d : Draft) : d.member (m.key, m.value) = .ok d := by
    obtain ⟨hops, hothers⟩ := List.ne_and_not_mem_of_not_mem_cons h
    obtain ⟨hlen, hothers⟩ := List.ne_and_not_mem_of_not_mem_cons hothers
    have hsize := List.ne_of_not_mem_cons hothers
    rw [member_eq, if_neg hops, if_neg hlen, if_neg hsize]
    rfl
  simp only [Tree.scenario, List.foldlM_append, List.foldlM_cons, hpassed]
  rfl

/-! ### Operations -/

/-- **Some members name a kind**: the value of one that is called `op` is the name of this kind. -/
def Names (kind : Operation.Kind) (members : List (Quoted × Tree)) : Prop :=
  ∃ m ∈ members, m.1.name = .ok "op" ∧ m.2.kind = .ok kind

namespace PartialRecord

variable {r r' : PartialRecord} {kind : Operation.Kind} {members : List (Quoted × Tree)}

/-- A member called `op` names the kind, once. -/
theorem member_tag_eq_ok {m : Quoted × Tree} (hname : m.1.name = .ok "op")
    (h : r.member m = .ok r') :
    r.kind = none ∧ ∃ kind, m.2.kind = .ok kind ∧ r' = ⟨some kind, r.members⟩ := by
  rw [PartialRecord.member, hname] at h
  change (unread "op" r.kind >>= fun _ => m.2.kind >>= fun kind =>
    pure (⟨some kind, r.members⟩ : PartialRecord)) = .ok r' at h
  obtain ⟨_, hunread, h⟩ := bind_eq_ok_iff.1 h
  obtain ⟨kind, hkind, heq⟩ := bind_eq_ok_iff.1 h
  refine ⟨?_, kind, hkind, (Except.ok.inj heq).symm⟩
  cases hr : r.kind with
  | none => rfl
  | some kind' =>
    rw [hr] at hunread
    cases hunread

/-- The kind stays what it is. -/
theorem kind_of_member {m : Quoted × Tree} (hr : r.kind = some kind) (h : r.member m = .ok r') :
    r'.kind = some kind := by
  obtain ⟨name, hname, hm⟩ := bind_eq_ok_iff.1 h
  by_cases hop : name = "op"
  · subst hop
    rw [(member_tag_eq_ok hname h).1] at hr
    cases hr
  · rw [if_neg hop] at hm
    obtain ⟨v, -, heq⟩ := bind_eq_ok_iff.1 hm
    obtain rfl := Except.ok.inj heq
    exact hr

theorem kind_of_foldlM (hr : r.kind = some kind)
    (h : members.foldlM PartialRecord.member r = .ok r') : r'.kind = some kind := by
  induction members generalizing r with
  | nil =>
    cases h
    exact hr
  | cons m members ih =>
    rw [List.foldlM_cons, bind_eq_ok_iff] at h
    obtain ⟨r₁, hm, hrest⟩ := h
    exact ih (kind_of_member hr hm) hrest

/-- **The kind that members name** is the one that is read. -/
theorem kind_of_names (hnames : Names kind members)
    (h : members.foldlM PartialRecord.member r = .ok r') : r'.kind = some kind := by
  obtain ⟨m, hm, hname, hkind⟩ := hnames
  obtain ⟨front, back, rfl⟩ := List.append_of_mem hm
  rw [List.foldlM_append, bind_eq_ok_iff] at h
  obtain ⟨r₁, -, h⟩ := h
  rw [List.foldlM_cons, bind_eq_ok_iff] at h
  obtain ⟨r₂, htag, hback⟩ := h
  obtain ⟨-, kind', hkind', rfl⟩ := member_tag_eq_ok hname htag
  obtain rfl : kind = kind' := Except.ok.inj (hkind.symm.trans hkind')
  exact kind_of_foldlM rfl hback

/-- **What was kept before** makes no difference to the members behind. -/
theorem foldlM_kept (members : List (Quoted × Tree)) (kind : Option Operation.Kind)
    (kept : Members) :
    members.foldlM PartialRecord.member ⟨kind, kept⟩ =
      (fun r => ⟨r.kind, r.members ++ kept⟩) <$>
        members.foldlM PartialRecord.member ⟨kind, []⟩ := by
  refine foldlM_change (fun r : PartialRecord => ⟨r.kind, r.members ++ kept⟩) (fun _ => True) ?_
    (fun _ _ _ _ _ => trivial) (x := ⟨kind, []⟩) trivial members
  intro r _ m
  simp only [PartialRecord.member]
  cases m.1.name with
  | error fault => rfl
  | ok key =>
    change (if key = "op" then _ else _) = _ <$> (if key = "op" then _ else _)
    split
    · cases r.kind <;> cases m.2.kind <;> rfl
    · cases m.2.value operationDepth <;> rfl

end PartialRecord

/-- **A member of an operation** that is not `op` is kept, between the members in front of it and
those behind it. -/
theorem operation_fill_member {front back : List (Quoted × Tree)} {key : Quoted} {name : String}
    {kind : Operation.Kind} {r r₀ : PartialRecord}
    (hfront : front.foldlM PartialRecord.member ⟨none, []⟩ = .ok r)
    (hback : back.foldlM PartialRecord.member ⟨r.kind, []⟩ = .ok r₀) (hkind : r₀.kind = some kind)
    (hname : key.name = .ok name) (hop : name ≠ "op") (t : Tree) :
    (Tree.object (front ++ (key, t) :: back)).operation =
      t.value operationDepth >>= fun v =>
        Members.operation (r.members.reverse ++ (name, v) :: r₀.members.reverse) kind := by
  have hstep : r.member (key, t) =
      (fun v => ⟨r.kind, (name, v) :: r.members⟩) <$> t.value operationDepth := by
    rw [PartialRecord.member, hname]
    change (if name = "op" then _ else _) = _
    rw [if_neg hop]
    rfl
  change ((front ++ (key, t) :: back).foldlM PartialRecord.member ⟨none, []⟩ >>= _) = _
  rw [List.foldlM_append, hfront]
  change (((key, t) :: back).foldlM PartialRecord.member r >>= _) = _
  rw [List.foldlM_cons, hstep]
  cases t.value operationDepth with
  | error fault => rfl
  | ok v =>
    change (back.foldlM PartialRecord.member ⟨r.kind, (name, v) :: r.members⟩ >>= _) = _
    rw [PartialRecord.foldlM_kept, hback]
    change PartialRecord.operation ⟨r₀.kind, r₀.members ++ (name, v) :: r.members⟩ = _
    -- the members are kept the last one first
    rw [PartialRecord.operation, hkind]
    change Members.operation (r₀.members ++ _ :: r.members).reverse kind = _
    rw [List.reverse_append, List.reverse_cons, List.append_assoc]
    rfl

/-- **A member that an operation does not have** is looked through and makes no other difference. -/
theorem operation_insert {m : Member} {kind : Operation.Kind} {front back : List (Quoted × Tree)}
    {o : Operation} (hnames : Names kind (front ++ back))
    (hm : m.name ∉ "op" :: kind.fields.map Prod.fst)
    (h : (Tree.object (front ++ back)).operation = .ok o) :
    (Tree.object (front ++ (m.key, m.value) :: back)).operation =
      discard (m.value.value operationDepth) >>= fun _ => .ok o := by
  obtain ⟨hop, hfield⟩ := List.ne_and_not_mem_of_not_mem_cons hm
  have hundeclared : kind.fields.lookup m.name = none := by
    rw [List.lookup_eq_none_iff]
    intro field hmem
    rw [bne_iff_ne]
    rintro heq
    exact hfield (List.mem_map.2 ⟨field, hmem, heq.symm⟩)
  obtain ⟨r', hall, ho⟩ := bind_eq_ok_iff.1 h
  have hkind := PartialRecord.kind_of_names hnames hall
  rw [List.foldlM_append, bind_eq_ok_iff] at hall
  obtain ⟨r, hfront, hback⟩ := hall
  rw [PartialRecord.foldlM_kept, map_eq_ok_iff] at hback
  obtain ⟨r₀, hr₀, rfl⟩ := hback
  have hwithout : Members.operation (r.members.reverse ++ r₀.members.reverse) kind = .ok o := by
    rw [PartialRecord.operation, hkind] at ho
    rw [← List.reverse_append]
    exact ho
  rw [operation_fill_member hfront hr₀ hkind m.name_key hop]
  simp only [Members.operation_append_cons_of_none hundeclared, hwithout]
  cases m.value.value operationDepth <;> rfl

/-! ### Documents -/

/-- **Members that are not known make no difference.** For a document that loads, and for one more
member of an object in it:

* The document is a text of a tree.
* In a scenario, a member of another name than the three fields may have any value: the document
  loads as the same.
* In an operation, a member that is neither `op` nor a field of the kind may have any proper value.
  The document loads as the same if at most 123 brackets are nested in the value, and is refused as
  nested too deep if there are more of them. -/
theorem load_insert {octets : List UInt8} {f : Fixture} (hload : load octets = .ok f) (m : Member) :
    (∃ t : Tree, t.Text octets) ∧
    (∀ (entry : Slot) (front back : List (Quoted × Tree)) (octets' : List UInt8),
      (entry.fill (.object (front ++ back))).Text octets → m.name ∉ scenarioFields →
        (entry.fill (.object (front ++ (m.key, m.value) :: back))).Text octets' →
          load octets' = .ok f) ∧
    ∀ (entry ops element : Slot) (kind : Operation.Kind) (front back : List (Quoted × Tree))
      (octets' : List UInt8), ops.Holds scenarioFields "ops" →
        (entry.fill (ops.fill (element.fill (.object (front ++ back))))).Text octets →
          Names kind (front ++ back) → m.name ∉ "op" :: kind.fields.map Prod.fst →
            m.value.IsProper →
              (entry.fill (ops.fill (element.fill
                (.object (front ++ (m.key, m.value) :: back))))).Text octets' →
                (m.value.depth ≤ 123 → load octets' = .ok f) ∧
                (124 ≤ m.value.depth → load octets' = .error (.malformed .tooDeep)) := by
  refine ⟨exists_text_of_load hload, ?_, ?_⟩
  · intro entry front back octets' htext hm htext'
    rw [load_text htext] at hload
    obtain ⟨_, _, _, _, -, -, g, hg, -⟩ := exists_fixture_fill hload
    rw [load_text htext', hg, scenario_insert hm, ← hg, hload]
  · intro entry ops element kind front back octets' hops htext hnames hm hproper htext'
    rw [load_text htext] at hload
    obtain ⟨o₀, g, ho₀, hkept, hg⟩ := exists_fixture_operation hops hload
    have hroom := hproper.discard_value (by decide : operationDepth < depthLimit)
    rw [load_text htext', hg, operation_insert hnames hm ho₀, hroom]
    constructor
    · intro hdepth
      have hfits : operationDepth + m.value.depth < depthLimit := by
        simp only [operationDepth, depthLimit]
        omega
      rw [room, if_pos hfits, ← hkept]
      rfl
    · intro hdepth
      have hfull : ¬operationDepth + m.value.depth < depthLimit := by
        simp only [operationDepth, depthLimit]
        omega
      rw [room, if_neg hfull]
      rfl

/-- A null inside so many brackets. -/
def nested : Nat → Tree
  | 0 => .null
  | n + 1 => .array [nested n]

theorem depth_nested (n : Nat) : (nested n).depth = n := by
  induction n with
  | zero => rfl
  | succ n ih => rw [nested, Tree.depth, Tree.elementsDepth, Tree.elementsDepth, ih, Nat.max_zero]

theorem isProper_nested (n : Nat) : (nested n).IsProper := by
  induction n with
  | zero => exact .null
  | succ n ih => exact .array (List.forall_mem_singleton.2 ih)

/-- A note, which is neither a field of a scenario nor of an operation. -/
def note (depth : Nat) : Member :=
  written "note" (nested depth)

/-- A document with one operation, with some members in the operation and some in the scenario. -/
def resizing (inside behind : List Member) : Tree :=
  Tree.ofMembers [written "a" (Tree.ofMembers
    (written "ops" (.array [Tree.ofMembers
        (written "op" (spelled "resize") :: (inside ++ [written "size" three]))]) ::
      written "len" three :: written "memSize" three :: behind))]

/-- The fixture of this document. -/
def resized : Fixture :=
  (∅ : Fixture).insert "a" ⟨[.resize 3], 3, 3⟩

/-- A deep note in a scenario makes no difference; in an operation it may be one bracket too
deep. -/
theorem load_insert_note :
    load (resizing [] [note 124]).compact = .ok resized ∧
    load (resizing [note 123] []).compact = .ok resized ∧
    load (resizing [note 124] []).compact = .error (.malformed .tooDeep) := by
  have hload : load (resizing [] []).compact = .ok resized :=
    (load_text (Tree.text_compact _)).trans rfl
  have hmark {name : String} {value : Tree} : (written name value).key.name = .ok name :=
    (written name value).name_key
  obtain ⟨-, hscenario, -⟩ := load_insert hload (note 124)
  have hnone : "note" ∉ "op" :: Operation.Kind.resize.fields.map Prod.fst := by decide
  have hoperation (depth : Nat) :
      (depth ≤ 123 → load (resizing [note depth] []).compact = .ok resized) ∧
        (124 ≤ depth → load (resizing [note depth] []).compact = .error (.malformed .tooDeep)) := by
    obtain ⟨-, -, hinsert⟩ := load_insert hload (note depth)
    have hall := hinsert (.member [] (written "a" .null).key [])
      (.member [] (written "ops" .null).key
        [((written "len" .null).key, three), ((written "memSize" .null).key, three)])
      (.element [] []) .resize [((written "op" .null).key, spelled "resize")]
      [((written "size" .null).key, three)] _ hmark (Tree.text_compact _)
      ⟨_, List.mem_cons_self, hmark, rfl⟩ hnone (isProper_nested depth) (Tree.text_compact _)
    change ((nested depth).depth ≤ 123 → _) ∧ (124 ≤ (nested depth).depth → _) at hall
    rwa [depth_nested] at hall
  refine ⟨?_, (hoperation 123).1 (Nat.le_refl _), (hoperation 124).2 (Nat.le_refl _)⟩
  exact hscenario (.member [] (written "a" .null).key [])
    [((written "ops" .null).key, _), ((written "len" .null).key, three),
      ((written "memSize" .null).key, three)] [] _ (Tree.text_compact _) (by decide)
    (Tree.text_compact _)

end LinearMemory.Fixture
