import LinearMemory.Proofs.Fixture.Document
import LinearMemory.Proofs.Fixture.Rows

/-!
# Places in a document

A tree with one of its parts left open is a `Fixture.Slot`, and `Fixture.Slot.fill` puts a tree
there. A place deep inside a document is a slot in a slot: that of an entry, that of a field in its
scenario, that of an operation among the operations.

Suppose that a document loads with some tree in such a place. Then everything around the place is in
order. What the document means with another tree there depends on what this tree means and on
nothing else: the fault of the tree is the fault of the document, and what the tree is read as goes
to its field, with the rest of the document as it was. There is one law for each level:

| level | law |
|---|---|
| an entry of a document | `Fixture.exists_fixture_fill` |
| a field of a scenario | `Fixture.Draft.Part.scenario_fill` |
| an operation of a scenario | `Fixture.operations_fill` |

A scenario has three fields, which are read alike. `Fixture.Draft.Part` is what the three have in
common, with its laws.
-/

namespace LinearMemory.Fixture

open Json

/-! ### Slots -/

/-- **A part of an object or of an array that is left open.** -/
inductive Slot
  /-- The value of a member. -/
  | member (front : List (Quoted × Tree)) (key : Quoted) (back : List (Quoted × Tree))
  /-- An element. -/
  | element (front back : List Tree)

/-- **The tree with a part in its slot.** -/
def Slot.fill : Slot → Tree → Tree
  | .member front key back, t => .object (front ++ (key, t) :: back)
  | .element front back, t => .array (front ++ t :: back)

/-- **A slot is that of a field**: its key is the name of the field, or its element is the one that
the field has in a row. -/
def Slot.Holds (fields : List String) (field : String) : Slot → Prop
  | .member _ key _ => key.name = .ok field
  | .element front _ => fields[front.length]? = some field

/-! ### Entries of a document -/

/-- Entries that are taken are scenarios under their names, whatever came before them. -/
theorem exists_insertions {members : List (Quoted × Tree)} {f f' : Fixture}
    (h : members.foldlM Fixture.member f = .ok f') :
    ∃ later : List (String × Scenario), (∀ e ∈ later, ∃ m ∈ members, m.1.name = .ok e.1) ∧
      ∀ g : Fixture, members.foldlM Fixture.member g =
        .ok (later.foldl (fun g e => g.insert e.1 e.2) g) := by
  induction members generalizing f with
  | nil => exact ⟨[], List.forall_mem_nil _, fun _ => rfl⟩
  | cons m members ih =>
    rw [List.foldlM_cons, bind_eq_ok_iff] at h
    obtain ⟨f₁, hm, hrest⟩ := h
    obtain ⟨name, hname, hm⟩ := bind_eq_ok_iff.1 hm
    obtain ⟨s, hs, -⟩ := bind_eq_ok_iff.1 hm
    obtain ⟨later, hlater, hall⟩ := ih hrest
    refine ⟨(name, s) :: later, List.forall_mem_cons.2 ⟨⟨m, List.mem_cons_self, hname⟩, ?_⟩,
      fun g => ?_⟩
    · intro e he
      obtain ⟨m', hm', hname'⟩ := hlater e he
      exact ⟨m', List.mem_cons_of_mem _ hm', hname'⟩
    · have hstep : g.member m = .ok (g.insert name s) := by
        rw [Fixture.member, hname]
        change (m.2.scenario >>= fun s => pure (g.insert name s)) = _
        rw [hs]
        rfl
      rw [List.foldlM_cons, hstep]
      exact hall _

/-- Scenarios of other names make no difference to a name. -/
theorem getElem?_foldl_insert {name : String} {later : List (String × Scenario)}
    (h : ∀ e ∈ later, e.1 ≠ name) (g : Fixture) :
    (later.foldl (fun g e => g.insert e.1 e.2) g)[name]? = g[name]? := by
  induction later generalizing g with
  | nil => rfl
  | cons e later ih =>
    obtain ⟨he, hlater⟩ := List.forall_mem_cons.1 h
    rw [List.foldl_cons, ih hlater, getElem?_insert, if_neg he]

/-- **An entry of a document that loads** may be any scenario: the document then loads with this
one. It is what the document has under the name of the entry, if this name does not come again. -/
theorem exists_fixture_fill {entry : Slot} {t₀ : Tree} {f₀ : Fixture}
    (h : (entry.fill t₀).fixture = .ok f₀) :
    ∃ front key back name, entry = .member front key back ∧ key.name = .ok name ∧
      ∃ g : Scenario → Fixture, (∀ t, (entry.fill t).fixture = g <$> t.scenario) ∧
        ((∀ m ∈ back, m.1.name ≠ .ok name) → ∀ s, (g s)[name]? = some s) := by
  cases entry with
  | element front back => cases h
  | member front key back =>
    change (front ++ (key, t₀) :: back).foldlM Fixture.member ∅ = .ok f₀ at h
    rw [List.foldlM_append, bind_eq_ok_iff] at h
    obtain ⟨f, hfront, h⟩ := h
    rw [List.foldlM_cons, bind_eq_ok_iff] at h
    obtain ⟨f₁, hentry, hback⟩ := h
    obtain ⟨name, hname, -⟩ := bind_eq_ok_iff.1 hentry
    obtain ⟨later, hlater, hall⟩ := exists_insertions hback
    refine ⟨front, key, back, name, rfl, hname,
      fun s => later.foldl (fun g e => g.insert e.1 e.2) (f.insert name s), fun t => ?_,
      fun hlast s => ?_⟩
    · change (front ++ (key, t) :: back).foldlM Fixture.member ∅ = _
      rw [List.foldlM_append, hfront]
      change ((key, t) :: back).foldlM Fixture.member f = _
      rw [List.foldlM_cons, Fixture.member, hname]
      change ((t.scenario >>= fun s => pure (f.insert name s)) >>= _) = _
      rw [bind_assoc]
      simp only [pure_bind, hall]
      rfl
    · have hothers : ∀ e ∈ later, e.1 ≠ name := by
        rintro e he rfl
        obtain ⟨m, hm, hname'⟩ := hlater e he
        exact hlast m hm hname'
      rw [getElem?_foldl_insert hothers, getElem?_insert, if_pos rfl]

/-! ### Fields of a scenario -/

/-- **A field of a scenario**: how it is read, how a draft takes it up, and how a scenario has it.
What a draft has taken up makes no difference to what comes behind. -/
structure Draft.Part (α : Type) where
  name : String
  read : Tree → Except Fault α
  /-- What a draft has in the field, if it was read. -/
  content : Draft → Option α
  put : Draft → α → Draft
  replace : Scenario → α → Scenario
  put_put : ∀ d a b, put (put d a) b = put d b
  member_of_name : ∀ d key t, Quoted.name key = .ok name →
    d.member (key, t) = unread name (content d) >>= fun _ => put d <$> read t
  member_put : ∀ d a b m, (put d b).member m = (fun d => put d b) <$> (put d a).member m
  ofRecord_put : ∀ d a b, (put d b).ofRecord = (fun s => replace s b) <$> (put d a).ofRecord
  scenario_row : ∀ front back t₀ s₀, scenarioFields[List.length front]? = some name →
    (Tree.array (front ++ t₀ :: back)).scenario = .ok s₀ →
      ∀ t, (Tree.array (front ++ t :: back)).scenario = replace s₀ <$> read t

namespace Draft

/-- A draft with one more element has one more field. -/
theorem count_element {d d' : Draft} {t : Tree} (h : d.element t = .ok d') :
    d'.count = d.count + 1 := by
  match d with
  | ⟨none, length, size⟩ =>
    obtain ⟨operations, -, heq⟩ := bind_eq_ok_iff.1 h
    obtain rfl := Except.ok.inj heq
    cases length <;> cases size <;> rfl
  | ⟨some operations, none, size⟩ =>
    obtain ⟨length, -, heq⟩ := bind_eq_ok_iff.1 h
    obtain rfl := Except.ok.inj heq
    cases size <;> rfl
  | ⟨some operations, some length, none⟩ =>
    obtain ⟨size, -, heq⟩ := bind_eq_ok_iff.1 h
    obtain rfl := Except.ok.inj heq
    rfl
  | ⟨some operations, some length, some size⟩ => cases h

theorem count_foldlM_element {elements : List Tree} {d d' : Draft}
    (h : elements.foldlM Draft.element d = .ok d') : d'.count = d.count + elements.length := by
  induction elements generalizing d with
  | nil =>
    cases h
    rfl
  | cons t elements ih =>
    rw [List.foldlM_cons, bind_eq_ok_iff] at h
    obtain ⟨d₁, ht, hrest⟩ := h
    rw [ih hrest, count_element ht, List.length_cons]
    omega

/-- **A row that is a scenario** has three elements. -/
theorem exists_row {elements : List Tree} {s : Scenario}
    (h : (Tree.array elements).scenario = .ok s) :
    ∃ ops len size, elements = [ops, len, size] ∧ ops.operations = .ok s.operations ∧
      len.word .word = .ok s.length ∧ size.word .storeSize = .ok s.size := by
  have hthree : elements.length = 3 := by
    obtain ⟨d, hd, hrow⟩ := bind_eq_ok_iff.1 h
    have hcount := count_foldlM_element hd
    match d with
    | ⟨some operations, some length, some size⟩ => exact (hcount.trans (Nat.zero_add _)).symm
    | ⟨none, _, _⟩ | ⟨some _, none, _⟩ | ⟨some _, some _, none⟩ => cases hrow
  obtain ⟨ops, len, size, rfl⟩ := List.length_eq_three.1 hthree
  rw [scenario_array] at h
  obtain ⟨operations, hops, h⟩ := bind_eq_ok_iff.1 h
  obtain ⟨length, hlen, h⟩ := bind_eq_ok_iff.1 h
  obtain ⟨store, hsize, h⟩ := bind_eq_ok_iff.1 h
  obtain rfl := Except.ok.inj h
  exact ⟨ops, len, size, rfl, hops, hlen, hsize⟩

/-- The operations of a scenario. -/
def operationsPart : Part (List Operation) where
  name := "ops"
  read := Tree.operations
  content := operations
  put d operations := { d with operations := some operations }
  replace s operations := { s with operations := operations }
  put_put _ _ _ := rfl
  member_of_name d key t hkey := by
    rw [Draft.member, hkey]
    rfl
  member_put d a b m := by
    simp only [Draft.member]
    cases m.1.name with
    | error fault => rfl
    | ok key =>
      change (if key = "ops" then _ else _) = _ <$> (if key = "ops" then _ else _)
      split
      · rfl
      split
      · cases d.length <;> cases m.2.word .word <;> rfl
      split
      · cases d.size <;> cases m.2.word .storeSize <;> rfl
      · rfl
  ofRecord_put d a b := by
    obtain ⟨operations, length, size⟩ := d
    cases length <;> cases size <;> rfl
  scenario_row front back t₀ s₀ hplace h t := by
    obtain ⟨ops, len, size, heq, hops, hlen, hsize⟩ := exists_row h
    match front with
    | [] =>
      obtain ⟨-, rfl⟩ := List.cons.inj heq
      rw [List.nil_append, scenario_array, hlen, hsize]
      rfl
    | [_] | [_, _] | _ :: _ :: _ :: _ => simp [scenarioFields] at hplace

/-- The length of a scenario. -/
def lengthPart : Part UInt64 where
  name := "len"
  read := Tree.word .word
  content := length
  put d length := { d with length := some length }
  replace s length := { s with length := length }
  put_put _ _ _ := rfl
  member_of_name d key t hkey := by
    rw [Draft.member, hkey]
    rfl
  member_put d a b m := by
    simp only [Draft.member]
    cases m.1.name with
    | error fault => rfl
    | ok key =>
      change (if key = "ops" then _ else _) = _ <$> (if key = "ops" then _ else _)
      split
      · cases d.operations <;> cases m.2.operations <;> rfl
      split
      · rfl
      split
      · cases d.size <;> cases m.2.word .storeSize <;> rfl
      · rfl
  ofRecord_put d a b := by
    obtain ⟨operations, length, size⟩ := d
    cases operations <;> cases size <;> rfl
  scenario_row front back t₀ s₀ hplace h t := by
    obtain ⟨ops, len, size, heq, hops, hlen, hsize⟩ := exists_row h
    match front with
    | [_] =>
      obtain ⟨rfl, htail⟩ := List.cons.inj heq
      obtain ⟨-, rfl⟩ := List.cons.inj htail
      rw [List.cons_append, List.nil_append, scenario_array, hops, hsize]
      rfl
    | [] | [_, _] | _ :: _ :: _ :: _ => simp [scenarioFields] at hplace

/-- The size of the store of a scenario. -/
def sizePart : Part UInt64 where
  name := "memSize"
  read := Tree.word .storeSize
  content := size
  put d size := { d with size := some size }
  replace s size := { s with size := size }
  put_put _ _ _ := rfl
  member_of_name d key t hkey := by
    rw [Draft.member, hkey]
    rfl
  member_put d a b m := by
    simp only [Draft.member]
    cases m.1.name with
    | error fault => rfl
    | ok key =>
      change (if key = "ops" then _ else _) = _ <$> (if key = "ops" then _ else _)
      split
      · cases d.operations <;> cases m.2.operations <;> rfl
      split
      · cases d.length <;> cases m.2.word .word <;> rfl
      split
      · rfl
      · rfl
  ofRecord_put d a b := by
    obtain ⟨operations, length, size⟩ := d
    cases operations <;> cases length <;> rfl
  scenario_row front back t₀ s₀ hplace h t := by
    obtain ⟨ops, len, size, heq, hops, hlen, hsize⟩ := exists_row h
    match front with
    | [_, _] =>
      obtain ⟨rfl, htail⟩ := List.cons.inj heq
      obtain ⟨rfl, hlast⟩ := List.cons.inj htail
      obtain ⟨-, rfl⟩ := List.cons.inj hlast
      rw [List.cons_append, List.cons_append, List.nil_append, scenario_array, hops, hlen]
      rfl
    | [] | [_] | _ :: _ :: _ :: _ => simp [scenarioFields] at hplace

/-- A content that is taken up makes no difference to the members behind. -/
theorem Part.foldlM_member_put {α : Type} (p : Part α) {back : List (Quoted × Tree)} {d d' : Draft}
    {a₀ : α} (h : back.foldlM Draft.member (p.put d a₀) = .ok d') (a : α) :
    back.foldlM Draft.member (p.put d a) = .ok (p.put d' a) := by
  -- along the members the draft stays one that has `a₀`
  have hall : back.foldlM Draft.member (p.put (p.put d a₀) a) =
      (fun d => p.put d a) <$> back.foldlM Draft.member (p.put d a₀) := by
    refine foldlM_change (fun d => p.put d a) (fun d => ∃ c, d = p.put c a₀) ?_ ?_ ⟨d, rfl⟩ back
    · rintro _ ⟨c, rfl⟩ m
      rw [p.put_put, ← p.member_put]
    · rintro _ m y ⟨c, rfl⟩ hm
      rw [p.member_put c a₀ a₀ m] at hm
      obtain ⟨c', -, rfl⟩ := map_eq_ok_iff.1 hm
      exact ⟨c', rfl⟩
  rw [p.put_put, h] at hall
  exact hall

/-- **A field of a scenario that is read** may be anything that the field holds: the scenario has it
then, with the other fields as they were. -/
theorem Part.scenario_fill {α : Type} (p : Part α) {slot : Slot}
    (hslot : slot.Holds scenarioFields p.name) {t₀ : Tree} {s₀ : Scenario}
    (h : (slot.fill t₀).scenario = .ok s₀) (t : Tree) :
    (slot.fill t).scenario = p.replace s₀ <$> p.read t := by
  cases slot with
  | element front back => exact p.scenario_row front back t₀ s₀ hslot h t
  | member front key back =>
    have hkey : key.name = .ok p.name := hslot
    -- the members in front are read, and so is the one in the slot
    obtain ⟨d', hmembers, hrecord⟩ := bind_eq_ok_iff.1 h
    rw [List.foldlM_append, bind_eq_ok_iff] at hmembers
    obtain ⟨d, hfront, hmembers⟩ := hmembers
    rw [List.foldlM_cons, p.member_of_name d key t₀ hkey, bind_assoc, bind_eq_ok_iff] at hmembers
    obtain ⟨_, hunread, hmembers⟩ := hmembers
    obtain ⟨_, hput, hback⟩ := bind_eq_ok_iff.1 hmembers
    obtain ⟨a₀, -, rfl⟩ := map_eq_ok_iff.1 hput
    change ((front ++ (key, t) :: back).foldlM Draft.member .empty >>= Draft.ofRecord) = _
    rw [List.foldlM_append, hfront]
    change ((key, t) :: back).foldlM Draft.member d >>= Draft.ofRecord = _
    rw [List.foldlM_cons, p.member_of_name d key t hkey, hunread]
    change ((p.put d <$> p.read t) >>= fun d => back.foldlM Draft.member d) >>= Draft.ofRecord = _
    cases p.read t with
    | error fault => rfl
    | ok a =>
      have hsame : p.put d' a₀ = d' :=
        Except.ok.inj ((p.foldlM_member_put hback a₀).symm.trans hback)
      change back.foldlM Draft.member (p.put d a) >>= Draft.ofRecord = .ok (p.replace s₀ a)
      rw [p.foldlM_member_put hback a]
      change (p.put d' a).ofRecord = .ok (p.replace s₀ a)
      rw [p.ofRecord_put d' a₀ a, hsame, hrecord]
      rfl

end Draft

/-! ### Operations of a scenario -/

/-- **An operation among others that are read** may be any other: the operations have it then in the
same place. -/
theorem operations_fill {slot : Slot} {t₀ : Tree} {operations : List Operation}
    (h : (slot.fill t₀).operations = .ok operations) :
    ∃ front back, slot = .element front back ∧ front.length < operations.length ∧
      ∀ t, (slot.fill t).operations = (fun o => operations.set front.length o) <$> t.operation := by
  cases slot with
  | member front key back => cases h
  | element front back =>
    have hfill (t : Tree) : ((Slot.element front back).fill t).operations = _ :=
      operations_append_cons front back t
    rw [hfill] at h
    obtain ⟨earlier, hfront, h⟩ := bind_eq_ok_iff.1 h
    obtain ⟨o₀, -, h⟩ := bind_eq_ok_iff.1 h
    obtain ⟨later, hback, heq⟩ := bind_eq_ok_iff.1 h
    obtain rfl := Except.ok.inj heq
    have hlength : front.length = earlier.length :=
      (mapM_eq_ok_iff.1 hfront).length_eq
    refine ⟨front, back, rfl, ?_, fun t => ?_⟩
    · rw [hlength, List.length_append, List.length_cons]
      omega
    · rw [hfill, hfront, hback, hlength]
      simp only [List.set_append_right _ _ (Nat.le_refl _), Nat.sub_self, List.set_cons_zero]
      rfl

/-- **An operation of a document that loads** may be any other: the document then loads with this
one. -/
theorem exists_fixture_operation {entry ops element : Slot} (hops : ops.Holds scenarioFields "ops")
    {t₀ : Tree} {f₀ : Fixture}
    (h : (entry.fill (ops.fill (element.fill t₀))).fixture = .ok f₀) :
    ∃ (o₀ : Operation) (g : Operation → Fixture), t₀.operation = .ok o₀ ∧ g o₀ = f₀ ∧
      ∀ t, (entry.fill (ops.fill (element.fill t))).fixture = g <$> t.operation := by
  obtain ⟨_, _, _, _, -, -, g, hg, -⟩ := exists_fixture_fill h
  rw [hg] at h
  obtain ⟨s₀, hs₀, rfl⟩ := map_eq_ok_iff.1 h
  have hscenario := Draft.operationsPart.scenario_fill hops hs₀
  obtain ⟨operations, hoperations, hkept⟩ := map_eq_ok_iff.1 ((hscenario _).symm.trans hs₀)
  obtain ⟨front, _, -, -, hfill⟩ := operations_fill hoperations
  obtain ⟨o₀, ho₀, hset⟩ := map_eq_ok_iff.1 ((hfill t₀).symm.trans hoperations)
  refine ⟨o₀, fun o => g (Draft.operationsPart.replace s₀ (operations.set front.length o)), ho₀, ?_,
    fun t => ?_⟩
  · change g (Draft.operationsPart.replace s₀ (operations.set front.length o₀)) = g s₀
    rw [hset, hkept]
  · rw [hg, hscenario]
    change g <$> _ <$> (element.fill t).operations = _
    rw [hfill]
    cases t.operation <;> rfl

end LinearMemory.Fixture
