import LinearMemory.Proofs.Fixture.Unknown
import LinearMemory.Proofs.Json.Integer

/-!
# Integers in a document

The integers of a document are the length of a scenario, the size of its store, and the sizes,
offsets and expected lengths of operations. A scenario and an operation may be a record or a row.
`Fixture.IntegerField` is any such place, with the tree around it and with a slot in place of the
integer.

Each of these fields is read from a number as `Fixture.fit` says: an integer in its range is taken
and any other number is refused, either for its range or as a double. An operation is looked at as a
whole, when its kind is known, but what is wrong with a field does not depend on the others as long
as these are in order (`Fixture.Members.discard_operation_replace`).

The result is `Fixture.load_integer`: together with what an integer of any size is read as
(`Json.value_integerNumber`, `Json.value_integerNumber_beyond`), a document loads if and only if the
integer is in the range of its field, and loads with exactly this integer.
-/

namespace LinearMemory.Fixture

open Json

/-! ### Ranges -/

/-- **The range of an integer field**: that of a signed word for an offset, and of an unsigned one
for any other. -/
def InRange : Expectation → Int → Prop
  | .offset, n => -2 ^ 63 ≤ n ∧ n < 2 ^ 63
  | _, n => 0 ≤ n ∧ n < 2 ^ 64

instance (expected : Expectation) (n : Int) : Decidable (InRange expected n) := by
  unfold InRange
  split <;> infer_instance

/-- No range goes beyond the integers that a number can be. -/
theorem InRange.bounds {expected : Expectation} {n : Int} (h : InRange expected n) :
    -2 ^ 63 ≤ n ∧ n < 2 ^ 64 := by
  unfold InRange at h
  split at h
  · omega
  · omega

/-- **What an integer field makes of a number.** -/
def fit (expected : Expectation) : Number → Except Fault Unit
  | .integer n =>
    if InRange expected n then .ok () else .error (.mistyped (.outOfRange n expected))
  | x => wrongType (.number x) expected

theorem fit_eq_ok_iff {expected : Expectation} {x : Number} :
    fit expected x = .ok () ↔ ∃ n, x = .integer n ∧ InRange expected n := by
  cases x with
  | integer n =>
    rw [fit]
    by_cases h : InRange expected n
    · exact iff_of_true (if_pos h) ⟨n, rfl, h⟩
    · rw [if_neg h]
      exact ⟨nofun, fun ⟨m, heq, hm⟩ => absurd (Number.integer.inj heq ▸ hm) h⟩
  | real negative magnitude => exact ⟨nofun, fun ⟨m, heq, _⟩ => nomatch heq⟩

/-- **An integer in plain decimal fits** if and only if it is in the range. -/
theorem fit_integerNumber_iff {expected : Expectation} {n : Int} :
    ((integerNumber n).value.mapError .malformed >>= fit expected) = .ok () ↔
      InRange expected n := by
  by_cases hbounds : -2 ^ 63 ≤ n ∧ n < 2 ^ 64
  · rw [value_integerNumber hbounds.1 hbounds.2]
    change fit expected (.integer n) = .ok () ↔ _
    rw [fit_eq_ok_iff]
    constructor
    · rintro ⟨_, ⟨⟩, h⟩
      exact h
    · exact fun h => ⟨n, rfl, h⟩
  · -- beyond these bounds it is no integer at all
    obtain ⟨hnone, -⟩ := value_integerNumber_beyond (n := n) (by omega)
    refine iff_of_false (fun h => ?_) fun h => hbounds h.bounds
    cases hvalue : (integerNumber n).value with
    | error cause =>
      rw [hvalue] at h
      cases h
    | ok x =>
      rw [hvalue] at h
      obtain ⟨i, rfl, -⟩ := fit_eq_ok_iff.1 h
      exact hnone i hvalue

theorem discard_word {expected : Expectation} (h : expected ≠ .offset) (x : Number) :
    discard (Field.word expected (.number x)) = fit expected x := by
  cases x with
  | real negative magnitude => rfl
  | integer n =>
    have hrange : InRange expected n ↔ 0 ≤ n ∧ n < Nat.pow 2 64 := by
      cases expected with
      | offset => exact absurd rfl h
      | _ => exact Iff.rfl
    rw [Field.word, fit]
    simp only [hrange]
    split <;> rfl

theorem discard_offset (x : Number) :
    discard (Field.offset (.number x)) = fit .offset x := by
  cases x with
  | real negative magnitude => rfl
  | integer n =>
    have hrange : InRange .offset n ↔ -Nat.pow 2 63 ≤ n ∧ n < Nat.pow 2 63 := Iff.rfl
    rw [Field.offset, fit]
    simp only [hrange]
    split <;> rfl

/-- What is expected in a field, as a message names it. -/
def expectation : Operation.FieldType → Expectation
  | .word => .word
  | .offset => .offset
  | .text | .optionalText => .text

theorem check_number {type : Operation.FieldType} (h : type = .word ∨ type = .offset) (x : Number) :
    Field.check type (.number x) = fit (expectation type) x := by
  rcases h with rfl | rfl
  · exact discard_word (by decide) x
  · exact discard_offset x

/-! ### One value of an operation in place of another -/

namespace Members

variable {kind : Operation.Kind} {before after : Members} {name : String}
  {type : Operation.FieldType} {v₀ v : Value}

/-- The first of some sound members are sound. -/
theorem Sound.left (h : Sound kind (before ++ after)) : Sound kind before := by
  intro field hfield
  rcases h field hfield with hnil | ⟨w, hone, hw⟩
  · rw [under_append, List.append_eq_nil_iff] at hnil
    exact Or.inl hnil.1
  · rw [under_append, List.append_eq_singleton_iff] at hone
    rcases hone with ⟨hnil, -⟩ | ⟨hone, -⟩
    · exact Or.inl hnil
    · exact Or.inr ⟨w, hone, hw⟩

/-- A field of sound members comes once. -/
theorem Sound.under_around (h : Sound kind (before ++ (name, v₀) :: after))
    (hfield : (name, type) ∈ kind.fields) : before.under name = [] ∧ after.under name = [] := by
  rcases h (name, type) hfield with hnil | ⟨w, hone, -⟩
  · simp at hnil
  · have hsplit : before.under name = [] ∧ v₀ = w ∧ after.under name = [] := by
      simpa [List.append_eq_singleton_iff] using hone
    exact ⟨hsplit.1, hsplit.2.2⟩

/-- **A value in the place of another** stands alone under its name. -/
theorem under_replace (h : Sound kind (before ++ (name, v₀) :: after))
    (hfield : (name, type) ∈ kind.fields) (v : Value) :
    under name (before ++ (name, v) :: after) = [v] := by
  obtain ⟨hbefore, hafter⟩ := h.under_around hfield
  simp [hbefore, hafter]

/-- **A field of an operation is checked on its own**: with another value in it, the operation is
refused for what is wrong with this value, and for nothing else. -/
theorem discard_operation_replace {o₀ : Operation}
    (h : operation (before ++ (name, v₀) :: after) kind = .ok o₀)
    (hfield : (name, type) ∈ kind.fields) (v : Value) :
    discard (operation (before ++ (name, v) :: after) kind) = Field.check type v := by
  have hsound := sound_of_operation_eq_ok h
  rcases Field.holds_or_unfit type v with hholds | ⟨cause, hunfit⟩
  · have hcomplete : Complete kind (before ++ (name, v) :: after) := by
      intro field hmem
      by_cases hname : name = field.1
      · obtain ⟨key, type'⟩ := field
        subst hname
        have htype : some type = some type' := by
          rw [← lookup_fields_eq_some_iff.2 hfield, ← lookup_fields_eq_some_iff.2 hmem]
        obtain rfl := Option.some.inj htype
        exact Or.inl ⟨v, under_replace hsound hfield v, hholds⟩
      · have hsame (w : Value) : under field.1 (before ++ (name, w) :: after) =
            under field.1 before ++ under field.1 after := by
          simp [hname]
        have hbefore := exists_operation_iff.1 ⟨o₀, h⟩ field hmem
        rw [hsame] at hbefore ⊢
        exact hbefore
    rw [Field.check_of_holds hholds]
    exact discard_eq_ok_iff.2 (exists_operation_iff.2 hcomplete)
  · have hfaulty : Faulty kind (before ++ (name, v) :: after) cause :=
      .unfit rfl hsound.left hfield (hsound.under_around hfield).1 hunfit
    rw [Field.check_of_unfit hunfit]
    exact discard_eq_error_iff.2 (operation_eq_error_iff.2 ⟨cause, rfl, hfaulty⟩)

/-- **What an operation has in a field** is what stands there. -/
theorem lookup_values_replace {o₀ o : Operation}
    (h : operation (before ++ (name, v₀) :: after) kind = .ok o₀)
    (hfield : (name, type) ∈ kind.fields)
    (ho : operation (before ++ (name, v) :: after) kind = .ok o) :
    (values false o).lookup name = some v := by
  have halone := under_replace (sound_of_operation_eq_ok h) hfield v
  obtain ⟨rfl, leaveOut, hfilled⟩ := operation_eq_ok_iff.1 ho
  have hvalues : under name (values leaveOut o) = [v] := by
    rw [← hfilled _ hfield, halone]
  -- what may be left out is null, and nothing would stand in its place
  have hnull : under name (values false o) = [v] := by
    cases leaveOut with
    | false => exact hvalues
    | true =>
      have hexpect (offset : Int64) (h : under name [("offset", offsetValue offset)] = [v]) :
          under name [("offset", offsetValue offset), ("expect", .null)] = [v] := by
        have hname : "offset" = name := by
          by_contra hne
          rw [under_cons_of_ne hne] at h
          cases h
        subst hname
        exact h
      cases o with
      | read offset expect | view offset expect =>
        cases expect with
        | some s => exact hvalues
        | none => exact hexpect offset hvalues
      | _ => exact hvalues
  rw [lookup_eq_head?_under, hnull]
  rfl

end Members

/-! ### Integer fields of an operation -/

/-- **A slot stands in an operation of a kind**: one of the other members names the kind, or the
first of the other elements does. -/
def Slot.Tagged (kind : Operation.Kind) : Slot → Prop
  | .member front _ back => Names kind (front ++ back)
  | .element front _ => ∃ tag rest, front = tag :: rest ∧ tag.kind = .ok kind

/-- **An integer field of an operation**, with the operation around it. -/
structure Operand where
  slot : Slot
  kind : Operation.Kind
  field : String × Operation.FieldType
  tagged : slot.Tagged kind
  declared : field ∈ kind.fields
  integral : field.2 = .word ∨ field.2 = .offset
  holds : slot.Holds ("op" :: kind.fields.map Prod.fst) field.1

/-- A tree that names a kind is the text of this name. -/
theorem value_of_kind {tag : Tree} {kind : Operation.Kind} (h : tag.kind = .ok kind) :
    tag.value operationDepth = .ok (.text kind.name) := by
  obtain ⟨v, hsurface, hkind⟩ := bind_eq_ok_iff.1 h
  obtain rfl := Field.kind_eq_ok_iff.1 hkind
  cases tag with
  | array | object => cases hsurface
  | null | boolean | number | text => exact hsurface

/-- Elements behind the kind that are taken stand for values. -/
theorem exists_stand {elements : List Tree} {row : Operation.Kind × List Value}
    {row' : PartialRow} (h : elements.foldlM PartialRow.element (some row) = .ok row') :
    ∃ values taken, Stand elements values ∧ row' = some taken := by
  induction elements generalizing row with
  | nil => exact ⟨[], row, .nil, (Except.ok.inj h).symm⟩
  | cons t elements ih =>
    rw [List.foldlM_cons, bind_eq_ok_iff] at h
    obtain ⟨_, ht, hrest⟩ := h
    obtain ⟨v, hv, heq⟩ := bind_eq_ok_iff.1 ht
    obtain rfl := Except.ok.inj heq
    obtain ⟨values, taken, hvalues, hrow⟩ := ih hrest
    exact ⟨v :: values, taken, .cons hv hvalues, hrow⟩

/-- So do those in front of one of them, this one, and those behind it. -/
theorem exists_stand_around {rest back : List Tree} {t : Tree}
    {row : Operation.Kind × List Value} {row' : PartialRow}
    (h : (rest ++ t :: back).foldlM PartialRow.element (some row) = .ok row') :
    ∃ front v behind taken, Stand rest front ∧ t.value operationDepth = .ok v ∧
      Stand back behind ∧ rest.foldlM PartialRow.element (some row) = .ok (some taken) := by
  rw [List.foldlM_append, bind_eq_ok_iff] at h
  obtain ⟨row₁, hrest, h⟩ := h
  obtain ⟨front, taken, hfront, rfl⟩ := exists_stand hrest
  rw [List.foldlM_cons, bind_eq_ok_iff] at h
  obtain ⟨_, helement, hback⟩ := h
  obtain ⟨v, hv, heq⟩ := bind_eq_ok_iff.1 helement
  obtain rfl := Except.ok.inj heq
  obtain ⟨behind, -, hbehind, -⟩ := exists_stand hback
  exact ⟨front, v, behind, taken, hfront, hv, hbehind, hrest⟩

/-- **A value of a row** is the one under its name in the record of the row. -/
theorem operation_fill_element {tag : Tree} {rest back : List Tree} {kind : Operation.Kind}
    {name : String} (htag : tag.kind = .ok kind)
    (hname : (kind.fields.map Prod.fst)[rest.length]? = some name) {t₀ : Tree} {o₀ : Operation}
    (h : (Tree.array (tag :: (rest ++ t₀ :: back))).operation = .ok o₀) :
    ∃ before after : Members, ∀ t, (Tree.array (tag :: (rest ++ t :: back))).operation =
      t.value operationDepth >>= fun v =>
        Members.operation (before ++ (name, v) :: after) kind := by
  have hkind : PartialRow.element none tag = .ok (some (kind, [])) := by
    rw [PartialRow.element, htag]
    rfl
  have hread (t : Tree) : (Tree.array (tag :: (rest ++ t :: back))).operation =
      (rest ++ t :: back).foldlM PartialRow.element (some (kind, [])) >>= PartialRow.operation := by
    rw [Tree.operation, List.foldlM_cons, hkind]
    rfl
  obtain ⟨row, hall, -⟩ := bind_eq_ok_iff.1 ((hread t₀).symm.trans h)
  obtain ⟨front, v₀, behind, taken, hfront, hv₀, hbehind, hrest⟩ := exists_stand_around hall
  have hrow {t : Tree} {v : Value} (hv : t.value operationDepth = .ok v) :
      (Tree.array (tag :: (rest ++ t :: back))).operation =
        Values.operation (front ++ v :: behind) kind :=
    operation_array (value_of_kind htag) (List.rel_append hfront (.cons hv hbehind))
  -- there are as many values as fields, so the row has a record
  have hlength (v : Value) : (front ++ v :: behind).length = kind.fields.length := by
    have hcount : (front ++ v₀ :: behind).length = kind.fields.length := by
      by_contra hne
      exact Values.operation_ne_ok hne o₀ ((hrow hv₀).symm.trans h)
    rwa [List.length_append, List.length_cons] at hcount ⊢
  obtain ⟨earlier, later, hnames, hearlier⟩ : ∃ earlier later,
      kind.fields.map Prod.fst = earlier ++ name :: later ∧ earlier.length = front.length := by
    obtain ⟨hless, hget⟩ := List.getElem?_eq_some_iff.1 hname
    refine ⟨(kind.fields.map Prod.fst).take rest.length,
      (kind.fields.map Prod.fst).drop (rest.length + 1), ?_, ?_⟩
    · rw [← hget, List.getElem_cons_drop, List.take_append_drop]
    · rw [List.length_take_of_le (Nat.le_of_lt hless), hfront.length_eq]
  refine ⟨earlier.zip front, later.zip behind, fun t => ?_⟩
  cases hv : t.value operationDepth with
  | error fault =>
    rw [hread, List.foldlM_append, hrest]
    change ((t :: back).foldlM PartialRow.element (some taken) >>= _) = _
    rw [List.foldlM_cons, PartialRow.element, hv]
    rfl
  | ok v =>
    rw [hrow hv, Values.operation_eq_of_length (hlength v), hnames, List.zip_append hearlier]
    rfl

/-- **The operation around a field** is found from its members or from its elements in one way: the
tree in the field stands for a value, and this is one of the members of the operation. -/
theorem Operand.exists_members (p : Operand) {t₀ : Tree} {o₀ : Operation}
    (h : (p.slot.fill t₀).operation = .ok o₀) :
    ∃ before after : Members, ∀ t, (p.slot.fill t).operation =
      t.value operationDepth >>= fun v =>
        Members.operation (before ++ (p.field.1, v) :: after) p.kind := by
  have htagged := p.tagged
  have hholds := p.holds
  cases hslot : p.slot with
  | member front key back =>
    rw [hslot] at h htagged hholds
    have hop : p.field.1 ≠ "op" := by
      have hall : ∀ kind : Operation.Kind, ∀ field ∈ kind.fields, field.1 ≠ "op" := by
        intro kind
        cases kind <;> decide
      exact hall p.kind p.field p.declared
    have hnames : Names p.kind (front ++ (key, t₀) :: back) := by
      obtain ⟨m, hm, htag⟩ := htagged
      refine ⟨m, ?_, htag⟩
      rw [List.mem_append, List.mem_cons]
      exact (List.mem_append.1 hm).imp_right Or.inr
    obtain ⟨r', hall, -⟩ := bind_eq_ok_iff.1 h
    have hkind := PartialRecord.kind_of_names hnames hall
    rw [List.foldlM_append, bind_eq_ok_iff] at hall
    obtain ⟨r, hfront, hall⟩ := hall
    rw [List.foldlM_cons, bind_eq_ok_iff] at hall
    obtain ⟨r₁, hr₁, hback⟩ := hall
    obtain ⟨key', hkey', hr₁⟩ := bind_eq_ok_iff.1 hr₁
    obtain rfl := Except.ok.inj (hkey'.symm.trans hholds)
    rw [if_neg hop] at hr₁
    obtain ⟨v₀, -, heq⟩ := bind_eq_ok_iff.1 hr₁
    obtain rfl := Except.ok.inj heq
    rw [PartialRecord.foldlM_kept, map_eq_ok_iff] at hback
    obtain ⟨r₀, hr₀, rfl⟩ := hback
    exact ⟨_, _, operation_fill_member hfront hr₀ hkind hholds hop⟩
  | element front back =>
    rw [hslot] at h htagged hholds
    obtain ⟨tag, rest, rfl, htag⟩ := htagged
    exact operation_fill_element htag hholds h

theorem value_number (n : NumberText) (depth : Nat) :
    (Tree.number n).value depth = Value.number <$> n.value.mapError .malformed := rfl

/-- **A number in a field of an operation** is looked at on its own, and is what the operation has
there. -/
theorem Operand.operation_fill (p : Operand) {t₀ : Tree} {o₀ : Operation}
    (h : (p.slot.fill t₀).operation = .ok o₀) (n : NumberText) :
    discard (p.slot.fill (.number n)).operation =
        n.value.mapError .malformed >>= fit (expectation p.field.2) ∧
      ∀ o x, (p.slot.fill (.number n)).operation = .ok o → n.value = .ok x →
        (values false o).lookup p.field.1 = some (.number x) := by
  obtain ⟨before, after, hfill⟩ := p.exists_members h
  obtain ⟨v₀, -, hmembers⟩ := bind_eq_ok_iff.1 ((hfill t₀).symm.trans h)
  rw [hfill, value_number]
  cases hn : n.value with
  | error cause => exact ⟨rfl, fun o x ho => by cases ho⟩
  | ok x =>
    constructor
    · change discard (Members.operation (before ++ (p.field.1, .number x) :: after) p.kind) = _
      rw [Members.discard_operation_replace hmembers p.declared, check_number p.integral]
      rfl
    · intro o y ho hy
      obtain rfl := Except.ok.inj hy
      exact Members.lookup_values_replace hmembers p.declared ho

/-! ### Integer fields of a scenario -/

/-- A word of a scenario that is read from a number. -/
theorem word_number {expected : Expectation} (hword : expected ≠ .offset) (n : NumberText) :
    discard ((Tree.number n).word expected) = n.value.mapError .malformed >>= fit expected ∧
      ∀ w x, (Tree.number n).word expected = .ok w → n.value = .ok x →
        wordValue w = .number x := by
  have hread : (Tree.number n).word expected =
      n.value.mapError .malformed >>= fun x => Field.word expected (.number x) := by
    rw [Tree.word, Tree.surface]
    cases n.value <;> rfl
  rw [hread]
  cases n.value with
  | error cause => exact ⟨rfl, fun w x hw => by cases hw⟩
  | ok x =>
    refine ⟨discard_word hword x, fun w y hw hy => ?_⟩
    obtain rfl := Except.ok.inj hy
    exact (word_eq_ok_iff.1 hw).symm

/-- A number in a field of a scenario that holds a word. -/
theorem word_fill {part : Draft.Part UInt64} {expected : Expectation} (hword : expected ≠ .offset)
    (hread : part.read = Tree.word expected) {get : Scenario → UInt64}
    (hget : ∀ s w, get (part.replace s w) = w) {slot : Slot}
    (hslot : slot.Holds scenarioFields part.name) {t₀ : Tree} {s₀ : Scenario}
    (h : (slot.fill t₀).scenario = .ok s₀) (n : NumberText) :
    discard (slot.fill (.number n)).scenario = n.value.mapError .malformed >>= fit expected ∧
      ∀ s x, (slot.fill (.number n)).scenario = .ok s → n.value = .ok x →
        some (wordValue (get s)) = some (.number x) := by
  obtain ⟨hfit, hcontent⟩ := word_number hword n
  rw [part.scenario_fill hslot h, hread, discard_map]
  refine ⟨hfit, fun s x hs hx => ?_⟩
  obtain ⟨w, hw, rfl⟩ := map_eq_ok_iff.1 hs
  rw [hget, hcontent w x hw hx]

/-- **An integer field of a scenario**, with the scenario around it. -/
inductive IntegerField
  /-- The length of the scenario. -/
  | length (slot : Slot) (h : slot.Holds scenarioFields "len")
  /-- The size of its store. -/
  | size (slot : Slot) (h : slot.Holds scenarioFields "memSize")
  /-- A field of an operation, with other operations around it. -/
  | operation (ops : Slot) (h : ops.Holds scenarioFields "ops") (earlier later : List Tree)
      (operand : Operand)

namespace IntegerField

/-- **The scenario with a part in its field.** -/
def fill : IntegerField → Tree → Tree
  | length slot _, t | size slot _, t => slot.fill t
  | operation ops _ earlier later operand, t =>
    ops.fill ((Slot.element earlier later).fill (operand.slot.fill t))

/-- What is expected in the field. -/
def expected : IntegerField → Expectation
  | length .. => .word
  | size .. => .storeSize
  | operation _ _ _ _ operand => expectation operand.field.2

/-- **What a scenario has in the field.** -/
def content : IntegerField → Scenario → Option Value
  | length .., s => some (wordValue s.length)
  | size .., s => some (wordValue s.size)
  | operation _ _ earlier _ operand, s =>
    s.operations[earlier.length]? >>= fun o => (values false o).lookup operand.field.1

/-- **A number in an integer field of a scenario** is looked at on its own, and is what the scenario
has there. -/
theorem scenario_fill (p : IntegerField) {t₀ : Tree} {s₀ : Scenario}
    (h : (p.fill t₀).scenario = .ok s₀) (n : NumberText) :
    discard (p.fill (.number n)).scenario =
        n.value.mapError .malformed >>= fit p.expected ∧
      ∀ s x, (p.fill (.number n)).scenario = .ok s → n.value = .ok x →
        p.content s = some (.number x) := by
  cases p with
  | length slot hslot =>
    have hname : slot.Holds scenarioFields Draft.lengthPart.name := hslot
    exact word_fill (by nofun) rfl (fun _ _ => rfl) hname h n
  | size slot hslot =>
    have hname : slot.Holds scenarioFields Draft.sizePart.name := hslot
    exact word_fill (by nofun) rfl (fun _ _ => rfl) hname h n
  | operation ops hops earlier later operand =>
    have hscenario := Draft.operationsPart.scenario_fill hops h
    obtain ⟨operations, hread, -⟩ := map_eq_ok_iff.1 ((hscenario _).symm.trans h)
    have hoperations : ((Slot.element earlier later).fill (operand.slot.fill t₀)).operations =
        .ok operations := hread
    obtain ⟨front, back, heq, hless, hfill⟩ := operations_fill hoperations
    obtain ⟨rfl, rfl⟩ := Slot.element.inj heq
    obtain ⟨o₀, ho₀, -⟩ := map_eq_ok_iff.1 ((hfill _).symm.trans hoperations)
    obtain ⟨hfit, hcontent⟩ := operand.operation_fill ho₀ n
    change discard (ops.fill _).scenario = _ ∧ ∀ s x, (ops.fill _).scenario = .ok s → _
    rw [hscenario, discard_map]
    change discard ((Slot.element earlier later).fill _).operations = _ ∧
      ∀ s x, _ <$> ((Slot.element earlier later).fill _).operations = .ok s → _
    rw [hfill, discard_map]
    refine ⟨hfit, fun s x hs hx => ?_⟩
    obtain ⟨_, hset, rfl⟩ := map_eq_ok_iff.1 hs
    obtain ⟨o, ho, rfl⟩ := map_eq_ok_iff.1 hset
    change (operations.set earlier.length o)[earlier.length]? >>= _ = _
    rw [List.getElem?_set_self hless]
    exact hcontent o x ho hx

end IntegerField

/-! ### Documents -/

section Document

variable (p : IntegerField) {front back : List (Quoted × Tree)} {key : Quoted} {t₀ : Tree}
  {octets₀ : List UInt8} {f₀ : Fixture}

/-- **A number in an integer field of a document that loads** is looked at on its own, and is what
the document has there. -/
theorem load_number (htext₀ : ((Slot.member front key back).fill (p.fill t₀)).Text octets₀)
    (hload : load octets₀ = .ok f₀) {n : NumberText} {octets : List UInt8}
    (htext : ((Slot.member front key back).fill (p.fill (.number n))).Text octets) :
    discard (load octets) = n.value.mapError .malformed >>= fit p.expected ∧
      ∀ f x name, load octets = .ok f → n.value = .ok x → key.name = .ok name →
        (∀ m ∈ back, m.1.name ≠ .ok name) →
          ∃ s, f[name]? = some s ∧ p.content s = some (.number x) := by
  rw [load_text htext₀] at hload
  obtain ⟨_, _, _, name, heq, hname, g, hg, hlast⟩ := exists_fixture_fill hload
  obtain ⟨rfl, rfl, rfl⟩ := Slot.member.inj heq
  rw [hg] at hload
  obtain ⟨s₀, hs₀, -⟩ := map_eq_ok_iff.1 hload
  obtain ⟨hfit, hcontent⟩ := p.scenario_fill hs₀ n
  rw [load_text htext, hg, discard_map]
  refine ⟨hfit, fun f x name' hf hx hname' hback => ?_⟩
  obtain rfl := Except.ok.inj (hname.symm.trans hname')
  obtain ⟨s, hs, rfl⟩ := map_eq_ok_iff.1 hf
  exact ⟨s, hlast hback s, hcontent s x hs hx⟩

/-- **Integers are exact or refused.** For a document that loads, with any tree in an integer field
of it, and for a number in the place of this tree:

* With an integer in plain decimal, the document loads if and only if the integer is in the range of
  the field, and it has this very integer there.
* An integer out of this range is refused as a value if it is at least `-2 ^ 63` and below `2 ^ 64`.
  Beyond that it is refused as a double, up to `10 ^ 308`.
* A number with a point or a power and a negative zero are refused, for their type or as too
  large. -/
theorem load_integer (htext₀ : ((Slot.member front key back).fill (p.fill t₀)).Text octets₀)
    (hload : load octets₀ = .ok f₀) :
    (∀ (n : Int) (octets : List UInt8),
      ((Slot.member front key back).fill (p.fill (.number (integerNumber n)))).Text octets →
        ((∃ f, load octets = .ok f) ↔ InRange p.expected n) ∧
        (∀ f name, load octets = .ok f → key.name = .ok name →
          (∀ m ∈ back, m.1.name ≠ .ok name) →
            ∃ s, f[name]? = some s ∧ p.content s = some (.number (.integer n))) ∧
        (¬InRange p.expected n → -2 ^ 63 ≤ n → n < 2 ^ 64 →
          load octets = .error (.mistyped (.outOfRange n p.expected)) ∧
            (Mistyped.outOfRange n p.expected).message =
              "invalid value: " ++ ("integer `" ++ Number.integerText n ++ "`") ++
                ", expected " ++ p.expected.phrase) ∧
        (n < -2 ^ 63 ∨ 2 ^ 64 ≤ n → n.natAbs < 10 ^ 308 →
          ∃ x, load octets =
              .error (.mistyped (.wrongType (.number (.real (decide (n < 0)) x)) p.expected)) ∧
            (Mistyped.wrongType (.number (.real (decide (n < 0)) x)) p.expected).message =
              "invalid type: " ++
                ("floating point `" ++ Number.realText (decide (n < 0)) x ++ "`") ++
                  ", expected " ++ p.expected.phrase)) ∧
    ∀ (n : NumberText) (octets : List UInt8), n.IsMarked →
      ((Slot.member front key back).fill (p.fill (.number n))).Text octets →
        load octets = .error (.malformed .numberOutOfRange) ∨
          ∃ negative x, n.value = .ok (.real negative x) ∧ load octets =
            .error (.mistyped (.wrongType (.number (.real negative x)) p.expected)) := by
  constructor
  · intro n octets htext
    obtain ⟨hfit, hcontent⟩ := load_number p htext₀ hload htext
    have hrange : (∃ f, load octets = .ok f) ↔ InRange p.expected n := by
      rw [← discard_eq_ok_iff, hfit, fit_integerNumber_iff]
    refine ⟨hrange, ?_, ?_, ?_⟩
    · intro f name hf hname hback
      have hbounds := (hrange.1 ⟨f, hf⟩).bounds
      exact hcontent f _ name hf (value_integerNumber hbounds.1 hbounds.2) hname hback
    · intro hout hlow hhigh
      refine ⟨?_, rfl⟩
      rw [← discard_eq_error_iff, hfit, value_integerNumber hlow hhigh]
      change fit p.expected (.integer n) = _
      rw [fit, if_neg hout]
    · intro hbeyond hless
      obtain ⟨x, hx⟩ := (value_integerNumber_beyond hbeyond).2 hless
      refine ⟨x, ?_, rfl⟩
      rw [← discard_eq_error_iff, hfit, hx]
      rfl
  · intro n octets hmarked htext
    obtain ⟨hfit, -⟩ := load_number p htext₀ hload htext
    cases hvalue : n.value with
    | error cause =>
      obtain rfl := NumberText.value_eq_error hvalue
      rw [hvalue] at hfit
      exact Or.inl (discard_eq_error_iff.1 hfit)
    | ok x =>
      rw [hvalue] at hfit
      cases x with
      | integer i => exact absurd hvalue (NumberText.value_ne_integer hmarked i)
      | real negative x => exact Or.inr ⟨negative, x, rfl, discard_eq_error_iff.1 hfit⟩

end Document

/-- The size in a document with one operation. -/
def resizeField : IntegerField :=
  .operation (.member [] (written "ops" .null).key
      [((written "len" .null).key, three), ((written "memSize" .null).key, three)])
    (written "ops" .null).name_key [] []
    { slot := .member [((written "op" .null).key, spelled "resize")] (written "size" .null).key []
      kind := .resize
      field := ("size", .word)
      tagged := ⟨_, List.mem_cons_self, (written "op" .null).name_key, rfl⟩
      declared := List.mem_cons_self
      integral := Or.inl rfl
      holds := (written "size" .null).name_key }

/-- The document with a number in this place. -/
def resizingTo (n : NumberText) : Tree :=
  (Slot.member [] (written "a" .null).key []).fill (resizeField.fill (.number n))

/-- One, written with a point. -/
def onePointZero : NumberText where
  octets := [octet '1', octet '.', octet '0']
  isNumber := by
    have hwhole : WholeForm [octet '1'] :=
      .positive (d := 1) rfl (by decide) (List.forall_mem_nil _)
    have hfraction : FractionForm [octet '.', octet '0'] :=
      .some ⟨List.cons_ne_nil _ _, List.forall_mem_singleton.2 rfl⟩
    exact .mk (Or.inl rfl) hwhole hfraction .none

/-- The greatest size is exact. A negative one, one that is too large and one with a point are each
refused in their own way. -/
theorem load_integer_size :
    (∃ f s, load (resizingTo (integerNumber (2 ^ 64 - 1))).compact = .ok f ∧ f["a"]? = some s ∧
      resizeField.content s = some (.number (.integer (2 ^ 64 - 1)))) ∧
    load (resizingTo (integerNumber (-1))).compact = .error (.mistyped (.outOfRange (-1) .word)) ∧
    (∃ x, load (resizingTo (integerNumber (2 ^ 64))).compact =
      .error (.mistyped (.wrongType (.number (.real false x)) .word))) ∧
    ∀ f, load (resizingTo onePointZero).compact ≠ .ok f := by
  have hload : load (resizing [] []).compact = .ok resized :=
    (load_text (Tree.text_compact _)).trans rfl
  have htext : ((Slot.member [] (written "a" .null).key []).fill (resizeField.fill three)).Text
      (resizing [] []).compact := Tree.text_compact _
  obtain ⟨hinteger, hmarked⟩ := load_integer resizeField htext hload
  refine ⟨?_, ?_, ?_, ?_⟩
  · obtain ⟨hrange, hcontent, -⟩ := hinteger (2 ^ 64 - 1) _ (Tree.text_compact _)
    obtain ⟨f, hf⟩ := hrange.2 ⟨by decide, by decide⟩
    obtain ⟨s, hs, hn⟩ := hcontent f "a" hf (written "a" .null).name_key (List.forall_mem_nil _)
    exact ⟨f, s, hf, hs, hn⟩
  · obtain ⟨-, -, hout, -⟩ := hinteger (-1) _ (Tree.text_compact _)
    exact (hout (by decide) (by decide) (by decide)).1
  · obtain ⟨-, -, -, hbeyond⟩ := hinteger (2 ^ 64) _ (Tree.text_compact _)
    have hless (k : Nat) (hk : 20 ≤ k) : (2 ^ 64 : Int).natAbs < 10 ^ k :=
      Nat.lt_of_lt_of_le (by decide : (2 ^ 64 : Int).natAbs < 10 ^ 20)
        (Nat.pow_le_pow_right (by decide) hk)
    obtain ⟨x, hx, -⟩ := hbeyond (Or.inr (Int.le_refl _)) (hless 308 (by decide))
    exact ⟨x, hx⟩
  · intro f hf
    rcases hmarked onePointZero _ (Or.inl (by decide)) (Tree.text_compact _) with
      hlarge | ⟨negative, x, -, hreal⟩
    · cases hf.symm.trans hlarge
    · cases hf.symm.trans hreal

end LinearMemory.Fixture
