import Mathlib.Data.List.Perm.Basic
import LinearMemory.Proofs.Fixture.Filling
import LinearMemory.Proofs.Fixture.Rendering
import LinearMemory.Proofs.Fixture.Values

/-!
# Loading a document of a fixture

Members come in any order, and each kind of object has its own reason why this makes no difference:

* an operation looks its fields up by name, and no name occurs twice (`Fixture.operation_of_perm`);
* a scenario keeps each field in a place of its own (`Fixture.Draft.told`);
* a fixture is a map of its names (`Fixture.insertMany_of_perm`).

The result is `Fixture.load_document`: what is written is a document of the fixture, and every
document of the fixture loads as it.
-/

namespace LinearMemory.Fixture

open Json

/-! ### Members with scalars -/

/-- A word is a scalar. -/
theorem denotes_wordToken (w : UInt64) :
    (Operation.wordToken w).Denotes (wordValue w) := by
  have hlt : w.toNat < 2 ^ 64 := w.toNat_lt
  have hpow : Nat.pow 2 64 = 2 ^ 64 := rfl
  exact .integer (by omega) (by omega)

/-- An offset is a scalar. -/
theorem denotes_offsetToken (o : Int64) :
    (Operation.offsetToken o).Denotes (offsetValue o) := by
  have hlow := o.le_toInt
  have hhigh := o.toInt_lt
  have hpow : Nat.pow 2 63 = 2 ^ 63 ∧ Nat.pow 2 64 = 2 ^ 64 := ⟨rfl, rfl⟩
  exact .integer (by omega) (by omega)

/-- A part of a document spells a member with a scalar. -/
def Spells (part : List Token) (member : String × Value) : Prop :=
  ∃ t : Token, t.Denotes member.2 ∧ part = Token.member member.1 [t]

theorem forall₂_spells_expect (leaveOut : Bool) (expect : Option String) :
    List.Forall₂ Spells (Operation.expectMembers leaveOut expect)
      (expectValues leaveOut expect) := by
  cases expect with
  | some s => exact .cons ⟨_, .text s, rfl⟩ .nil
  | none =>
    cases leaveOut with
    | true => exact .nil
    | false => exact .cons ⟨_, .null, rfl⟩ .nil

/-- **The members of an operation spell its values**, one by one. -/
theorem forall₂_spells (leaveOut : Bool) (operation : Operation) :
    List.Forall₂ Spells (operation.record leaveOut)
      (("op", .text operation.kind.name) :: values leaveOut operation) := by
  have hword (key : String) (w : UInt64) :
      Spells (Token.member key [Operation.wordToken w]) (key, wordValue w) :=
    ⟨_, denotes_wordToken w, rfl⟩
  have hoffset (key : String) (o : Int64) :
      Spells (Token.member key [Operation.offsetToken o]) (key, offsetValue o) :=
    ⟨_, denotes_offsetToken o, rfl⟩
  have htext (key s : String) : Spells (Token.member key [.text s]) (key, .text s) :=
    ⟨_, .text s, rfl⟩
  refine .cons (htext _ _) ?_
  cases operation with
  | resize size => exact .cons (hword _ _) .nil
  | write offset size value =>
    exact .cons (hoffset _ _) (.cons (hword _ _) (.cons (htext _ _) .nil))
  | append value expect => exact .cons (htext _ _) (.cons (hword _ _) .nil)
  | read offset expect => exact .cons (hoffset _ _) (forall₂_spells_expect leaveOut expect)
  | view offset expect => exact .cons (hoffset _ _) (forall₂_spells_expect leaveOut expect)
  | normalize offset expect => exact .cons (hoffset _ _) (.cons (hword _ _) .nil)

/-! ### Operations -/

/-- Members that do not name the kind are kept as they come. -/
theorem reads_members {o : OpenOperation} {kind : Option Operation.Kind} {earlier members : Members}
    {parts : List (List Token)} (h : List.Forall₂ Spells parts members)
    (hkeys : ∀ member ∈ members, member.1 ≠ "op") :
    Record.Reads (.operation o kind earlier) parts
      (.operation o kind (members.reverse ++ earlier)) := by
  induction h generalizing earlier with
  | nil => exact .nil _
  | @cons _ member _ _ hpart _ ih =>
    obtain ⟨key, v⟩ := member
    obtain ⟨t, ht, rfl⟩ := hpart
    have hplace : Record.value key (.operation o kind earlier)
        = .ok (.inside (.member o kind earlier key) []) := if_neg (hkeys _ List.mem_cons_self)
    rw [List.reverse_cons, List.append_assoc]
    exact .cons rfl hplace (fills_scalar ht rfl rfl)
      (ih fun member hmember => hkeys member (List.mem_cons_of_mem _ hmember))

/-- The member that names the kind sets it. -/
theorem reads_kind (o : OpenOperation) (kind : Operation.Kind) (earlier : Members) :
    Record.Reads (.operation o none earlier) [Token.member "op" [.text kind.name]]
      (.operation o (some kind) earlier) := by
  have hkind : Place.scalar (.text kind.name) (.recordKind o earlier)
      = .ok (.record (.operation o (some kind) earlier)) := by
    cases kind <;> rfl
  exact .cons rfl rfl (fills_scalar (.text _) rfl hkind) (.nil _)

/-- The record of an operation is read in any order, with its other members in that order. -/
theorem reads_record {operation : Operation} {leaveOut : Bool} {order : List (List Token)}
    (h : order.Perm (operation.record leaveOut)) (o : OpenOperation) :
    ∃ members : Members, members.Perm (values leaveOut operation) ∧
      Record.Reads (.operation o none []) order
        (.operation o (some operation.kind) members.reverse) := by
  obtain ⟨members, hspells, hvalues⟩ :=
    List.perm_comp_forall₂ h (forall₂_spells leaveOut operation)
  -- the kind comes somewhere among the members, and no other is called like it
  obtain ⟨before, behind, rfl⟩ := List.append_of_mem (hvalues.mem_iff.2 List.mem_cons_self)
  have hothers : (before ++ behind).Perm (values leaveOut operation) :=
    (List.perm_middle.symm.trans hvalues).cons_inv
  have hkeys : ∀ member ∈ before ++ behind, member.1 ≠ "op" := by
    intro member hmember heq
    have hmem : member.1 ∈ (values leaveOut operation).map Prod.fst :=
      List.mem_map_of_mem (hothers.mem_iff.1 hmember)
    exact (List.nodup_cons.1 (nodup_values leaveOut operation)).1 (heq ▸ hmem)
  have hbefore := List.forall₂_take_append _ _ _ hspells
  obtain ⟨part, parts, ⟨t, ht, rfl⟩, hbehind, hdrop⟩ :=
    List.forall₂_cons_right_iff.1 (List.forall₂_drop_append _ _ _ hspells)
  cases ht
  refine ⟨before ++ behind, hothers, ?_⟩
  rw [← List.take_append_drop before.length order, hdrop, List.reverse_append,
    ← List.append_nil before.reverse]
  exact (reads_members hbefore fun member h => hkeys member (List.mem_append_left _ h)).append <|
    (reads_kind _ _ _).append <|
    reads_members hbehind fun member h => hkeys member (List.mem_append_right _ h)

/-- **An operation is read from any of its renderings.** -/
theorem fills_operation {operation : Operation} {tokens : List Token}
    (h : operation.Rendered tokens) (s : OpenScenario) (done : List Operation) :
    Fills (.operation ⟨s, done⟩) tokens (.row (.operations s (operation :: done))) := by
  obtain ⟨leaveOut, order, hperm, rfl⟩ := h
  obtain ⟨members, hvalues, hreads⟩ := reads_record hperm ⟨s, done⟩
  refine fills_object rfl hreads ?_
  rw [Record.close, List.reverse_reverse, operation_of_perm hvalues]
  rfl

/-- Operations are read one after the other. -/
theorem reads_operations {operations : List Operation} {parts : List (List Token)}
    (h : List.Forall₂ Operation.Rendered operations parts) (s : OpenScenario)
    (done : List Operation) :
    Row.Reads (.operations s done) parts (.operations s (operations.reverse ++ done)) := by
  induction h generalizing done with
  | nil => exact .nil _
  | @cons operation part _ _ hpart _ ih =>
    rw [List.reverse_cons, List.append_assoc]
    exact .cons rfl (fills_operation hpart s done) (ih (operation :: done))

/-! ### Scenarios -/

/-- **The draft of a scenario** of which the fields of these names were read. -/
def Draft.told (s : Scenario) (names : List String) : Draft :=
  ⟨if "ops" ∈ names then some s.operations else none, if "len" ∈ names then some s.length else none,
    if "memSize" ∈ names then some s.size else none⟩

theorem Draft.told_operations (s : Scenario) (names : List String) :
    { Draft.told s names with operations := some s.operations } = told s ("ops" :: names) := by
  simp [told]

theorem Draft.told_length (s : Scenario) (names : List String) :
    { Draft.told s names with length := some s.length } = told s ("len" :: names) := by
  simp [told]

theorem Draft.told_size (s : Scenario) (names : List String) :
    { Draft.told s names with size := some s.size } = told s ("memSize" :: names) := by
  simp [told]

theorem once_eq_ok {α : Type} {content : Option α} (h : content = none) (field : String)
    (p : Place) : once field content p = .ok p := by
  rw [h]
  rfl

/-- The names of the fields of a scenario. -/
def scenarioFields : List String := ["ops", "len", "memSize"]

/-- A part of a document is a field of a scenario. -/
inductive FieldOf (s : Scenario) : List Token → String → Prop
  | operations {operations : List (List Token)}
      (h : List.Forall₂ Operation.Rendered s.operations operations) :
      FieldOf s (Token.member "ops" (Token.array operations)) "ops"
  | length : FieldOf s (Token.member "len" [Operation.wordToken s.length]) "len"
  | size : FieldOf s (Token.member "memSize" [Operation.wordToken s.size]) "memSize"

/-- A field is read, if it was not read before. -/
theorem reads_field {s : Scenario} {part : List Token} {field : String} (h : FieldOf s part field)
    {names : List String} (hnew : field ∉ names) (earlier : Fixture) (name : String) :
    Record.Reads (.scenario ⟨earlier, name, .curly, .told s names⟩) [part]
      (.scenario ⟨earlier, name, .curly, .told s (field :: names)⟩) := by
  cases h with
  | operations h =>
    have hplace : Record.value "ops" (.scenario ⟨earlier, name, .curly, .told s names⟩)
        = .ok (.operations ⟨earlier, name, .curly, .told s names⟩) :=
      once_eq_ok (if_neg hnew) _ _
    refine .cons rfl hplace (fills_array rfl rfl (reads_operations h _ []) ?_) (.nil _)
    rw [Row.close, List.append_nil, List.reverse_reverse, ← Draft.told_operations]
    rfl
  | length =>
    have hplace : Record.value "len" (.scenario ⟨earlier, name, .curly, .told s names⟩)
        = .ok (.length ⟨earlier, name, .curly, .told s names⟩) :=
      once_eq_ok (if_neg hnew) _ _
    refine .cons rfl hplace (fills_scalar (denotes_wordToken s.length) rfl ?_) (.nil _)
    rw [Place.scalar, word_wordValue, ← Draft.told_length]
    rfl
  | size =>
    have hplace : Record.value "memSize" (.scenario ⟨earlier, name, .curly, .told s names⟩)
        = .ok (.size ⟨earlier, name, .curly, .told s names⟩) :=
      once_eq_ok (if_neg hnew) _ _
    refine .cons rfl hplace (fills_scalar (denotes_wordToken s.size) rfl ?_) (.nil _)
    rw [Place.scalar, word_wordValue, ← Draft.told_size]
    rfl

/-- Fields are read one after the other. -/
theorem reads_fields {s : Scenario} {parts : List (List Token)} {fields : List String}
    (h : List.Forall₂ (FieldOf s) parts fields) {names : List String}
    (hnodup : (fields.reverse ++ names).Nodup) (earlier : Fixture) (name : String) :
    Record.Reads (.scenario ⟨earlier, name, .curly, .told s names⟩) parts
      (.scenario ⟨earlier, name, .curly, .told s (fields.reverse ++ names)⟩) := by
  induction h generalizing names with
  | nil => exact .nil _
  | @cons part field _ fields hpart _ ih =>
    rw [List.reverse_cons, List.append_assoc] at hnodup ⊢
    have hnew : field ∉ names := (List.nodup_cons.1 (List.nodup_append.1 hnodup).2.1).1
    exact (reads_field hpart hnew earlier name).append (ih hnodup)

/-- **A scenario is read from any of its renderings.** -/
theorem fills_scenario {s : Scenario} {tokens : List Token} (h : s.Rendered tokens)
    (earlier : Fixture) (name : String) :
    Fills (.scenario earlier name) tokens (.record (.document (earlier.insert name s))) := by
  obtain ⟨operations, hoperations, order, hperm, rfl⟩ := h
  have hrecord : List.Forall₂ (FieldOf s) (s.record operations) scenarioFields :=
    .cons (.operations hoperations) (.cons .length (.cons .size .nil))
  obtain ⟨fields, hfields, hnames⟩ := List.perm_comp_forall₂ hperm hrecord
  -- whatever the order was, at the end every field has been read
  have hall : ∀ field ∈ scenarioFields, field ∈ fields.reverse ++ [] := by
    intro field hfield
    rw [List.append_nil, List.mem_reverse]
    exact hnames.mem_iff.2 hfield
  have hnodup : (fields.reverse ++ []).Nodup := by
    rw [List.append_nil, List.reverse_perm _ |>.nodup_iff]
    exact hnames.nodup_iff.2 (by decide)
  have htold : Draft.told s (fields.reverse ++ [])
      = ⟨some s.operations, some s.length, some s.size⟩ := by
    rw [Draft.told, if_pos (hall "ops" (by decide)), if_pos (hall "len" (by decide)),
      if_pos (hall "memSize" (by decide))]
  refine fills_object rfl (reads_fields hfields hnodup earlier name) ?_
  rw [Record.close, htold]
  rfl

/-! ### Documents -/

/-- Scenarios are read one after the other. -/
theorem reads_entries {parts : List (List Token)} {entries : List (String × Scenario)}
    (h : List.Forall₂ Entry parts entries) (done : Fixture) :
    Record.Reads (.document done) parts (.document (done.insertMany entries)) := by
  induction h generalizing done with
  | nil =>
    rw [Std.ExtTreeMap.insertMany_nil]
    exact .nil _
  | @cons _ entry _ _ hpart _ ih =>
    obtain ⟨name, s⟩ := entry
    obtain ⟨value, hvalue, rfl⟩ := hpart
    rw [Std.ExtTreeMap.insertMany_cons]
    exact .cons rfl rfl (fills_scenario hvalue done name) (ih _)

/-- **A fixture is its scenarios**, in whatever order they come. -/
theorem insertMany_of_perm {f : Fixture} {entries : List (String × Scenario)}
    (h : entries.Perm f.toList) : (∅ : Fixture).insertMany entries = f := by
  have hdistinct : entries.Pairwise fun a b => ¬compare a.1 b.1 = .eq :=
    h.symm.pairwise Std.ExtTreeMap.distinct_keys_toList fun hab hba =>
      hab (Std.OrientedCmp.eq_symm hba)
  have hentry (name : String) (s : Scenario) : (name, s) ∈ entries ↔ f[name]? = some s :=
    h.mem_iff.trans Std.ExtTreeMap.mem_toList_iff_getElem?_eq_some
  apply Std.ExtTreeMap.ext_getElem?
  intro name
  cases hname : f[name]? with
  | some s =>
    exact Std.ExtTreeMap.getElem?_insertMany_list_of_mem Std.ReflCmp.compare_self hdistinct
      ((hentry name s).2 hname)
  | none =>
    have hnot : (entries.map Prod.fst).contains name = false := by
      rw [List.contains_eq_mem, decide_eq_false_iff_not, List.mem_map]
      rintro ⟨⟨_, s⟩, hmem, rfl⟩
      exact absurd (hname.symm.trans ((hentry _ s).1 hmem)) (by nofun)
    rw [Std.ExtTreeMap.getElem?_insertMany_list_of_contains_eq_false hnot]
    exact Std.ExtTreeMap.getElem?_empty

/-- **Tokens that render a fixture lead to it**, from the start of a document. -/
theorem takesAll_of_rendered {f : Fixture} {tokens : List Token} (h : f.Rendered tokens) :
    State.TakesAll .start tokens (.after (.nothing f)) := by
  obtain ⟨members, hmembers, order, hperm, rfl⟩ := h
  -- the scenarios in the order of the document
  obtain ⟨entries, hentries, hfixture⟩ := List.perm_comp_forall₂ hperm hmembers
  have hfills : Fills .document (Token.object order) (.nothing f) := by
    refine fills_object rfl (reads_entries hentries ∅) ?_
    rw [insertMany_of_perm hfixture]
    rfl
  exact hfills _ rfl

/-- **A document of a fixture loads as it.** What is written is such a document, and so is any other
that has the same members in another order, other blanks, other escapes or fewer absent values
written out. -/
theorem load_document (f : Fixture) :
    f.Document f.write ∧ ∀ octets, f.Document octets → load octets = .ok f := by
  refine ⟨f.document_write, ?_⟩
  rintro octets ⟨tokens, hrendered, hoctets⟩
  exact load_of_takesAll (takesAll_of_rendered hrendered) hoctets

/-- One scenario, which reads a value that is expected to be absent. -/
def oneRead : Fixture := (∅ : Fixture).insert "a" ⟨[.read (-1) none], 0, 0⟩

/-- The tokens of its operation, the kind last and the expected value left out. -/
def readShuffled : List Token :=
  Token.object [Token.member "offset" [.integer (-1)], Token.member "op" [.text "get"]]

/-- Its tokens, with no field where the writer has it. -/
def oneReadShuffled : List Token :=
  Token.object [Token.member "a" (Token.object [Token.member "memSize" [.integer 0],
    Token.member "ops" (Token.array [readShuffled]), Token.member "len" [.integer 0]])]

/-- The order of the members makes no difference, and neither does a blank in front. -/
theorem load_document_oneReadShuffled :
    oneRead.Document (0x20 :: oneReadShuffled.flatMap Token.octets) ∧
      load (0x20 :: oneReadShuffled.flatMap Token.octets) = .ok oneRead := by
  have hread : Operation.Rendered (.read (-1) none) readShuffled := ⟨true, _, by decide, rfl⟩
  have hrendered : oneRead.Rendered oneReadShuffled :=
    ⟨_, .cons ⟨_, ⟨_, .cons hread .nil, _, by decide, rfl⟩, rfl⟩ .nil, Token.isObject_object _⟩
  have hblank : ∀ b ∈ [0x20], isBlank b = true := List.forall_mem_singleton.2 rfl
  have hlaidOut : LaidOut oneReadShuffled (0x20 :: oneReadShuffled.flatMap Token.octets) :=
    .cons hblank (Token.form_octets _) (laidOut_octets _)
  have hdocument : oneRead.Document (0x20 :: oneReadShuffled.flatMap Token.octets) :=
    ⟨_, hrendered, hlaidOut⟩
  exact ⟨hdocument, (load_document oneRead).2 _ hdocument⟩

end LinearMemory.Fixture
