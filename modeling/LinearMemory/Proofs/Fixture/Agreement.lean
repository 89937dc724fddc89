import LinearMemory.Proofs.Fixture.Judging

/-!
# The reader finds what a tree means

What the reader makes of the octets of a tree is what the tree means, fault or not. There is a law
for each place: what is skipped is no fault, an untyped value is looked through (`yields_value`),
and an operation, the operations of a scenario, a scenario and a document yield what `Json.Tree`
says of each (`yields_operation`, `yields_operations`, `yields_scenario`, `yields_document`). Each
is an instance of the laws for arrays and objects, with the frame of the reader for what is kept.

The result is `Fixture.load_text`: a text is loaded as what its tree means, whatever its blanks.
-/

namespace LinearMemory.Fixture

open Json State

/-! ### Untyped values -/

/-- Whatever value is skipped, what stands around it goes on in the same way. -/
theorem resume_skipped (s : OpenScenario) (brackets : List Bracket) (v : Value) :
    (Inside.skipped s).resume brackets v = (Inside.skipped s).resume brackets .null := by
  cases brackets with
  | nil => rfl
  | cons bracket outer => cases bracket <;> rfl

/-- **What is skipped is no fault**, at any depth. -/
theorem yields_skipped (s : OpenScenario) (t : Tree) (brackets : List Bracket) :
    (Place.inside (.skipped s) brackets).Yields t
      (.ok ((Inside.skipped s).resume brackets .null)) := by
  -- every part is taken and nothing is kept of it
  have hall {α : Type} (parts : List α) :
      parts.foldlM (fun (_ : Unit) _ => (.ok () : Except Fault Unit)) () = .ok () :=
    List.foldlM_pure
  induction t generalizing brackets with
  | null => exact yields_null _
  | boolean b =>
    rw [← resume_skipped s brackets (.boolean b)]
    exact yields_boolean _ b
  | number n =>
    obtain ⟨m, -, hyields⟩ := yields_number (.inside (.skipped s) brackets) n
    exact hyields
  | text q => exact yields_text_skipped rfl q
  | array elements ih =>
    have harray := yields_array (fun _ => .nested (.skipped s) brackets) (fun _ _ => .ok ())
      (x := ()) (p := .inside (.skipped s) brackets) rfl rfl
      (fun t ht _ => yields_element rfl (ih t ht (.square :: brackets)))
    rw [hall] at harray
    rw [← resume_skipped s brackets .array]
    exact harray
  | object members ih =>
    have hobject := yields_object (fun _ => .nested (.skipped s) brackets) (fun _ _ => .ok ())
      (x := ()) (p := .inside (.skipped s) brackets) rfl
      (fun m hm _ => yields_member_skipped rfl rfl (ih m hm (.curly :: brackets)))
    rw [hall] at hobject
    rw [← resume_skipped s brackets .object]
    exact hobject

theorem checkElements_eq_foldlM (elements : List Tree) (depth : Nat) :
    Tree.checkElements elements depth =
      elements.foldlM (fun _ t => discard (t.value depth)) () := by
  induction elements with
  | nil => rfl
  | cons t rest ih =>
    rw [Tree.checkElements, ih, List.foldlM_cons]

theorem checkMembers_eq_foldlM (members : List (Quoted × Tree)) (depth : Nat) :
    Tree.checkMembers members depth =
      members.foldlM (fun _ m => m.1.name >>= fun _ => discard (m.2.value depth)) () := by
  induction members with
  | nil => rfl
  | cons m rest ih =>
    obtain ⟨q, t⟩ := m
    rw [Tree.checkMembers, ih, List.foldlM_cons, bind_assoc]
    cases q.name <;> rfl

/-- A value of which only the success matters. -/
theorem map_discard {α β : Type} (a : β) (x : Except Fault α) :
    (fun _ => a) <$> discard x = (fun _ => a) <$> x := by
  cases x <;> rfl

/-- **An untyped value is looked through**, and its brackets are counted. -/
theorem yields_value {i : Inside} (hread : i.isSkipped = false) (t : Tree)
    (brackets : List Bracket) :
    (Place.inside i brackets).Yields t
      (t.value (operationDepth + brackets.length) >>= fun v => .ok (i.resume brackets v)) := by
  have hadmits (brackets : List Bracket) : i.admits brackets =
      decide (operationDepth + brackets.length + 1 < depthLimit) := by
    rw [Inside.admits, hread, Bool.false_or]
  have hplace (brackets : List Bracket) : (Place.inside i brackets).isSkipped = false := hread
  have hrecord (brackets : List Bracket) : (Record.nested i brackets).isSkipped = false := hread
  induction t generalizing brackets with
  | null => exact yields_null _
  | boolean b => exact yields_boolean _ b
  | number n => exact yields_surface (hplace brackets) (by nofun) (by nofun)
  | text q => exact yields_surface (hplace brackets) (by nofun) (by nofun)
  | array elements ih =>
    rw [Tree.value]
    split
    · next hdepth =>
      have hopen : (Place.inside i brackets).openRow =
          .ok (.nested i brackets, .inside i (.square :: brackets)) :=
        if_pos ((hadmits brackets).trans (decide_eq_true hdepth))
      rw [checkElements_eq_foldlM, bind_assoc]
      refine yields_array (fun _ => .nested i brackets) _ (x := ()) hopen rfl
        fun t ht _ => yields_element rfl ?_
      rw [map_discard, map_eq_pure_bind]
      exact ih t ht (.square :: brackets)
    · next hdepth =>
      refine yields_array_of_error ?_ elements
      exact if_neg (by rw [hadmits, decide_eq_true_eq]; exact hdepth)
  | object members ih =>
    rw [Tree.value]
    split
    · next hdepth =>
      have hopen : (Place.inside i brackets).openRecord = .ok (.nested i brackets) :=
        if_pos ((hadmits brackets).trans (decide_eq_true hdepth))
      rw [checkMembers_eq_foldlM, bind_assoc]
      refine yields_object (fun _ => .nested i brackets) _ (x := ()) hopen fun m hm _ => ?_
      rw [map_bind]
      refine yields_member (hrecord brackets) fun name => Or.inr ⟨_, rfl, ?_⟩
      rw [map_discard, map_eq_pure_bind]
      exact ih m hm (.curly :: brackets)
    · next hdepth =>
      refine yields_object_of_error ?_ members
      exact if_neg (by rw [hadmits, decide_eq_true_eq]; exact hdepth)

/-! ### Typed scalars -/

theorem yields_recordKind (o : OpenOperation) (members : Members) (t : Tree) :
    (Place.recordKind o members).Yields t
      (t.kind >>= fun kind => .ok (.record (.operation o (some kind) members))) := by
  rw [Tree.kind, bind_assoc]
  exact yields_surface rfl (fun _ _ => ⟨_, rfl, rfl⟩) (fun _ _ => ⟨_, rfl, rfl⟩)

theorem yields_rowKind (o : OpenOperation) (t : Tree) :
    (Place.rowKind o).Yields t
      (t.kind >>= fun kind => .ok (.row (.operation o (some (kind, []))))) := by
  rw [Tree.kind, bind_assoc]
  exact yields_surface rfl (fun _ _ => ⟨_, rfl, rfl⟩) (fun _ _ => ⟨_, rfl, rfl⟩)

theorem yields_length (s : OpenScenario) (t : Tree) :
    (Place.length s).Yields t (t.word .word >>= fun length =>
      .ok { s with draft := { s.draft with length := some length } }.resume) := by
  rw [Tree.word, bind_assoc]
  exact yields_surface rfl (fun _ _ => ⟨_, rfl, rfl⟩) (fun _ _ => ⟨_, rfl, rfl⟩)

theorem yields_size (s : OpenScenario) (t : Tree) :
    (Place.size s).Yields t (t.word .storeSize >>= fun size =>
      .ok { s with draft := { s.draft with size := some size } }.resume) := by
  rw [Tree.word, bind_assoc]
  exact yields_surface rfl (fun _ _ => ⟨_, rfl, rfl⟩) (fun _ _ => ⟨_, rfl, rfl⟩)

/-! ### Fields that may come once -/

/-- A field that may come once is a fault of its key, or yields what its value does. -/
theorem once_or {α : Type} (field : String) (content : Option α) (p : Place) {t : Tree}
    {outcome : Except Fault Around} (h : p.Yields t outcome) :
    (∃ fault, once field content p = .error fault ∧
      (unread field content >>= fun _ => outcome) = .error fault) ∨
    ∃ p', once field content p = .ok p' ∧
      p'.Yields t (unread field content >>= fun _ => outcome) := by
  cases content with
  | some c => exact Or.inl ⟨_, rfl, rfl⟩
  | none => exact Or.inr ⟨p, rfl, h⟩

/-! ### Operations -/

/-- A member of an operation yields what it makes of the operation. -/
theorem yields_operation_member (o : OpenOperation) (r : PartialRecord) (m : Quoted × Tree) :
    (Record.operation o r.kind r.members).Yields m
      ((fun r => .record (.operation o r.kind r.members)) <$> r.member m) := by
  obtain ⟨kind, members⟩ := r
  rw [PartialRecord.member, map_bind]
  refine yields_member rfl fun key => ?_
  by_cases hkey : key = "op"
  · rw [if_pos hkey, Record.value, if_pos hkey]
    simp only [map_bind]
    exact once_or key kind _ (yields_recordKind o members m.2)
  · rw [if_neg hkey]
    refine Or.inr ⟨_, if_neg hkey, ?_⟩
    rw [map_bind]
    exact yields_value rfl m.2 []

/-- An element of an operation yields what it makes of the operation. -/
theorem yields_operation_element (o : OpenOperation) (r : PartialRow) (t : Tree) :
    (Row.operation o r).Yields t ((fun r => .row (.operation o r)) <$> r.element t) := by
  cases r with
  | none =>
    refine yields_element rfl ?_
    rw [PartialRow.element, map_bind]
    exact yields_rowKind o t
  | some read =>
    refine yields_element rfl ?_
    rw [PartialRow.element, map_bind]
    exact yields_value rfl t []

/-- **An operation is read to what it means.** -/
theorem yields_operation (o : OpenOperation) (t : Tree) :
    (Place.operation o).Yields t (t.operation >>= fun operation => .ok (o.finish operation)) := by
  cases t with
  | object members =>
    have hclose (r : PartialRecord) : (Record.operation o r.kind r.members).close =
        r.operation >>= fun operation => .ok (o.finish operation) := by
      obtain ⟨kind, members⟩ := r
      cases kind <;> rfl
    have h := yields_object (fun r : PartialRecord => .operation o r.kind r.members)
      PartialRecord.member (x := ⟨none, []⟩) (p := .operation o) rfl fun m (_ : m ∈ members) r =>
        yields_operation_member o r m
    simp only [hclose] at h
    rw [Tree.operation, bind_assoc]
    exact h
  | array elements =>
    have hclose (r : PartialRow) : (Row.operation o r).close =
        r.operation >>= fun operation => .ok (o.finish operation) := by
      cases r <;> rfl
    have h := yields_array (fun r : PartialRow => .operation o r) PartialRow.element (x := none)
      (p := .operation o) rfl rfl fun t (_ : t ∈ elements) r => yields_operation_element o r t
    simp only [hclose] at h
    rw [Tree.operation, bind_assoc]
    exact h
  | _ =>
    rw [Tree.operation, bind_assoc]
    · exact yields_surface rfl (by nofun) (by nofun)
    · nofun
    · nofun

/-- **The operations of a scenario are read to what they mean**, one after the other. -/
theorem yields_operations (s : OpenScenario) (t : Tree) :
    (Place.operations s).Yields t (t.operations >>= fun operations =>
      .ok { s with draft := { s.draft with operations := some operations } }.resume) := by
  cases t with
  | array elements =>
    have h := yields_array (fun done => .operations s done)
      (fun done t => t.operation >>= fun operation => pure (operation :: done)) (x := [])
      (p := .operations s) rfl rfl fun t (_ : t ∈ elements) done => by
        refine yields_element rfl ?_
        rw [map_bind]
        exact yields_operation ⟨s, done⟩ t
    rw [Tree.operations, List.mapM_eq_reverse_foldlM_cons, bind_map_left]
    exact h
  | _ =>
    rw [Tree.operations, bind_assoc]
    · exact yields_surface rfl (by nofun) (by intros; exact ⟨_, rfl, rfl⟩)
    · nofun

/-! ### Scenarios -/

/-- A member of a scenario yields what it makes of the draft. -/
theorem yields_scenario_member (earlier : Fixture) (name : String) (d : Draft)
    (m : Quoted × Tree) :
    (Record.scenario ⟨earlier, name, .curly, d⟩).Yields m
      ((fun d => .record (.scenario ⟨earlier, name, .curly, d⟩)) <$> d.member m) := by
  rw [Draft.member, map_bind]
  refine yields_member rfl fun key => ?_
  simp only [Record.value]
  split
  · next hkey =>
    simp only [map_bind]
    exact once_or key d.operations _ (yields_operations ⟨earlier, name, .curly, d⟩ m.2)
  split
  · next hkey =>
    simp only [map_bind]
    exact once_or key d.length _ (yields_length ⟨earlier, name, .curly, d⟩ m.2)
  split
  · next hkey =>
    simp only [map_bind]
    exact once_or key d.size _ (yields_size ⟨earlier, name, .curly, d⟩ m.2)
  · exact Or.inr ⟨_, rfl, yields_skipped ⟨earlier, name, .curly, d⟩ m.2 []⟩

/-- An element of a scenario yields what it makes of the draft. -/
theorem yields_scenario_element (earlier : Fixture) (name : String) (d : Draft) (t : Tree) :
    (Row.scenario ⟨earlier, name, .square, d⟩).Yields t
      ((fun d => .row (.scenario ⟨earlier, name, .square, d⟩)) <$> d.element t) := by
  match d with
  | ⟨none, length, size⟩ =>
    refine yields_element rfl ?_
    rw [Draft.element, map_bind]
    exact yields_operations _ t
  | ⟨some operations, none, size⟩ =>
    refine yields_element rfl ?_
    rw [Draft.element, map_bind]
    exact yields_length _ t
  | ⟨some operations, some length, none⟩ =>
    refine yields_element rfl ?_
    rw [Draft.element, map_bind]
    exact yields_size _ t
  | ⟨some operations, some length, some size⟩ => exact yields_surplus rfl t

/-- **A scenario is read to what it means**, and goes to the scenarios before it. -/
theorem yields_scenario (earlier : Fixture) (name : String) (t : Tree) :
    (Place.scenario earlier name).Yields t
      (t.scenario >>= fun s => .ok (.record (.document (earlier.insert name s)))) := by
  cases t with
  | object members =>
    have h := yields_object (fun d => .scenario ⟨earlier, name, .curly, d⟩) Draft.member
      (x := .empty)
      (p := .scenario earlier name) rfl fun m (_ : m ∈ members) d =>
        yields_scenario_member earlier name d m
    rw [Tree.scenario, bind_assoc]
    exact h
  | array elements =>
    have h := yields_array (fun d => .scenario ⟨earlier, name, .square, d⟩) Draft.element
      (x := .empty)
      (p := .scenario earlier name) rfl rfl fun t (_ : t ∈ elements) d =>
        yields_scenario_element earlier name d t
    rw [Tree.scenario, bind_assoc]
    exact h
  | _ =>
    rw [Tree.scenario, bind_assoc]
    · exact yields_surface rfl (by nofun) (by nofun)
    · nofun
    · nofun

/-! ### Documents -/

/-- A member of a document yields what it makes of the fixture. -/
theorem yields_document_member (done : Fixture) (m : Quoted × Tree) :
    (Record.document done).Yields m ((fun f => .record (.document f)) <$> done.member m) := by
  rw [Fixture.member, map_bind]
  refine yields_member rfl fun name => Or.inr ⟨_, rfl, ?_⟩
  rw [map_bind]
  exact yields_scenario done name m.2

/-- **A document is read to what it means.** -/
theorem yields_document (t : Tree) :
    Place.document.Yields t (t.fixture >>= fun f => .ok (.nothing f)) := by
  cases t with
  | object members =>
    exact yields_object .document Fixture.member (x := ∅) (p := .document) rfl
      fun m (_ : m ∈ members) done => yields_document_member done m
  | _ =>
    rw [Tree.fixture, bind_assoc]
    · exact yields_surface rfl (by intros; exact ⟨_, rfl, rfl⟩) (by nofun)
    · nofun

/-- **A text is loaded as what its tree means**, or refused for the first fault of the tree. -/
theorem load_text {t : Tree} {octets : List UInt8} (h : t.Text octets) :
    load octets = t.fixture := by
  obtain ⟨front, blanks, rfl, hfront, hblanks⟩ := h
  have hdelimits : Delimits blanks := by
    rw [← List.append_nil blanks]
    exact delimits_blanks hblanks trivial
  have hend (f : Fixture) : judge (.after (.nothing f)) blanks = .ok f := by
    rw [← List.append_nil blanks, judge_blanks (idle_after _) hblanks]
    rfl
  have hjudge : start.judge (front ++ blanks) =
      (t.fixture >>= fun f => .ok (.nothing f)) >>= fun a => judge (.after a) blanks :=
    yields_document t start rfl front hfront blanks hdelimits
  change start.judge (front ++ blanks) = _
  rw [hjudge, bind_assoc]
  exact (bind_congr hend).trans (bind_pure _)

end LinearMemory.Fixture
