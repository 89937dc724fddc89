import LinearMemory.Proofs.Fixture.Agreement
import LinearMemory.Proofs.Fixture.Fields
import LinearMemory.Proofs.Json.Acceptance

/-!
# The reader accepts nothing but JSON

A document that loads is a text of some tree: the reader checks all of the grammar on its way, even
in what it skips. Together with `Fixture.load_text` this says which documents load and as what,
`Fixture.load_eq_ok_iff`.

The reader keeps no tree. What it keeps of the grammar are the brackets that are open, and these are
not written down as such: they follow from the frames, `Fixture.Place.stack` and
`Fixture.Around.On`. Whatever happens to the frames, the brackets are what they have to be. So the
octets from a value on can be cut up as in a parser by recursive descent: they start with the
pieces of a tree, and behind these the document goes on with the same brackets open as before
(`Fixture.State.startsTrees`). The induction is on the number of octets that are left.
-/

namespace LinearMemory.Fixture

open Json

/-! ### The brackets that are open -/

/-- The brackets around a field of a scenario, the innermost one first. -/
def OpenScenario.stack (s : OpenScenario) : List Bracket :=
  [s.bracket, .curly]

/-- The brackets around an operation. -/
def OpenOperation.stack (o : OpenOperation) : List Bracket :=
  .square :: o.scenario.stack

/-- The brackets around an untyped value. -/
def Inside.stack : Inside → List Bracket
  | .member o _ _ _ => .curly :: o.stack
  | .element o _ _ => .square :: o.stack
  | .skipped s => s.stack

/-- **The brackets around a place**, the innermost one first. -/
def Place.stack : Place → List Bracket
  | .document => []
  | .scenario _ _ => [.curly]
  | .operations s | .length s | .size s => s.stack
  | .operation o => o.stack
  | .recordKind o _ => .curly :: o.stack
  | .rowKind o => .square :: o.stack
  | .inside i brackets => brackets ++ i.stack

/-- The brackets around a row, without its own. -/
def Row.outer : Row → List Bracket
  | .scenario _ => [.curly]
  | .operations s _ => s.stack
  | .operation o _ => o.stack
  | .nested i brackets => brackets ++ i.stack

/-- The brackets around a record, without its own. -/
def Record.outer : Record → List Bracket
  | .document _ => []
  | .scenario _ => [.curly]
  | .operation o _ _ => o.stack
  | .nested i brackets => brackets ++ i.stack

/-- The scenario of a row is one that has a square bracket. -/
def Row.IsSound : Row → Prop
  | .scenario s => s.bracket = .square
  | _ => True

/-- The scenario of a record is one that has a curly bracket. -/
def Record.IsSound : Record → Prop
  | .scenario s => s.bracket = .curly
  | _ => True

/-- **What a value stands in has these brackets open.** -/
def Around.On (stack : List Bracket) : Around → Prop
  | .row r => r.IsSound ∧ stack = .square :: r.outer
  | .record r => r.IsSound ∧ stack = .curly :: r.outer
  | .nothing _ => stack = []

theorem OpenScenario.resume_on (s : OpenScenario) : s.resume.On s.stack := by
  unfold OpenScenario.resume OpenScenario.stack
  split
  · next h => exact ⟨h, by rw [h]; rfl⟩
  · next h => exact ⟨h, by rw [h]; rfl⟩

theorem Inside.resume_on (i : Inside) (brackets : List Bracket) (v : Value) :
    (i.resume brackets v).On (brackets ++ i.stack) := by
  match brackets, i with
  | .square :: outer, i => exact ⟨trivial, rfl⟩
  | .curly :: outer, i => exact ⟨trivial, rfl⟩
  | [], .member o kind earlier key => exact ⟨trivial, rfl⟩
  | [], .element o kind earlier => exact ⟨trivial, rfl⟩
  | [], .skipped s => exact s.resume_on

/-- **A scalar leaves the brackets open** that are open around it. -/
theorem Place.scalar_on {p : Place} {v : Value} {a : Around} (h : p.scalar v = .ok a) :
    a.On p.stack := by
  cases p with
  | document | scenario | operations | operation => cases h
  | length s =>
    obtain ⟨length, -, heq⟩ := bind_eq_ok_iff.1 h
    obtain rfl := Except.ok.inj heq
    exact OpenScenario.resume_on _
  | size s =>
    obtain ⟨size, -, heq⟩ := bind_eq_ok_iff.1 h
    obtain rfl := Except.ok.inj heq
    exact OpenScenario.resume_on _
  | recordKind o members =>
    obtain ⟨kind, -, heq⟩ := bind_eq_ok_iff.1 h
    obtain rfl := Except.ok.inj heq
    exact ⟨trivial, rfl⟩
  | rowKind o =>
    obtain ⟨kind, -, heq⟩ := bind_eq_ok_iff.1 h
    obtain rfl := Except.ok.inj heq
    exact ⟨trivial, rfl⟩
  | inside i brackets =>
    obtain rfl := Except.ok.inj h
    exact i.resume_on brackets v

theorem Place.literal_on {p : Place} {l : Literal} {a : Around} (h : p.literal l = .ok a) :
    a.On p.stack := by
  unfold Place.literal at h
  split at h
  · exact scalar_on h
  · obtain ⟨s, -, h⟩ := bind_eq_ok_iff.1 h
    exact scalar_on h

theorem Place.numeral_on {p : Place} {n : Numeral} {a : Around} (h : p.numeral n = .ok a) :
    a.On p.stack := by
  unfold Place.numeral at h
  split at h
  · exact scalar_on h
  · obtain ⟨x, -, h⟩ := bind_eq_ok_iff.1 h
    exact scalar_on h

/-- A row opens inside the brackets around it, and its first element inside its own. -/
theorem Place.stack_of_openRow {p first : Place} {r : Row} (h : p.openRow = .ok (r, first)) :
    r.outer = p.stack ∧ first.stack = .square :: r.outer := by
  cases p with
  | document | length | size | recordKind | rowKind => cases h
  | scenario | operations | operation =>
    cases h
    exact ⟨rfl, rfl⟩
  | inside i brackets =>
    simp only [openRow] at h
    split at h
    · cases h
      exact ⟨rfl, rfl⟩
    · cases h

/-- A record opens inside the brackets around it. -/
theorem Place.outer_of_openRecord {p : Place} {r : Record} (h : p.openRecord = .ok r) :
    r.IsSound ∧ r.outer = p.stack := by
  cases p with
  | operations | length | size | recordKind | rowKind => cases h
  | document | operation =>
    cases h
    exact ⟨trivial, rfl⟩
  | scenario earlier name =>
    cases h
    exact ⟨rfl, rfl⟩
  | inside i brackets =>
    simp only [openRecord] at h
    split at h
    · cases h
      exact ⟨trivial, rfl⟩
    · cases h

/-- The next element of a row comes inside its bracket. -/
theorem Row.stack_of_next? {r : Row} {p : Place} (hr : r.IsSound) (h : r.next? = some p) :
    p.stack = .square :: r.outer := by
  cases r with
  | scenario s =>
    have hstack : s.stack = [.square, .curly] := by
      rw [OpenScenario.stack, hr]
    simp only [Row.next?] at h
    split at h <;> cases h <;> exact hstack
  | operations s done =>
    cases h
    rfl
  | operation o read =>
    cases read with
    | none =>
      cases h
      rfl
    | some earlier =>
      cases h
      rfl
  | nested i outer =>
    cases h
    rfl

/-- The value behind a key of a record comes inside its bracket. -/
theorem Record.stack_of_value {r : Record} {key : String} {p : Place} (hr : r.IsSound)
    (h : r.value key = .ok p) : p.stack = .curly :: r.outer := by
  have honce {α : Type} {field : String} {content : Option α} {p' : Place}
      (h : once field content p' = .ok p) : p = p' := by
    unfold once at h
    split at h
    · cases h
    · exact (Except.ok.inj h).symm
  cases r with
  | document done =>
    cases h
    rfl
  | scenario s =>
    have hstack : s.stack = [.curly, .curly] := by
      rw [OpenScenario.stack, hr]
    simp only [Record.value] at h
    split at h
    · rw [honce h]
      exact hstack
    split at h
    · rw [honce h]
      exact hstack
    split at h
    · rw [honce h]
      exact hstack
    · cases h
      exact hstack
  | operation o kind members =>
    simp only [Record.value] at h
    split at h
    · rw [honce h]
      rfl
    · cases h
      rfl
  | nested i outer =>
    cases h
    rfl

theorem Record.stack_of_literal {r : Record} {l : Literal} {p : Place} (hr : r.IsSound)
    (h : r.literal l = .ok p) : p.stack = .curly :: r.outer := by
  unfold Record.literal at h
  split at h
  · exact stack_of_value hr h
  · obtain ⟨key, -, h⟩ := bind_eq_ok_iff.1 h
    exact stack_of_value hr h

/-- **A row that closes leaves the brackets open** that are around it. -/
theorem Row.close_on {r : Row} {a : Around} (h : r.close = .ok a) : a.On r.outer := by
  cases r with
  | scenario s =>
    obtain ⟨scenario, -, heq⟩ := bind_eq_ok_iff.1 h
    obtain rfl := Except.ok.inj heq
    exact ⟨trivial, rfl⟩
  | operations s done =>
    cases h
    exact OpenScenario.resume_on _
  | operation o read =>
    cases read with
    | none => cases h
    | some earlier =>
      obtain ⟨operation, -, heq⟩ := bind_eq_ok_iff.1 h
      obtain rfl := Except.ok.inj heq
      exact ⟨trivial, rfl⟩
  | nested i outer =>
    cases h
    exact i.resume_on outer .array

/-- **A record that closes leaves the brackets open** that are around it. -/
theorem Record.close_on {r : Record} {a : Around} (h : r.close = .ok a) : a.On r.outer := by
  cases r with
  | document done =>
    cases h
    rfl
  | scenario s =>
    obtain ⟨scenario, -, heq⟩ := bind_eq_ok_iff.1 h
    obtain rfl := Except.ok.inj heq
    exact ⟨trivial, rfl⟩
  | operation o kind members =>
    cases kind with
    | none => cases h
    | some kind =>
      obtain ⟨operation, -, heq⟩ := bind_eq_ok_iff.1 h
      obtain rfl := Except.ok.inj heq
      exact ⟨trivial, rfl⟩
  | nested i outer =>
    cases h
    exact i.resume_on outer .object

namespace State

variable {f : Fixture}

/-! ### Octets and tokens -/

/-- **The first octet that is no blank** is read where blanks make no difference. -/
theorem exists_octet {s : State} (hs : s.Idle) (hend : s.finish ≠ .ok f) {octets : List UInt8}
    (h : s.judge octets = .ok f) :
    ∃ blanks b rest t, octets = blanks ++ b :: rest ∧ (∀ c ∈ blanks, isBlank c = true) ∧
      isBlank b = false ∧ s.next b = .ok t ∧ t.judge rest = .ok f := by
  induction octets with
  | nil => exact absurd h hend
  | cons b rest ih =>
    cases hb : isBlank b with
    | false =>
      rw [judge_cons_eq, bind_eq_ok_iff] at h
      obtain ⟨t, hnext, hrest⟩ := h
      exact ⟨[], b, rest, t, rfl, List.forall_mem_nil _, hb, hnext, hrest⟩
    | true =>
      rw [judge_cons (hs b hb)] at h
      obtain ⟨blanks, c, rest', t, rfl, hblanks, hc⟩ := ih h
      exact ⟨b :: blanks, c, rest', t, rfl, List.forall_mem_cons.2 ⟨hb, hblanks⟩, hc⟩

/-- **A word is read to its end.** -/
theorem exists_word {p : Place} {v : Value} {b : UInt8} {behind octets : List UInt8}
    (h : judge (.word p v b behind) octets = .ok f) :
    ∃ rest a, octets = b :: (behind ++ rest) ∧ p.scalar v = .ok a ∧
      judge (.after a) rest = .ok f := by
  induction behind generalizing b octets with
  | nil =>
    cases octets with
    | nil => cases h
    | cons c octets =>
      rw [judge_cons_eq, bind_eq_ok_iff] at h
      obtain ⟨t, hnext, hrest⟩ := h
      simp only [next] at hnext
      split at hnext
      · next hc =>
        obtain ⟨a, ha, heq⟩ := bind_eq_ok_iff.1 hnext
        obtain rfl := Except.ok.inj heq
        exact ⟨octets, a, by rw [hc]; rfl, ha, hrest⟩
      · cases hnext
  | cons d behind ih =>
    cases octets with
    | nil => cases h
    | cons c octets =>
      rw [judge_cons_eq, bind_eq_ok_iff] at h
      obtain ⟨t, hnext, hrest⟩ := h
      simp only [next] at hnext
      split at hnext
      · next hc =>
        obtain rfl := Except.ok.inj hnext
        obtain ⟨rest, a, rfl, ha⟩ := ih hrest
        exact ⟨rest, a, by rw [hc]; rfl, ha⟩
      · cases hnext

/-- A numeral is over only where it may end. -/
theorem isComplete_of_over {n : Numeral} {b : UInt8} (h : n.next b = .over) :
    n.stage.isComplete = true := by
  cases hstage : n.stage with
  | zero | whole | fraction | power => rfl
  | sign | point | powerSign =>
    cases hb : digit? b with
    | none => simp only [Numeral.next, hstage, hb, reduceCtorEq] at h
    | some d => simp only [Numeral.next, hstage, hb, reduceCtorEq] at h
  | mark =>
    cases hb : digit? b with
    | none =>
      simp only [Numeral.next, hstage, hb] at h
      split at h
      · cases h
      split at h <;> cases h
    | some d => simp only [Numeral.next, hstage, hb, reduceCtorEq] at h

/-- **A number is read as far as it goes.** -/
theorem exists_numeral {p : Place} {n : Numeral} {octets : List UInt8}
    (h : judge (.numeral p n) octets = .ok f) :
    ∃ digits rest m a, octets = digits ++ rest ∧ n.Reads digits m ∧ m.stage.isComplete = true ∧
      p.numeral m = .ok a ∧ judge (.after a) rest = .ok f := by
  induction octets generalizing n with
  | nil =>
    change finish (.numeral p n) = .ok f at h
    simp only [finish] at h
    split at h
    · next hcomplete =>
      obtain ⟨a, ha, hend⟩ := bind_eq_ok_iff.1 h
      exact ⟨[], [], n, a, rfl, .nil n, hcomplete, ha, hend⟩
    split at h <;> cases h
  | cons b octets ih =>
    rw [judge_cons_eq, bind_eq_ok_iff] at h
    obtain ⟨t, hnext, hrest⟩ := h
    simp only [next] at hnext
    rcases hb : n.next b with m | _ | _
    · rw [hb] at hnext
      obtain rfl := Except.ok.inj hnext
      obtain ⟨digits, rest, l, a, rfl, hreads, hl⟩ := ih hrest
      exact ⟨b :: digits, rest, l, a, rfl, .cons hb hreads, hl⟩
    · -- the octet is read once more, behind the number
      rw [hb] at hnext
      obtain ⟨a, ha, hfollow⟩ := bind_eq_ok_iff.1 hnext
      refine ⟨[], b :: octets, n, a, rfl, .nil n, isComplete_of_over hb, ha, ?_⟩
      rw [judge_cons (s := .after a) hfollow]
      exact hrest
    · rw [hb] at hnext
      cases hnext

/-- **A literal is read up to the quote** that closes it. -/
theorem exists_quoted {within : Literal → State} {skipped : Bool}
    (hstep : ∀ l b, l.isClosedBy b = false →
      next (within l) b = (l.advance skipped b).mapError .malformed >>= fun m => .ok (within m))
    (hend : ∀ l, (within l).finish ≠ .ok f) {l : Literal} {octets : List UInt8}
    (h : judge (within l) octets = .ok f) :
    ∃ inside rest m, octets = inside ++ octet '"' :: rest ∧
      Literal.Advances (Literal.advance skipped) l inside (.ok m) ∧
      m.isClosedBy (octet '"') = true ∧ judge (within m) (octet '"' :: rest) = .ok f := by
  induction octets generalizing l with
  | nil => exact absurd h (hend l)
  | cons b octets ih =>
    cases hb : l.isClosedBy b with
    | true =>
      have hclosed := hb
      simp only [Literal.isClosedBy, Bool.and_eq_true, decide_eq_true_eq] at hclosed
      rw [hclosed.1] at h hb ⊢
      exact ⟨[], octets, l, rfl, .nil l, hb, h⟩
    | false =>
      rw [judge_cons_eq, bind_eq_ok_iff] at h
      obtain ⟨t, hnext, hrest⟩ := h
      rw [hstep l b hb] at hnext
      cases hm : l.advance skipped b with
      | error cause =>
        rw [hm] at hnext
        cases hnext
      | ok m =>
        rw [hm] at hnext
        obtain rfl := Except.ok.inj hnext
        obtain ⟨inside, rest, m', rfl, hadvances, hm'⟩ := ih hrest
        exact ⟨b :: inside, rest, m', rfl, .cons hb hm hadvances, hm'⟩

/-- **A closing quote is found**, and what stands in front of it is in form. -/
theorem exists_inside (within : Literal → State) {skipped : Bool}
    (hstep : ∀ l b, l.isClosedBy b = false →
      next (within l) b = (l.advance skipped b).mapError .malformed >>= fun m => .ok (within m))
    (hend : ∀ l, (within l).finish ≠ .ok f) {octets : List UInt8}
    (h : judge (within .start) octets = .ok f) :
    ∃ (q : Quoted) (rest : List UInt8) (m : Literal) (t : State),
      octet '"' :: octets = q.octets ++ rest ∧ m.isClosedBy (octet '"') = true ∧
        next (within m) (octet '"') = .ok t ∧ t.judge rest = .ok f := by
  obtain ⟨inside, rest, m, rfl, hadvances, hclosed, hjudge⟩ := exists_quoted hstep hend h
  rw [judge_cons_eq, bind_eq_ok_iff] at hjudge
  obtain ⟨t, hnext, hrest⟩ := hjudge
  have hpending : m.pending = .nothing := by
    simp only [Literal.isClosedBy, Bool.and_eq_true, decide_eq_true_eq] at hclosed
    exact hclosed.2
  refine ⟨⟨inside, Literal.insideForm_of_advances hadvances hpending⟩, rest, m, t, ?_, hclosed,
    hnext, hrest⟩
  rw [Quoted.octets, List.cons_append, List.append_assoc]
  rfl

/-- Behind the comma of a full row nothing is accepted. -/
theorem judge_surplus_ne_ok (octets : List UInt8) : judge .surplus octets ≠ .ok f := by
  intro h
  obtain ⟨_, b, _, t, -, -, hblank, hnext, -⟩ :=
    exists_octet (s := .surplus) (fun c hc => if_pos hc) (by nofun) h
  simp only [next, hblank, Bool.false_eq_true, if_false] at hnext
  split at hnext <;> cases hnext

/-! ### Pieces -/

/-- **Octets start with some pieces**, and behind these the document goes on to be accepted, with
these brackets open. -/
def Leaves (f : Fixture) (octets : List UInt8) (pieces : List (List UInt8))
    (stack : List Bracket) : Prop :=
  ∃ front rest a, octets = front ++ rest ∧ Spaced pieces front ∧ a.On stack ∧
    judge (.after a) rest = .ok f

variable {octets rest : List UInt8} {pieces : List (List UInt8)} {stack : List Bracket}

theorem Leaves.nil {a : Around} (ha : a.On stack) (h : judge (.after a) rest = .ok f) :
    Leaves f rest [] stack :=
  ⟨[], rest, a, rfl, .nil, ha, h⟩

/-- More pieces in front. -/
theorem Leaves.prepend (h : Leaves f rest pieces stack) {earlier : List (List UInt8)}
    {front : List UInt8} (hfront : Spaced earlier front) :
    Leaves f (front ++ rest) (earlier ++ pieces) stack := by
  obtain ⟨front', behind, a, rfl, hfront', ha⟩ := h
  exact ⟨front ++ front', behind, a, (List.append_assoc _ _ _).symm, hfront.append hfront', ha⟩

/-- One more piece in front, with blanks in front of it. -/
theorem Leaves.cons (h : Leaves f rest pieces stack) {blanks : List UInt8}
    (hblanks : ∀ b ∈ blanks, isBlank b = true) (piece : List UInt8) :
    Leaves f (blanks ++ (piece ++ rest)) (piece :: pieces) stack := by
  have hall := h.prepend (.cons hblanks .nil : Spaced [piece] (blanks ++ (piece ++ [])))
  rwa [List.append_nil, List.append_assoc] at hall

/-- Blanks may stand in front of the first piece. -/
theorem spaced_blanks {piece : List UInt8} (h : Spaced (piece :: pieces) octets)
    {blanks : List UInt8} (hblanks : ∀ b ∈ blanks, isBlank b = true) :
    Spaced (piece :: pieces) (blanks ++ octets) := by
  cases h with
  | cons hmore hrest =>
    rw [← List.append_assoc]
    exact .cons (fun b hb => (List.mem_append.1 hb).elim (hblanks b) (hmore b)) hrest

theorem spaced_blanks_tree {t : Tree} (h : Spaced t.pieces octets) {blanks : List UInt8}
    (hblanks : ∀ b ∈ blanks, isBlank b = true) : Spaced t.pieces (blanks ++ octets) := by
  obtain ⟨b, piece, rest, hpieces, -⟩ := t.exists_pieces_eq
  rw [hpieces] at h ⊢
  exact spaced_blanks h hblanks

theorem exists_row_of_on {a : Around} (h : a.On (.square :: stack)) :
    ∃ r, a = .row r ∧ r.IsSound ∧ r.outer = stack := by
  cases a with
  | row r => exact ⟨r, rfl, h.1, (List.cons.inj h.2).2.symm⟩
  | record r => cases h.2
  | nothing => cases h

theorem exists_record_of_on {a : Around} (h : a.On (.curly :: stack)) :
    ∃ r, a = .record r ∧ r.IsSound ∧ r.outer = stack := by
  cases a with
  | row r => cases h.2
  | record r => exact ⟨r, rfl, h.1, (List.cons.inj h.2).2.symm⟩
  | nothing => cases h

/-- **Fewer octets than that start with a tree** wherever one begins. -/
def StartsTrees (f : Fixture) (n : Nat) : Prop :=
  ∀ (p : Place) (b : UInt8) (rest : List UInt8) (s : State), rest.length < n → begin p b = .ok s →
    s.judge rest = .ok f → ∃ t : Tree, Leaves f (b :: rest) t.pieces p.stack

variable {n : Nat}

/-- **Elements behind another one** come up to the bracket of their row. -/
theorem exists_elements (hn : StartsTrees f n) {r : Row} (hr : r.IsSound)
    (hlength : octets.length ≤ n) (h : judge (.after (.row r)) octets = .ok f) :
    ∃ elements : List Tree, Leaves f octets
      (elements.flatMap (fun t => [octet ','] :: t.pieces) ++ [[octet ']']]) r.outer := by
  induction hk : octets.length using Nat.strongRecOn generalizing octets r with
  | ind k ih =>
    obtain ⟨blanks, b, rest, s, rfl, hblanks, hb, hnext, hrest⟩ :=
      exists_octet (idle_after _) (by nofun) h
    simp only [next, follow, hb, Bool.false_eq_true, if_false] at hnext
    split at hnext
    · next hclose =>
      obtain ⟨a, ha, heq⟩ := bind_eq_ok_iff.1 hnext
      obtain rfl := Except.ok.inj heq
      rw [hclose]
      exact ⟨[], (Leaves.nil (Row.close_on ha) hrest).cons hblanks [octet ']']⟩
    split at hnext
    · next p hp =>
      split at hnext
      · next hcomma =>
        obtain rfl := Except.ok.inj hnext
        obtain ⟨more, c, rest', s, rfl, hmore, hc, hnext, hrest'⟩ :=
          exists_octet (idle_of_place rfl) (by nofun) hrest
        simp only [List.length_append, List.length_cons] at hk hlength
        simp only [next, hc, Bool.false_eq_true, if_false] at hnext
        split at hnext
        · cases hnext
        -- the element is a tree, and behind it the row goes on
        obtain ⟨t, front, later, a, heq, hfront, ha, hjudge⟩ :=
          hn p c rest' s (by omega) hnext hrest'
        rw [Row.stack_of_next? hr hp] at ha
        obtain ⟨r', rfl, hr', houter⟩ := exists_row_of_on ha
        have hless : later.length ≤ rest'.length + 1 := by
          rw [← List.length_cons, heq, List.length_append]
          omega
        obtain ⟨elements, helements⟩ := ih later.length (by omega) hr' (by omega) hjudge rfl
        rw [houter] at helements
        have hall := (helements.prepend (spaced_blanks_tree hfront hmore)).cons hblanks [octet ',']
        refine ⟨t :: elements, ?_⟩
        rw [hcomma, heq]
        simpa only [List.flatMap_cons, List.append_assoc, List.cons_append, List.nil_append]
          using hall
      · cases hnext
    · split at hnext
      · obtain rfl := Except.ok.inj hnext
        exact absurd hrest (judge_surplus_ne_ok _)
      · cases hnext

/-- **A key and what stands behind it** are a member. -/
theorem exists_member (hn : StartsTrees f n) {r : Record} (hr : r.IsSound)
    (hlength : octets.length ≤ n) (h : judge (.key r .start) octets = .ok f) :
    ∃ m : Quoted × Tree, Leaves f (octet '"' :: octets) (Tree.piecesOf m) (.curly :: r.outer) := by
  have hstep (l : Literal) (b : UInt8) (hopen : l.isClosedBy b = false) :
      next (.key r l) b = (l.advance r.isSkipped b).mapError .malformed >>= fun m =>
        .ok (.key r m) := by
    simp only [next, hopen]
    rfl
  obtain ⟨q, rest, l, s, hquoted, hclosed, hnext, hrest⟩ :=
    exists_inside (.key r) hstep (by nofun) h
  simp only [next, hclosed, if_true] at hnext
  obtain ⟨p, hp, heq⟩ := bind_eq_ok_iff.1 hnext
  obtain rfl := Except.ok.inj heq
  obtain ⟨blanks, b, rest', s, rfl, hblanks, hb, hnext, hrest'⟩ :=
    exists_octet (idle_colon p) (by nofun) hrest
  simp only [next, hb, Bool.false_eq_true, if_false] at hnext
  split at hnext
  · next hcolon =>
    obtain rfl := Except.ok.inj hnext
    obtain ⟨more, c, rest'', s, rfl, hmore, hc, hnext, hrest''⟩ :=
      exists_octet (idle_of_place rfl) (by nofun) hrest'
    simp only [next, hc, Bool.false_eq_true, if_false] at hnext
    have hless : rest''.length < n := by
      have hall := congrArg List.length hquoted
      simp only [Quoted.octets, List.length_append, List.length_cons] at hall
      omega
    obtain ⟨t, front, later, a, heq, hfront, ha, hjudge⟩ := hn p c rest'' s hless hnext hrest''
    rw [Record.stack_of_literal hr hp] at ha
    have hvalue := (Leaves.nil ha hjudge).prepend (spaced_blanks_tree hfront hmore)
    have hall := (hvalue.cons hblanks [octet ':']).cons (List.forall_mem_nil _) q.octets
    refine ⟨(q, t), ?_⟩
    change Leaves f _ (q.octets :: [octet ':'] :: t.pieces) _
    rw [hquoted, hcolon, heq]
    simpa only [List.append_assoc, List.cons_append, List.nil_append, List.append_nil] using hall
  · cases hnext

/-- **Members behind another one** come up to the bracket of their record. -/
theorem exists_members (hn : StartsTrees f n) {r : Record} (hr : r.IsSound)
    (hlength : octets.length ≤ n) (h : judge (.after (.record r)) octets = .ok f) :
    ∃ members : List (Quoted × Tree), Leaves f octets
      (members.flatMap (fun m => [octet ','] :: Tree.piecesOf m) ++ [[octet '\x7d']]) r.outer := by
  induction hk : octets.length using Nat.strongRecOn generalizing octets r with
  | ind k ih =>
    obtain ⟨blanks, b, rest, s, rfl, hblanks, hb, hnext, hrest⟩ :=
      exists_octet (idle_after _) (by nofun) h
    simp only [next, follow, hb, Bool.false_eq_true, if_false] at hnext
    split at hnext
    · next hclose =>
      obtain ⟨a, ha, heq⟩ := bind_eq_ok_iff.1 hnext
      obtain rfl := Except.ok.inj heq
      rw [hclose]
      exact ⟨[], (Leaves.nil (Record.close_on ha) hrest).cons hblanks [octet '\x7d']⟩
    split at hnext
    · next hcomma =>
      obtain rfl := Except.ok.inj hnext
      have hend : (nextKey r).finish ≠ .ok f := by
        cases hskip : r.isSkipped <;> simp [finish, hskip, truncated]
      obtain ⟨more, c, rest', s, rfl, hmore, hc, hnext, hrest'⟩ :=
        exists_octet (idle_of_keyed rfl) hend hrest
      rw [List.length_append, List.length_cons, List.length_append, List.length_cons] at hk hlength
      simp only [next, hc, Bool.false_eq_true, if_false] at hnext
      split at hnext
      · next hquote =>
        obtain rfl := Except.ok.inj hnext
        -- the member is one, and behind it the record goes on
        obtain ⟨m, front, later, a, heq, hfront, ha, hjudge⟩ :=
          exists_member hn hr (by omega) hrest'
        obtain ⟨r', rfl, hr', houter⟩ := exists_record_of_on ha
        have hless : later.length ≤ rest'.length + 1 := by
          rw [← List.length_cons, heq, List.length_append]
          omega
        obtain ⟨members, hmembers⟩ := ih later.length (by omega) hr' (by omega) hjudge rfl
        rw [houter] at hmembers
        have hall := (hmembers.prepend (spaced_blanks hfront hmore)).cons hblanks [octet ',']
        refine ⟨m :: members, ?_⟩
        rw [hcomma, hquote, heq]
        simpa only [Tree.piecesOf, List.flatMap_cons, List.append_assoc, List.cons_append,
          List.nil_append] using hall
      · split at hnext <;> cases hnext
    · cases hnext

/-- **A square bracket opens an array.** -/
theorem exists_array (hn : StartsTrees f n) {p first : Place} {r : Row}
    (hopen : p.openRow = .ok (r, first)) (hlength : octets.length ≤ n)
    (h : judge (.firstElement r first) octets = .ok f) :
    ∃ elements, Leaves f (octet '[' :: octets) (Tree.array elements).pieces p.stack := by
  obtain ⟨houter, hfirst⟩ := Place.stack_of_openRow hopen
  have hnone : ∀ c ∈ ([] : List UInt8), isBlank c = true := List.forall_mem_nil _
  obtain ⟨blanks, b, rest, s, rfl, hblanks, hb, hnext, hrest⟩ :=
    exists_octet (idle_of_place rfl) (by nofun) h
  simp only [next, hb, Bool.false_eq_true, if_false] at hnext
  rw [← houter]
  split at hnext
  · next hclose =>
    obtain ⟨a, ha, heq⟩ := bind_eq_ok_iff.1 hnext
    obtain rfl := Except.ok.inj heq
    rw [hclose]
    exact ⟨[], ((Leaves.nil (Row.close_on ha) hrest).cons hblanks [octet ']']).cons hnone
      [octet '[']⟩
  · rw [List.length_append, List.length_cons] at hlength
    obtain ⟨t, front, later, a, heq, hfront, ha, hjudge⟩ := hn first b rest s (by omega) hnext hrest
    rw [hfirst] at ha
    obtain ⟨r', rfl, hr', houter'⟩ := exists_row_of_on ha
    have hless : later.length ≤ rest.length + 1 := by
      rw [← List.length_cons, heq, List.length_append]
      omega
    obtain ⟨elements, helements⟩ := exists_elements hn hr' (by omega) hjudge
    rw [houter'] at helements
    have hall := (helements.prepend (spaced_blanks_tree hfront hblanks)).cons hnone [octet '[']
    refine ⟨t :: elements, ?_⟩
    rw [Tree.pieces, Tree.elementPieces_eq_map, List.map_cons, separated, List.flatMap_map, heq]
    simpa only [List.append_assoc, List.cons_append, List.nil_append] using hall

/-- **A curly bracket opens an object.** -/
theorem exists_object (hn : StartsTrees f n) {p : Place} {r : Record}
    (hopen : p.openRecord = .ok r) (hlength : octets.length ≤ n)
    (h : judge (.firstKey r) octets = .ok f) :
    ∃ members, Leaves f (octet '\x7b' :: octets) (Tree.object members).pieces p.stack := by
  obtain ⟨hr, houter⟩ := Place.outer_of_openRecord hopen
  have hnone : ∀ c ∈ ([] : List UInt8), isBlank c = true := List.forall_mem_nil _
  obtain ⟨blanks, b, rest, s, rfl, hblanks, hb, hnext, hrest⟩ :=
    exists_octet (idle_of_keyed rfl) (by nofun) h
  simp only [next, hb, Bool.false_eq_true, if_false] at hnext
  rw [← houter]
  split at hnext
  · next hquote =>
    obtain rfl := Except.ok.inj hnext
    rw [List.length_append, List.length_cons] at hlength
    obtain ⟨m, front, later, a, heq, hfront, ha, hjudge⟩ := exists_member hn hr (by omega) hrest
    obtain ⟨r', rfl, hr', houter'⟩ := exists_record_of_on ha
    have hless : later.length ≤ rest.length + 1 := by
      rw [← List.length_cons, heq, List.length_append]
      omega
    obtain ⟨members, hmembers⟩ := exists_members hn hr' (by omega) hjudge
    rw [houter'] at hmembers
    have hall := (hmembers.prepend (spaced_blanks hfront hblanks)).cons hnone [octet '\x7b']
    refine ⟨m :: members, ?_⟩
    rw [Tree.pieces, Tree.memberPieces_eq_map, List.map_cons, separated, List.flatMap_map, hquote,
      heq]
    simpa only [Tree.piecesOf, List.append_assoc, List.cons_append, List.nil_append] using hall
  split at hnext
  · next hclose =>
    obtain ⟨a, ha, heq⟩ := bind_eq_ok_iff.1 hnext
    obtain rfl := Except.ok.inj heq
    rw [hclose]
    exact ⟨[], ((Leaves.nil (Record.close_on ha) hrest).cons hblanks [octet '\x7d']).cons hnone
      [octet '\x7b']⟩
  · cases hnext

/-- **Where a value begins, the octets start with a tree.** -/
theorem startsTrees (f : Fixture) (n : Nat) : StartsTrees f n := by
  -- what is inside brackets has fewer octets than what starts with the opening one
  induction n with
  | zero => exact fun _ _ _ _ hless => absurd hless (Nat.not_lt_zero _)
  | succ n hn =>
    intro p b rest s hless hbegin h
    have hlength : rest.length ≤ n := Nat.le_of_lt_succ hless
    have hnone : ∀ c ∈ ([] : List UInt8), isBlank c = true := List.forall_mem_nil _
    unfold begin at hbegin
    split at hbegin
    · next hquote =>
      obtain rfl := Except.ok.inj hbegin
      have hstep (l : Literal) (b : UInt8) (hopen : l.isClosedBy b = false) :
          next (.literal p l) b = (l.advance p.isSkipped b).mapError .malformed >>= fun m =>
            .ok (.literal p m) := by
        simp only [next, hopen]
        rfl
      obtain ⟨q, rest', l, s, hquoted, hclosed, hnext, hrest⟩ :=
        exists_inside (.literal p) hstep (by nofun) h
      simp only [next, hclosed, if_true] at hnext
      obtain ⟨a, ha, heq⟩ := bind_eq_ok_iff.1 hnext
      obtain rfl := Except.ok.inj heq
      rw [hquote, hquoted]
      exact ⟨.text q, (Leaves.nil (Place.literal_on ha) hrest).cons hnone q.octets⟩
    split at hbegin
    · next hbracket =>
      obtain ⟨⟨r, first⟩, hopen, heq⟩ := bind_eq_ok_iff.1 hbegin
      obtain rfl := Except.ok.inj heq
      obtain ⟨elements, helements⟩ := exists_array hn hopen hlength h
      exact ⟨.array elements, hbracket ▸ helements⟩
    split at hbegin
    · next hbracket =>
      obtain ⟨r, hopen, heq⟩ := bind_eq_ok_iff.1 hbegin
      obtain rfl := Except.ok.inj heq
      obtain ⟨members, hmembers⟩ := exists_object hn hopen hlength h
      exact ⟨.object members, hbracket ▸ hmembers⟩
    split at hbegin
    · next hword =>
      obtain rfl := Except.ok.inj hbegin
      obtain ⟨rest', a, rfl, ha, hjudge⟩ := exists_word h
      rw [hword]
      exact ⟨.boolean true, (Leaves.nil (Place.scalar_on ha) hjudge).cons hnone
        (Token.ascii ['t', 'r', 'u', 'e'])⟩
    split at hbegin
    · next hword =>
      obtain rfl := Except.ok.inj hbegin
      obtain ⟨rest', a, rfl, ha, hjudge⟩ := exists_word h
      rw [hword]
      exact ⟨.boolean false, (Leaves.nil (Place.scalar_on ha) hjudge).cons hnone
        (Token.ascii ['f', 'a', 'l', 's', 'e'])⟩
    split at hbegin
    · next hword =>
      obtain rfl := Except.ok.inj hbegin
      obtain ⟨rest', a, rfl, ha, hjudge⟩ := exists_word h
      rw [hword]
      exact ⟨.null, (Leaves.nil (Place.scalar_on ha) hjudge).cons hnone
        (Token.ascii ['n', 'u', 'l', 'l'])⟩
    split at hbegin
    · next m hstart =>
      obtain rfl := Except.ok.inj hbegin
      obtain ⟨digits, rest', l, a, rfl, hreads, hcomplete, ha, hjudge⟩ := exists_numeral h
      exact ⟨.number ⟨b :: digits, Numeral.numberForm_of_reads hstart hreads hcomplete⟩,
        (Leaves.nil (Place.numeral_on ha) hjudge).cons hnone (b :: digits)⟩
    · cases hbegin

/-- Behind a whole document there are blanks and nothing else. -/
theorem isBlank_of_judge_nothing {done : Fixture}
    (h : judge (.after (.nothing done)) octets = .ok f) : ∀ b ∈ octets, isBlank b = true := by
  induction octets with
  | nil => exact List.forall_mem_nil _
  | cons b octets ih =>
    rw [judge_cons_eq, bind_eq_ok_iff] at h
    obtain ⟨s, hnext, hrest⟩ := h
    simp only [next, follow] at hnext
    split at hnext
    · next hb =>
      obtain rfl := Except.ok.inj hnext
      exact List.forall_mem_cons.2 ⟨hb, ih hrest⟩
    · cases hnext

end State

/-! ### Documents -/

/-- **A document that loads is a text of a tree.** -/
theorem exists_text_of_load {octets : List UInt8} {f : Fixture} (h : load octets = .ok f) :
    ∃ t : Tree, t.Text octets := by
  obtain ⟨blanks, b, rest, s, rfl, hblanks, hb, hnext, hrest⟩ :=
    State.exists_octet (s := .start) (State.idle_of_place rfl) (by nofun) h
  simp only [State.next, State.start, hb, Bool.false_eq_true, if_false] at hnext
  obtain ⟨t, front, later, a, heq, hfront, ha, hjudge⟩ :=
    State.startsTrees f (rest.length + 1) .document b rest s (Nat.lt_succ_self _) hnext hrest
  cases a with
  | row r => cases ha.2
  | record r => cases ha.2
  | nothing done =>
    refine ⟨t, blanks ++ front, later, ?_, State.spaced_blanks_tree hfront hblanks,
      State.isBlank_of_judge_nothing hjudge⟩
    rw [heq, List.append_assoc]

/-- **The documents that load** are the texts of the trees that mean a fixture. -/
theorem load_eq_ok_iff {octets : List UInt8} {f : Fixture} :
    load octets = .ok f ↔ ∃ t : Tree, t.Text octets ∧ t.fixture = .ok f := by
  constructor
  · intro h
    obtain ⟨t, ht⟩ := exists_text_of_load h
    exact ⟨t, ht, (load_text ht).symm.trans h⟩
  · rintro ⟨t, ht, hf⟩
    exact (load_text ht).trans hf

end LinearMemory.Fixture
