import LinearMemory.Proofs.Fixture.Lexing
import LinearMemory.Proofs.Fixture.Meaning

/-!
# Judging the parts of a document

`LinearMemory.Proofs.Fixture.Lexing` follows a document that is in order. This module follows any
document up to its first fault. The pieces of a tree `Yield` an outcome where some state waits for
them: the rest of the text is judged from behind the value, or not at all if the value has a fault.

There is one law for each kind of tree. A scalar goes to its place (`Fixture.State.yields_surface`,
`Fixture.State.yields_text_skipped`). An open bracket is a `Fixture.State.Series`: parts come one
after the other, each of them changes what is kept, a comma leads to the next one and the closing
bracket to the outcome. What holds of each part holds of all of them by one induction,
`Fixture.State.Series.judge_items`, and with the brackets around them it is
`Fixture.State.yields_array` and `Fixture.State.yields_object`.
-/

namespace LinearMemory.Fixture

open Json

namespace State

/-! ### Waiting for pieces -/

theorem judge_cons_of_error {s : State} {b : UInt8} {fault : Fault} (h : s.next b = .error fault)
    (rest : List UInt8) : s.judge (b :: rest) = .error fault := by
  rw [judge_cons_eq, h]
  rfl

theorem idle_surplus : Idle .surplus :=
  fun _ hb => if_pos hb

/-- The blanks in front of a piece are passed over. -/
theorem exists_judge_piece {s : State} (hs : s.Idle) {piece : List UInt8}
    {pieces : List (List UInt8)} {octets : List UInt8} (h : Spaced (piece :: pieces) octets) :
    ∃ behind, Spaced pieces behind ∧
      ∀ rest, s.judge (octets ++ rest) = s.judge (piece ++ (behind ++ rest)) := by
  obtain _ | ⟨hblanks, hrest⟩ := h
  refine ⟨_, hrest, fun rest => ?_⟩
  rw [List.append_assoc, List.append_assoc, judge_blanks hs hblanks]

/-- The same of the last piece. -/
theorem judge_last_piece {s : State} (hs : s.Idle) {piece octets : List UInt8}
    (h : Spaced [piece] octets) (rest : List UInt8) :
    s.judge (octets ++ rest) = s.judge (piece ++ rest) := by
  obtain ⟨behind, hnil, hjudge⟩ := exists_judge_piece hs h
  cases hnil
  rw [hjudge, List.nil_append]

/-- **Pieces yield an outcome** where a state waits for them: as soon as something ends them, the
rest of the text is judged from behind the outcome. -/
def Yields (waits : State → Prop) (pieces : List (List UInt8)) (outcome : Except Fault Around) :
    Prop :=
  ∀ s, waits s → ∀ octets, Spaced pieces octets → ∀ rest, Delimits rest →
    s.judge (octets ++ rest) = outcome >>= fun a => judge (.after a) rest

end State

/-- **A tree yields an outcome** at a place. -/
def Place.Yields (p : Place) (t : Tree) (outcome : Except Fault Around) : Prop :=
  State.Yields (fun s => s.place? = some p) t.pieces outcome

/-- **A member yields an outcome** in a record. -/
def Record.Yields (r : Record) (m : Quoted × Tree) (outcome : Except Fault Around) : Prop :=
  State.Yields (fun s => s.keyed? = some r) (Tree.piecesOf m) outcome

/-- A state waits for the next element of a row, if only to find that there is none. -/
def Row.Awaits (r : Row) (s : State) : Prop :=
  match r.next? with
  | some p => s.place? = some p
  | none => s = .surplus

/-- **An element yields an outcome** in a row. -/
def Row.Yields (r : Row) (t : Tree) (outcome : Except Fault Around) : Prop :=
  State.Yields r.Awaits t.pieces outcome

namespace State

/-! ### Scalars -/

/-- A single piece yields what it leads to from its first octet on. -/
theorem yields_piece {p : Place} {piece : List UInt8} {outcome : Except Fault Around}
    (h : ∀ s : State, s.place? = some p → ∀ rest, Delimits rest →
      s.judge (piece ++ rest) = outcome >>= fun a => judge (.after a) rest) :
    Yields (fun s => s.place? = some p) [piece] outcome := by
  intro s hs octets hoctets rest hrest
  rw [judge_last_piece (idle_of_place hs) hoctets]
  exact h s hs rest hrest

theorem yields_null (p : Place) : p.Yields .null (p.scalar .null) :=
  yields_piece fun _ hs rest _ =>
    (judge_cons ((next_of_place hs rfl (by decide)).trans rfl) _).trans
      (judge_word p .null (octet 'u') [octet 'l', octet 'l'] rest)

theorem yields_boolean (p : Place) (b : Bool) : p.Yields (.boolean b) (p.scalar (.boolean b)) := by
  cases b with
  | true =>
    exact yields_piece fun _ hs rest _ =>
      (judge_cons ((next_of_place hs rfl (by decide)).trans rfl) _).trans
        (judge_word p (.boolean true) (octet 'r') [octet 'u', octet 'e'] rest)
  | false =>
    exact yields_piece fun _ hs rest _ =>
      (judge_cons ((next_of_place hs rfl (by decide)).trans rfl) _).trans
        (judge_word p (.boolean false) (octet 'a') [octet 'l', octet 's', octet 'e'] rest)

theorem yields_number (p : Place) (n : NumberText) :
    ∃ m : Numeral, m.value = n.value ∧ p.Yields (.number n) (p.numeral m) := by
  obtain ⟨b, digits, first, m, hoctets, hstart, hreads, hcomplete, hvalue⟩ := n.reads
  refine ⟨m, hvalue.symm, yields_piece fun s hs rest hrest => ?_⟩
  rw [hoctets, List.cons_append, judge_cons (next_digit_of_place hs hstart), judge_numeral hreads,
    judge_numeral_complete hcomplete hrest]

theorem next_literal_of_skipped {p : Place} (hskip : p.isSkipped = true) (l : Literal) (b : UInt8)
    (hopen : l.isClosedBy b = false) :
    next (.literal p l) b = (l.skip b).mapError .malformed >>= fun m => .ok (.literal p m) := by
  simp only [next, hopen, hskip, Bool.false_eq_true, if_false, if_true]
  rfl

theorem next_key_of_skipped {r : Record} (hskip : r.isSkipped = true) (l : Literal) (b : UInt8)
    (hopen : l.isClosedBy b = false) :
    next (.key r l) b = (l.skip b).mapError .malformed >>= fun m => .ok (.key r m) := by
  simp only [next, hopen, hskip, Bool.false_eq_true, if_false, if_true]
  rfl

/-- **A literal is read to its text or to its first fault.** -/
theorem judge_quoted {within : Literal → State} {f : String → Except Fault State}
    (hstep : ∀ l b, l.isClosedBy b = false →
      next (within l) b = (l.next b).mapError .malformed >>= fun m => .ok (within m))
    (hclose : ∀ l : Literal, l.isClosedBy (octet '"') = true →
      next (within l) (octet '"') = l.text.mapError .malformed >>= f)
    (q : Quoted) (rest : List UInt8) :
    judge (within .start) (q.inside ++ octet '"' :: rest) =
      q.name >>= fun s => f s >>= fun t => t.judge rest := by
  obtain ⟨outcome, hadvances, hsettled⟩ :=
    Literal.exists_advances_next (l := .start) q.isInside (Or.inl rfl)
  rw [judge_advances hstep hadvances, Quoted.name, Quoted.text, hadvances.foldlM_eq]
  cases outcome with
  | error cause => rfl
  | ok l =>
    change judge (within l) (octet '"' :: rest) =
      (if l.pending = .nothing then l.text else .error .unfinishedSurrogate).mapError .malformed >>=
        fun s => f s >>= fun t => t.judge rest
    rcases hsettled l rfl with hpending | ⟨first, hpending⟩
    · have hclosed : l.isClosedBy (octet '"') = true := by
        simp only [Literal.isClosedBy, hpending, decide_true, Bool.and_self]
      rw [if_pos hpending, judge_cons_eq, hclose l hclosed, bind_assoc]
    · -- the quote comes where the other half of a pair should
      have hopen : l.isClosedBy (octet '"') = false := by
        simp only [Literal.isClosedBy, hpending, reduceCtorEq, decide_false, Bool.and_false]
      have hnot : l.pending ≠ .nothing := by
        rw [hpending]
        exact Literal.Pending.noConfusion
      have hnext : l.next (octet '"') = .error .unfinishedSurrogate := by
        simp only [Literal.next, hpending]
        rfl
      rw [if_neg hnot, judge_cons_eq, hstep l _ hopen, hnext]
      rfl

/-- **A literal that is skipped** leads on from its closing quote. -/
theorem judge_quoted_skipped {within : Literal → State} {t : Except Fault State}
    (hstep : ∀ l b, l.isClosedBy b = false →
      next (within l) b = (l.skip b).mapError .malformed >>= fun m => .ok (within m))
    (hclose : ∀ l : Literal, l.isClosedBy (octet '"') = true → next (within l) (octet '"') = t)
    (q : Quoted) (rest : List UInt8) :
    judge (within .start) (q.inside ++ octet '"' :: rest) = t >>= fun t => t.judge rest := by
  obtain ⟨l, hadvances, hpending⟩ := Literal.exists_advances_skip (l := .start) q.isInside rfl
  have hclosed : l.isClosedBy (octet '"') = true := by
    simp only [Literal.isClosedBy, hpending, decide_true, Bool.and_self]
  rw [judge_advances hstep hadvances, ← hclose l hclosed, ← judge_cons_eq]
  rfl

/-- A text goes to its place. -/
theorem yields_text {p : Place} (hread : p.isSkipped = false) (q : Quoted) :
    p.Yields (.text q) (q.name >>= fun s => p.scalar (.text s)) := by
  have hclose (l : Literal) (hl : l.isClosedBy (octet '"') = true) :
      next (.literal p l) (octet '"') =
        l.text.mapError .malformed >>= fun s => p.scalar (.text s) >>= fun a => .ok (.after a) := by
    simp only [next, hl, if_true, Place.literal, hread, Bool.false_eq_true, if_false, bind_assoc]
    rfl
  refine yields_piece fun s hs rest _ => ?_
  have hbegin : s.next (octet '"') = .ok (.literal p .start) :=
    (next_of_place hs rfl (by decide)).trans rfl
  rw [Quoted.octets, List.cons_append, List.append_assoc, judge_cons hbegin, List.singleton_append,
    judge_quoted (next_literal_of_read hread) hclose, bind_assoc]
  simp only [bind_assoc]
  rfl

/-- A text that is skipped counts as a null. -/
theorem yields_text_skipped {p : Place} (hskip : p.isSkipped = true) (q : Quoted) :
    p.Yields (.text q) (p.scalar .null) := by
  have hclose (l : Literal) (hl : l.isClosedBy (octet '"') = true) :
      next (.literal p l) (octet '"') = p.scalar .null >>= fun a => .ok (.after a) := by
    simp only [next, hl, if_true, Place.literal, hskip]
    rfl
  refine yields_piece fun s hs rest _ => ?_
  have hbegin : s.next (octet '"') = .ok (.literal p .start) :=
    (next_of_place hs rfl (by decide)).trans rfl
  rw [Quoted.octets, List.cons_append, List.append_assoc, judge_cons hbegin, List.singleton_append,
    judge_quoted_skipped (next_literal_of_skipped hskip) hclose, bind_assoc]
  rfl

/-- Where no square bracket may open, an array is refused at its own. -/
theorem yields_array_of_error {p : Place} {fault : Fault} (h : p.openRow = .error fault)
    (elements : List Tree) : p.Yields (.array elements) (.error fault) := by
  intro s hs octets hoctets rest _
  obtain ⟨behind, -, hjudge⟩ := exists_judge_piece (idle_of_place hs) hoctets
  have hnext : s.next (octet '[') = .error fault := by
    have hbegin : begin p (octet '[')
        = p.openRow >>= fun opened => .ok (.firstElement opened.1 opened.2) := rfl
    rw [next_of_place hs rfl (by decide), hbegin, h]
    rfl
  rw [hjudge, List.singleton_append, judge_cons_of_error hnext]
  rfl

/-- Where no curly bracket may open, an object is refused at its own. -/
theorem yields_object_of_error {p : Place} {fault : Fault} (h : p.openRecord = .error fault)
    (members : List (Quoted × Tree)) : p.Yields (.object members) (.error fault) := by
  intro s hs octets hoctets rest _
  obtain ⟨behind, -, hjudge⟩ := exists_judge_piece (idle_of_place hs) hoctets
  have hnext : s.next (octet '\x7b') = .error fault := by
    have hbegin : begin p (octet '\x7b') = p.openRecord >>= fun r => .ok (.firstKey r) := rfl
    rw [next_of_place hs rfl (by decide), hbegin, h]
    rfl
  rw [hjudge, List.singleton_append, judge_cons_of_error hnext]
  rfl

/-- **A tree of which only the surface counts** goes to its place: a scalar, or a bracket that is
refused there. -/
theorem yields_surface {p : Place} (hread : p.isSkipped = false) {t : Tree}
    (harray : ∀ elements, t = .array elements →
      ∃ fault, p.openRow = .error fault ∧ p.scalar .array = .error fault)
    (hobject : ∀ members, t = .object members →
      ∃ fault, p.openRecord = .error fault ∧ p.scalar .object = .error fault) :
    p.Yields t (t.surface >>= p.scalar) := by
  cases t with
  | null => exact yields_null p
  | boolean b => exact yields_boolean p b
  | number n =>
    obtain ⟨m, hvalue, hyields⟩ := yields_number p n
    rw [Place.numeral, hread, hvalue] at hyields
    rw [Tree.surface, bind_assoc]
    exact hyields
  | text q =>
    rw [Tree.surface, bind_assoc]
    exact yields_text hread q
  | array elements =>
    obtain ⟨fault, hopen, hscalar⟩ := harray elements rfl
    have hsurface : ((Tree.array elements).surface >>= p.scalar) = .error fault := hscalar
    rw [hsurface]
    exact yields_array_of_error hopen elements
  | object members =>
    obtain ⟨fault, hopen, hscalar⟩ := hobject members rfl
    have hsurface : ((Tree.object members).surface >>= p.scalar) = .error fault := hscalar
    rw [hsurface]
    exact yields_object_of_error hopen members

/-! ### Series of parts -/

/-- **A bracket that is open** and whose parts come one after the other, given what is kept of the
parts so far. -/
structure Series (σ : Type) where
  /-- What a part stands in. -/
  around : σ → Around
  /-- The states that wait for one more part. -/
  waits : σ → State → Prop
  /-- The closing bracket. -/
  closer : UInt8
  /-- What the bracket closes to. -/
  close : σ → Except Fault Around
  ends : Numeral.Ends closer
  next_comma : ∀ x, ∃ s, next (.after (around x)) (octet ',') = .ok s ∧ waits x s
  next_closer : ∀ x, next (.after (around x)) closer = close x >>= fun a => .ok (.after a)

namespace Series

variable {σ α : Type} {item : α → List (List UInt8)}

/-- A comma or the end of the parts ends a number. -/
theorem delimits_items {parts : List α} {octets rest : List UInt8}
    (h : Spaced (parts.flatMap fun a => [octet ','] :: item a) octets) (hrest : Delimits rest) :
    Delimits (octets ++ rest) := by
  cases parts with
  | nil =>
    cases h
    exact hrest
  | cons a parts =>
    rw [List.flatMap_cons, List.cons_append] at h
    obtain _ | ⟨hblanks, -⟩ := h
    rw [List.append_assoc]
    exact delimits_blanks hblanks (by decide : Numeral.Ends (octet ','))

variable (b : Series σ) {step : σ → α → Except Fault σ} {parts : List α}

/-- **Parts behind others** are taken one by one, each behind its comma. -/
theorem judge_items
    (hpart : ∀ a ∈ parts, ∀ x, Yields (b.waits x) (item a) (b.around <$> step x a))
    {octets : List UInt8} (h : Spaced (parts.flatMap fun a => [octet ','] :: item a) octets)
    {rest : List UInt8} (hrest : Delimits rest) (x : σ) :
    judge (.after (b.around x)) (octets ++ rest) =
      parts.foldlM step x >>= fun y => judge (.after (b.around y)) rest := by
  induction parts generalizing octets x with
  | nil =>
    cases h
    rfl
  | cons a parts ih =>
    rw [List.flatMap_cons, List.cons_append] at h
    obtain ⟨behind, hbehind, hjudge⟩ := exists_judge_piece (idle_after _) h
    obtain ⟨front, later, rfl, hfront, hlater⟩ := hbehind.exists_of_append
    obtain ⟨s, hcomma, hwaits⟩ := b.next_comma x
    have hpart' := hpart a List.mem_cons_self x s hwaits front hfront (later ++ rest)
      (delimits_items hlater hrest)
    have hothers : ∀ a ∈ parts, ∀ x, Yields (b.waits x) (item a) (b.around <$> step x a) :=
      fun a ha => hpart a (List.mem_cons_of_mem _ ha)
    rw [hjudge, List.singleton_append, judge_cons hcomma, List.append_assoc, hpart',
      List.foldlM_cons, bind_map_left, bind_assoc]
    exact bind_congr fun y => ih hothers hlater y

/-- **Parts behind the opening bracket** are taken one by one, the first of them without a comma. -/
theorem judge_parts {a : α}
    (hpart : ∀ a' ∈ a :: parts, ∀ x, Yields (b.waits x) (item a') (b.around <$> step x a'))
    {octets : List UInt8} (h : Spaced (separated ((a :: parts).map item)) octets)
    {rest : List UInt8} (hrest : Delimits rest) {x : σ} {s : State} (hs : b.waits x s) :
    s.judge (octets ++ rest) =
      (a :: parts).foldlM step x >>= fun y => judge (.after (b.around y)) rest := by
  rw [List.map_cons, separated, List.flatMap_map] at h
  obtain ⟨front, later, rfl, hfront, hlater⟩ := h.exists_of_append
  have hfirst := hpart a List.mem_cons_self x s hs front hfront (later ++ rest)
    (delimits_items hlater hrest)
  rw [List.append_assoc, hfirst, List.foldlM_cons, bind_map_left, bind_assoc]
  exact bind_congr fun y =>
    b.judge_items (fun a' ha' => hpart a' (List.mem_cons_of_mem _ ha')) hlater hrest y

/-- **All parts and the closing bracket**, behind the opening one. -/
theorem judge_closed
    (hpart : ∀ a ∈ parts, ∀ x, Yields (b.waits x) (item a) (b.around <$> step x a))
    {octets : List UInt8} (h : Spaced (separated (parts.map item) ++ [[b.closer]]) octets)
    (rest : List UInt8) {x : σ} {s : State} (hs : b.waits x s) (hidle : s.Idle)
    (hempty : s.next b.closer = b.close x >>= fun a => .ok (.after a)) :
    s.judge (octets ++ rest) =
      parts.foldlM step x >>= b.close >>= fun a => judge (.after a) rest := by
  obtain ⟨front, later, rfl, hfront, hlater⟩ := h.exists_of_append
  cases parts with
  | nil =>
    cases hfront
    rw [List.nil_append, judge_last_piece hidle hlater, List.singleton_append, judge_cons_eq,
      hempty, bind_assoc]
    rfl
  | cons a parts =>
    have hdelimits : Delimits (later ++ rest) := by
      obtain _ | ⟨hblanks, -⟩ := hlater
      rw [List.append_assoc]
      exact delimits_blanks hblanks b.ends
    rw [List.append_assoc, b.judge_parts hpart hfront hdelimits hs, bind_assoc]
    refine bind_congr fun y => ?_
    rw [judge_last_piece (idle_after _) hlater, List.singleton_append, judge_cons_eq,
      b.next_closer, bind_assoc]
    rfl

/-- The elements of a row. -/
def ofRow (row : σ → Row) : Series σ where
  around x := .row (row x)
  waits x := (row x).Awaits
  closer := octet ']'
  close x := (row x).close
  ends := by decide
  next_comma x := by
    cases hnext : (row x).next? with
    | some p =>
      refine ⟨_, next_comma_of_next? hnext, ?_⟩
      simp only [Row.Awaits, hnext, place?]
    | none =>
      refine ⟨.surplus, ?_, ?_⟩
      · have hblank : isBlank (octet ',') = false := rfl
        have hclose : octet ',' ≠ octet ']' := by decide
        simp only [next, follow, hblank, hclose, hnext, Bool.false_eq_true, if_false, if_true]
      · simp only [Row.Awaits, hnext]
  next_closer _ := rfl

/-- The members of a record. -/
def ofRecord (record : σ → Record) : Series σ where
  around x := .record (record x)
  waits x := fun s => s.keyed? = some (record x)
  closer := octet '\x7d'
  close x := (record x).close
  ends := by decide
  next_comma _ := ⟨_, rfl, rfl⟩
  next_closer _ := rfl

end Series

/-! ### Arrays -/

/-- An element yields what its place does, if there is one. -/
theorem yields_element {r : Row} {p : Place} (hp : r.next? = some p) {t : Tree}
    {outcome : Except Fault Around} (h : p.Yields t outcome) : r.Yields t outcome := by
  intro s hs
  rw [Row.Awaits, hp] at hs
  exact h s hs

/-- An element too many is refused at its first octet. -/
theorem yields_surplus {r : Row} (hr : r.next? = none) (t : Tree) :
    r.Yields t (.error (.malformed .trailingCharacters)) := by
  intro s hs octets hoctets rest _
  rw [Row.Awaits, hr] at hs
  subst hs
  obtain ⟨b, piece, pieces, hpieces, hblank, hclose⟩ := t.exists_pieces_eq
  rw [hpieces] at hoctets
  obtain ⟨behind, -, hjudge⟩ := exists_judge_piece idle_surplus hoctets
  have hnext : next .surplus b = .error (.malformed .trailingCharacters) := by
    simp only [next, hblank, hclose, Bool.false_eq_true, if_false]
    rfl
  rw [hjudge, List.cons_append, judge_cons_of_error hnext]
  rfl

/-- **An array yields what its row closes to**, once the elements were taken one by one. -/
theorem yields_array {σ : Type} (row : σ → Row) (step : σ → Tree → Except Fault σ) {x : σ}
    {p first : Place} {elements : List Tree} (hopen : p.openRow = .ok (row x, first))
    (hfirst : (row x).next? = some first)
    (hstep : ∀ t ∈ elements, ∀ x, (row x).Yields t ((fun y => .row (row y)) <$> step x t)) :
    p.Yields (.array elements) (elements.foldlM step x >>= fun y => (row y).close) := by
  intro s hs octets hoctets rest _
  rw [Tree.pieces, Tree.elementPieces_eq_map] at hoctets
  obtain ⟨behind, hbehind, hjudge⟩ := exists_judge_piece (idle_of_place hs) hoctets
  have hwaits : (row x).Awaits (.firstElement (row x) first) := by
    simp only [Row.Awaits, hfirst, place?]
  rw [hjudge, List.singleton_append, judge_cons (next_openBracket_of_place hs hopen)]
  exact (Series.ofRow row).judge_closed hstep hbehind rest hwaits (idle_of_place rfl) rfl

/-! ### Objects -/

/-- What a key that is read leads to. -/
theorem judge_key_read {s : State} {r : Record} (hs : s.keyed? = some r)
    (hread : r.isSkipped = false) (q : Quoted) (rest : List UInt8) :
    s.judge (q.octets ++ rest) =
      q.name >>= fun name => r.value name >>= fun p => judge (.colon p) rest := by
  have hclose (l : Literal) (hl : l.isClosedBy (octet '"') = true) :
      next (.key r l) (octet '"') =
        l.text.mapError .malformed >>= fun name => r.value name >>= fun p => .ok (.colon p) := by
    simp only [next, hl, if_true, Record.literal, hread, Bool.false_eq_true, if_false, bind_assoc]
    rfl
  rw [Quoted.octets, List.cons_append, List.append_assoc, judge_cons (next_quote_of_keyed hs),
    List.singleton_append, judge_quoted (next_key_of_read hread) hclose]
  simp only [bind_assoc]
  rfl

/-- What a key that is skipped leads to. -/
theorem judge_key_skipped {s : State} {r : Record} (hs : s.keyed? = some r)
    (hskip : r.isSkipped = true) (q : Quoted) (rest : List UInt8) :
    s.judge (q.octets ++ rest) = r.value "" >>= fun p => judge (.colon p) rest := by
  have hclose (l : Literal) (hl : l.isClosedBy (octet '"') = true) :
      next (.key r l) (octet '"') = r.value "" >>= fun p => .ok (.colon p) := by
    simp only [next, hl, if_true, Record.literal, hskip]
    rfl
  rw [Quoted.octets, List.cons_append, List.append_assoc, judge_cons (next_quote_of_keyed hs),
    List.singleton_append, judge_quoted_skipped (next_key_of_skipped hskip) hclose, bind_assoc]
  rfl

/-- Behind a colon, a tree yields what its place does. -/
theorem judge_colon {p : Place} {t : Tree} {outcome : Except Fault Around}
    (h : p.Yields t outcome) {octets : List UInt8}
    (hoctets : Spaced ([octet ':'] :: t.pieces) octets)
    {rest : List UInt8} (hrest : Delimits rest) :
    judge (.colon p) (octets ++ rest) = outcome >>= fun a => judge (.after a) rest := by
  obtain ⟨behind, hbehind, hjudge⟩ := exists_judge_piece (idle_colon p) hoctets
  have hnext : next (.colon p) (octet ':') = .ok (.value p) := rfl
  rw [hjudge, List.singleton_append, judge_cons hnext]
  exact h _ rfl behind hbehind rest hrest

/-- **A member that is read** yields what its key leads to: a fault, or a place for its value. -/
theorem yields_member {r : Record} (hread : r.isSkipped = false) {m : Quoted × Tree}
    {outcome : String → Except Fault Around}
    (h : ∀ name, (∃ fault, r.value name = .error fault ∧ outcome name = .error fault) ∨
      ∃ p, r.value name = .ok p ∧ p.Yields m.2 (outcome name)) :
    r.Yields m (m.1.name >>= outcome) := by
  intro s hs octets hoctets rest hrest
  obtain ⟨behind, hbehind, hjudge⟩ := exists_judge_piece (idle_of_keyed hs) hoctets
  rw [hjudge, judge_key_read hs hread, bind_assoc]
  refine bind_congr fun name => ?_
  rcases h name with ⟨fault, hvalue, houtcome⟩ | ⟨p, hvalue, hyields⟩
  · rw [hvalue, houtcome]
    rfl
  · rw [hvalue]
    exact judge_colon hyields hbehind hrest

/-- **A member that is skipped** yields what its value does. -/
theorem yields_member_skipped {r : Record} (hskip : r.isSkipped = true) {m : Quoted × Tree}
    {p : Place} {outcome : Except Fault Around} (hp : r.value "" = .ok p)
    (h : p.Yields m.2 outcome) : r.Yields m outcome := by
  intro s hs octets hoctets rest hrest
  obtain ⟨behind, hbehind, hjudge⟩ := exists_judge_piece (idle_of_keyed hs) hoctets
  rw [hjudge, judge_key_skipped hs hskip, hp]
  exact judge_colon h hbehind hrest

/-- **An object yields what its record closes to**, once the members were taken one by one. -/
theorem yields_object {σ : Type} (record : σ → Record)
    (step : σ → Quoted × Tree → Except Fault σ) {x : σ} {p : Place}
    {members : List (Quoted × Tree)} (hopen : p.openRecord = .ok (record x))
    (hstep : ∀ m ∈ members, ∀ x,
      (record x).Yields m ((fun y => .record (record y)) <$> step x m)) :
    p.Yields (.object members) (members.foldlM step x >>= fun y => (record y).close) := by
  intro s hs octets hoctets rest _
  rw [Tree.pieces, Tree.memberPieces_eq_map] at hoctets
  obtain ⟨behind, hbehind, hjudge⟩ := exists_judge_piece (idle_of_place hs) hoctets
  rw [hjudge, List.singleton_append, judge_cons (next_openBrace_of_place hs hopen)]
  exact (Series.ofRecord record).judge_closed hstep hbehind rest rfl (idle_of_keyed rfl) rfl

end State

end LinearMemory.Fixture
