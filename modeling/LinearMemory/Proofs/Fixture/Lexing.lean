import LinearMemory.Fixture.Reader
import LinearMemory.Proofs.Json.Literal
import LinearMemory.Proofs.Json.Numeral

/-!
# Reading a document token by token

The reader takes octets; a document is told in tokens. `Fixture.State.Takes` says what a whole token
does to a state between two tokens, with no mention of octets: a scalar goes to the place that is
next, a bracket opens or closes, a key names a place. `Fixture.State.judge_form` is the law that
ties the two: a token in any of its forms leaves what the octets behind it are judged from.

An integer is the one token that has no end of its own. It is followed by a blank, a comma, a
closing bracket or the end of the text, and each of these ends it
(`Fixture.State.delimits_of_laidOut`).

The result is `Fixture.State.judge_laidOut`: a text is judged by its tokens alone.
-/

namespace LinearMemory

open Json

/-- **A token is a scalar** and stands for a value. -/
inductive Json.Token.Denotes : Token → Value → Prop
  | null : Denotes .null .null
  | integer {n : Int} (hlow : -Nat.pow 2 63 ≤ n) (hhigh : n < Nat.pow 2 64) :
      Denotes (.integer n) (.number (.integer n))
  | text (s : String) : Denotes (.text s) (.text s)

namespace Fixture

/-- **What may stand behind an integer**: the end, or an octet that ends numbers. -/
def Delimits : List UInt8 → Prop
  | [] => True
  | b :: _ => Numeral.Ends b

namespace State

/-! ### What a token does -/

/-- The place of the value that may come next. -/
def place? : State → Option Place
  | .value p | .firstElement _ p | .nextElement p => some p
  | _ => none

/-- The record whose key may come next. -/
def keyed? : State → Option Record
  | .firstKey r | .nextKey r => some r
  | _ => none

/-- The row that may close next. -/
def row? : State → Option Row
  | .firstElement r _ | .after (.row r) => some r
  | _ => none

/-- The record that may close next. -/
def record? : State → Option Record
  | .firstKey r | .after (.record r) => some r
  | _ => none

/-- **A state takes a token**: what may come next is this token, and another state is what it leads
to. -/
inductive Takes : State → Token → State → Prop
  | scalar {s : State} {t : Token} {v : Value} {p : Place} {a : Around} (hs : s.place? = some p)
      (ht : t.Denotes v) (hread : p.isSkipped = false) (ha : p.scalar v = .ok a) :
      Takes s t (.after a)
  | openBracket {s : State} {p first : Place} {r : Row} (hs : s.place? = some p)
      (hr : p.openRow = .ok (r, first)) : Takes s .openBracket (.firstElement r first)
  | openBrace {s : State} {p : Place} {r : Record} (hs : s.place? = some p)
      (hr : p.openRecord = .ok r) : Takes s .openBrace (.firstKey r)
  | key {s : State} {r : Record} {key : String} {p : Place} (hs : s.keyed? = some r)
      (hread : r.isSkipped = false) (hp : r.value key = .ok p) : Takes s (.text key) (.colon p)
  | colon (p : Place) : Takes (.colon p) .colon (.value p)
  | nextElement {r : Row} {p : Place} (hp : r.next? = some p) :
      Takes (.after (.row r)) .comma (.nextElement p)
  | nextKey (r : Record) : Takes (.after (.record r)) .comma (.nextKey r)
  | closeBracket {s : State} {r : Row} {a : Around} (hs : s.row? = some r)
      (ha : r.close = .ok a) : Takes s .closeBracket (.after a)
  | closeBrace {s : State} {r : Record} {a : Around} (hs : s.record? = some r)
      (ha : r.close = .ok a) : Takes s .closeBrace (.after a)

/-- **A state takes tokens**, one after the other. -/
inductive TakesAll : State → List Token → State → Prop
  | nil (s : State) : TakesAll s [] s
  | cons {s t u : State} {token : Token} {rest : List Token} (htoken : Takes s token t)
      (hrest : TakesAll t rest u) : TakesAll s (token :: rest) u

theorem TakesAll.append {s t u : State} {first second : List Token} (h : TakesAll s first t)
    (h' : TakesAll t second u) : TakesAll s (first ++ second) u := by
  induction h with
  | nil s => exact h'
  | cons htoken _ ih => exact .cons htoken (ih h')

/-! ### The rest of a text -/

/-- **What a text is judged to be** from a state on, given the octets that are left of it. -/
def judge (s : State) (octets : List UInt8) : Except Fault Fixture := do
  let t ← s.run octets
  t.finish

@[simp] theorem judge_nil (s : State) : s.judge [] = s.finish := rfl

theorem judge_cons_eq (s : State) (b : UInt8) (rest : List UInt8) :
    s.judge (b :: rest) = s.next b >>= fun t => t.judge rest := by
  rw [judge, run_cons, bind_assoc]
  rfl

theorem judge_cons {s t : State} {b : UInt8} (h : s.next b = .ok t) (rest : List UInt8) :
    s.judge (b :: rest) = t.judge rest := by
  rw [judge_cons_eq, h]
  rfl

/-- The octets of a literal go into it, up to the first one that is refused. -/
theorem judge_advances {within : Literal → State}
    {advance : Literal → UInt8 → Except Malformed Literal}
    (hstep : ∀ l b, l.isClosedBy b = false →
      next (within l) b = (advance l b).mapError .malformed >>= fun m => .ok (within m))
    {l : Literal} {inside : List UInt8} {outcome : Except Malformed Literal}
    (h : Literal.Advances advance l inside outcome) (rest : List UInt8) :
    judge (within l) (inside ++ rest) =
      outcome.mapError .malformed >>= fun m => judge (within m) rest := by
  induction h with
  | nil l => rfl
  | refused hopen hnext =>
    rw [List.cons_append, judge_cons_eq, hstep _ _ hopen, hnext]
    rfl
  | cons hopen hnext _ ih =>
    rw [List.cons_append, judge_cons_eq, hstep _ _ hopen, hnext]
    exact ih

theorem next_literal_of_read {p : Place} (hread : p.isSkipped = false) (l : Literal) (b : UInt8)
    (hopen : l.isClosedBy b = false) :
    next (.literal p l) b = (l.next b).mapError .malformed >>= fun m => .ok (.literal p m) := by
  simp only [next, hopen, hread, Bool.false_eq_true, if_false]
  rfl

theorem next_key_of_read {r : Record} (hread : r.isSkipped = false) (l : Literal) (b : UInt8)
    (hopen : l.isClosedBy b = false) :
    next (.key r l) b = (l.next b).mapError .malformed >>= fun m => .ok (.key r m) := by
  simp only [next, hopen, hread, Bool.false_eq_true, if_false]
  rfl

/-- The octets of a literal that is read go into it. -/
theorem judge_literal {p : Place} {l m : Literal} {inside : List UInt8}
    (hread : p.isSkipped = false) (h : l.Reads inside m) (rest : List UInt8) :
    judge (.literal p l) (inside ++ rest) = judge (.literal p m) rest :=
  judge_advances (next_literal_of_read hread) h.advances rest

/-- The octets of a key that is read go into it. -/
theorem judge_key {r : Record} {l m : Literal} {inside : List UInt8} (hread : r.isSkipped = false)
    (h : l.Reads inside m) (rest : List UInt8) :
    judge (.key r l) (inside ++ rest) = judge (.key r m) rest :=
  judge_advances (next_key_of_read hread) h.advances rest

/-- The octets of a number go into it. -/
theorem judge_numeral {p : Place} {n m : Numeral} {digits : List UInt8} (h : n.Reads digits m)
    (rest : List UInt8) :
    judge (.numeral p n) (digits ++ rest) = judge (.numeral p m) rest := by
  induction h with
  | nil n => rfl
  | @cons n n' _ b _ hnext _ ih =>
    have hstep : next (.numeral p n) b = .ok (.numeral p n') := by
      simp only [next, hnext]
    rw [List.cons_append, judge_cons hstep]
    exact ih

/-- A complete numeral goes to its place once something ends it. -/
theorem judge_numeral_complete {p : Place} {n : Numeral} (hn : n.stage.isComplete = true)
    {rest : List UInt8} (hrest : Delimits rest) :
    judge (.numeral p n) rest = p.numeral n >>= fun a => judge (.after a) rest := by
  cases rest with
  | nil => simp only [judge_nil, finish, hn, if_true]
  | cons b rest =>
    have hover : next (.numeral p n) b = p.numeral n >>= fun a => next (.after a) b := by
      simp only [next, Numeral.next_of_ends hn hrest]
    simp only [judge_cons_eq, hover, bind_assoc]

/-- A word goes to its place at the last octet. -/
theorem judge_word (p : Place) (v : Value) (b : UInt8) (behind rest : List UInt8) :
    judge (.word p v b behind) (b :: behind ++ rest) =
      p.scalar v >>= fun a => judge (.after a) rest := by
  induction behind generalizing b with
  | nil =>
    have hlast : next (.word p v b []) b = p.scalar v >>= fun a => .ok (.after a) := if_pos rfl
    rw [List.cons_append, List.nil_append, judge_cons_eq, hlast, bind_assoc]
    rfl
  | cons c behind ih =>
    have hnext : next (.word p v b (c :: behind)) b = .ok (.word p v c behind) := if_pos rfl
    rw [List.cons_append, judge_cons hnext]
    exact ih c

/-! ### The first octet of a token -/

/-- Where a value may come, an octet that is neither blank nor a bracket begins it. -/
theorem next_of_place {s : State} {p : Place} (hs : s.place? = some p) {b : UInt8}
    (hblank : isBlank b = false) (hclose : b ≠ octet ']') : s.next b = begin p b := by
  cases s <;> simp only [place?, Option.some.injEq, reduceCtorEq] at hs <;> subst hs <;>
    simp only [next, hblank, hclose, Bool.false_eq_true, if_false, false_and]

/-- Where a key may come, a quote begins it. -/
theorem next_quote_of_keyed {s : State} {r : Record} (hs : s.keyed? = some r) :
    s.next (octet '"') = .ok (.key r .start) := by
  cases s <;> simp only [keyed?, Option.some.injEq, reduceCtorEq] at hs <;> subst hs <;> rfl

/-- The octet that starts a number begins a number. -/
theorem next_digit_of_place {s : State} {p : Place} (hs : s.place? = some p) {b : UInt8}
    {n : Numeral} (hb : Numeral.start? b = some n) : s.next b = .ok (.numeral p n) := by
  have hne : ∀ c, Numeral.start? c = none → b ≠ c := by
    rintro c hc rfl
    exact absurd (hb.symm.trans hc) (by nofun)
  have hblank : isBlank b = false := by
    simp only [isBlank, hne 0x20 rfl, hne 0x09 rfl, hne 0x0a rfl, hne 0x0d rfl, decide_false,
      Bool.or_self]
  rw [next_of_place hs hblank (hne _ rfl)]
  simp only [begin, hne (octet '"') rfl, hne (octet '[') rfl, hne (octet '\x7b') rfl,
    hne (octet 't') rfl, hne (octet 'f') rfl, hne (octet 'n') rfl, if_false, hb]

/-- Where a value may come, a square bracket opens a row. -/
theorem next_openBracket_of_place {s : State} {p first : Place} {r : Row} (hs : s.place? = some p)
    (hr : p.openRow = .ok (r, first)) : s.next (octet '[') = .ok (.firstElement r first) := by
  have hbegin : begin p (octet '[')
      = p.openRow >>= fun opened => .ok (.firstElement opened.1 opened.2) := rfl
  rw [next_of_place hs rfl (by decide), hbegin, hr]
  rfl

/-- Where a value may come, a curly bracket opens a record. -/
theorem next_openBrace_of_place {s : State} {p : Place} {r : Record} (hs : s.place? = some p)
    (hr : p.openRecord = .ok r) : s.next (octet '\x7b') = .ok (.firstKey r) := by
  have hbegin : begin p (octet '\x7b') = p.openRecord >>= fun r => .ok (.firstKey r) := rfl
  rw [next_of_place hs rfl (by decide), hbegin, hr]
  rfl

/-- Behind an element, a comma leads to the next place, if there is one. -/
theorem next_comma_of_next? {r : Row} {p : Place} (hp : r.next? = some p) :
    next (.after (.row r)) (octet ',') = .ok (.nextElement p) := by
  have hblank : isBlank (octet ',') = false := rfl
  have hclose : octet ',' ≠ octet ']' := by decide
  simp only [next, follow, hblank, hclose, hp, Bool.false_eq_true, if_false, if_true]

/-- Where a row may close, its bracket closes it. -/
theorem next_closeBracket_of_row {s : State} {r : Row} {a : Around} (hs : s.row? = some r)
    (ha : r.close = .ok a) : s.next (octet ']') = .ok (.after a) := by
  have hclose : (r.close >>= fun a => Except.ok (State.after a)) = .ok (.after a) := by
    rw [ha]
    rfl
  unfold row? at hs
  split at hs <;> cases hs <;> exact hclose

/-- Where a record may close, its bracket closes it. -/
theorem next_closeBrace_of_record {s : State} {r : Record} {a : Around} (hs : s.record? = some r)
    (ha : r.close = .ok a) : s.next (octet '\x7d') = .ok (.after a) := by
  have hclose : (r.close >>= fun a => Except.ok (State.after a)) = .ok (.after a) := by
    rw [ha]
    rfl
  unfold record? at hs
  split at hs <;> cases hs <;> exact hclose

/-! ### Whole tokens -/

/-- A null goes to the place that is next. -/
theorem judge_null {s : State} {p : Place} {a : Around} (hs : s.place? = some p)
    (ha : p.scalar .null = .ok a) (rest : List UInt8) :
    s.judge (Token.null.octets ++ rest) = judge (.after a) rest := by
  have hbegin : s.next (octet 'n') = .ok (.word p .null (octet 'u') [octet 'l', octet 'l']) :=
    (next_of_place hs rfl (by decide)).trans rfl
  rw [Token.octets, Token.ascii, List.map_cons, List.cons_append, judge_cons hbegin]
  refine (judge_word p .null (octet 'u') [octet 'l', octet 'l'] rest).trans ?_
  rw [ha]
  rfl

/-- A text goes to the place that is next. -/
theorem judge_text {s : State} {p : Place} {a : Around} {text : String} {inside : List UInt8}
    (hs : s.place? = some p) (hread : p.isSkipped = false) (ha : p.scalar (.text text) = .ok a)
    (hinside : TextForm text.toList inside) (rest : List UInt8) :
    s.judge (octet '"' :: (inside ++ [octet '"']) ++ rest) = judge (.after a) rest := by
  obtain ⟨l, hreads, hclosed, htext⟩ := Literal.reads_text hinside
  have hbegin : s.next (octet '"') = .ok (.literal p .start) :=
    (next_of_place hs rfl (by decide)).trans rfl
  have hend : next (.literal p l) (octet '"') = .ok (.after a) := by
    simp only [next, hclosed, if_true, Place.literal, hread, Bool.false_eq_true, if_false, htext]
    change (p.scalar (.text text) >>= fun a => Except.ok (State.after a)) = _
    rw [ha]
    rfl
  rw [List.cons_append, List.append_assoc, judge_cons hbegin, judge_literal hread hreads]
  exact judge_cons hend rest

/-- A text names the place behind it. -/
theorem judge_keyText {s : State} {r : Record} {p : Place} {key : String} {inside : List UInt8}
    (hs : s.keyed? = some r) (hread : r.isSkipped = false) (hp : r.value key = .ok p)
    (hinside : TextForm key.toList inside) (rest : List UInt8) :
    s.judge (octet '"' :: (inside ++ [octet '"']) ++ rest) = judge (.colon p) rest := by
  obtain ⟨l, hreads, hclosed, htext⟩ := Literal.reads_text hinside
  have hend : next (.key r l) (octet '"') = .ok (.colon p) := by
    simp only [next, hclosed, if_true, Record.literal, hread, Bool.false_eq_true, if_false, htext]
    change (r.value key >>= fun p => Except.ok (State.colon p)) = _
    rw [hp]
    rfl
  rw [List.cons_append, List.append_assoc, judge_cons (next_quote_of_keyed hs),
    judge_key hread hreads]
  exact judge_cons hend rest

/-- An integer goes to the place that is next, once something ends it. -/
theorem judge_integer {s : State} {p : Place} {a : Around} {n : Int} (hs : s.place? = some p)
    (hread : p.isSkipped = false) (ha : p.scalar (.number (.integer n)) = .ok a)
    (hlow : -Nat.pow 2 63 ≤ n) (hhigh : n < Nat.pow 2 64) {rest : List UInt8}
    (hrest : Delimits rest) :
    s.judge (Text.utf8 (Number.integerText n) ++ rest) = judge (.after a) rest := by
  obtain ⟨b, digits, first, negative, m, hoctets, hstart, hreads, hvalue⟩ :=
    Numeral.reads_integer hlow hhigh
  have hnumeral : p.numeral (.whole negative m) = .ok a := by
    simp only [Place.numeral, hread, Bool.false_eq_true, if_false, hvalue]
    exact ha
  rw [hoctets, List.cons_append, judge_cons (next_digit_of_place hs hstart), judge_numeral hreads,
    judge_numeral_complete Numeral.isComplete_whole hrest, hnumeral]
  rfl

/-- **A token in any form does what the token does.** -/
theorem judge_form {s t : State} {token : Token} {form : List UInt8} (h : Takes s token t)
    (hform : token.Form form) {rest : List UInt8} (hrest : ∀ a, t = .after a → Delimits rest) :
    s.judge (form ++ rest) = t.judge rest := by
  cases h with
  | scalar hs ht hread ha =>
    cases ht with
    | null =>
      cases hform with
      | only _ => exact judge_null hs ha rest
    | integer hlow hhigh =>
      cases hform with
      | only _ => exact judge_integer hs hread ha hlow hhigh (hrest _ rfl)
    | text text =>
      cases hform with
      | text hinside => exact judge_text hs hread ha hinside rest
      | only hnot => exact absurd rfl (hnot text)
  | key hs hread hp =>
    cases hform with
    | text hinside => exact judge_keyText hs hread hp hinside rest
    | only hnot => exact absurd rfl (hnot _)
  | openBracket hs hr =>
    cases hform with
    | only _ => exact judge_cons (next_openBracket_of_place hs hr) rest
  | openBrace hs hr =>
    cases hform with
    | only _ => exact judge_cons (next_openBrace_of_place hs hr) rest
  | colon p =>
    cases hform with
    | only _ => exact judge_cons rfl rest
  | nextElement hp =>
    cases hform with
    | only _ => exact judge_cons (next_comma_of_next? hp) rest
  | nextKey r =>
    cases hform with
    | only _ => exact judge_cons rfl rest
  | closeBracket hs ha =>
    cases hform with
    | only _ => exact judge_cons (next_closeBracket_of_row hs ha) rest
  | closeBrace hs ha =>
    cases hform with
    | only _ => exact judge_cons (next_closeBrace_of_record hs ha) rest

/-! ### Blanks -/

/-- **Blanks make no difference** to a state. -/
def Idle (s : State) : Prop :=
  ∀ b, isBlank b = true → s.next b = .ok s

theorem idle_of_place {s : State} {p : Place} (hs : s.place? = some p) : s.Idle := by
  intro b hb
  cases s <;> simp only [place?, reduceCtorEq] at hs <;> simp only [next, hb, if_true]

theorem idle_of_keyed {s : State} {r : Record} (hs : s.keyed? = some r) : s.Idle := by
  intro b hb
  cases s <;> simp only [keyed?, reduceCtorEq] at hs <;> simp only [next, hb, if_true]

theorem idle_after (a : Around) : Idle (.after a) :=
  fun _ hb => if_pos hb

theorem idle_colon (p : Place) : Idle (.colon p) :=
  fun _ hb => if_pos hb

/-- Blanks make no difference to a state that takes a token. -/
theorem idle_of_takes {s t : State} {token : Token} (h : Takes s token t) : s.Idle := by
  cases h with
  | scalar hs _ _ _ | openBracket hs _ | openBrace hs _ => exact idle_of_place hs
  | key hs _ _ => exact idle_of_keyed hs
  | colon p => exact idle_colon p
  | nextElement _ | nextKey r => exact idle_after _
  | @closeBracket s r a hs _ =>
    cases s with
    | firstElement => exact idle_of_place rfl
    | after => exact idle_after _
    | _ => nomatch hs
  | @closeBrace s r a hs _ =>
    cases s with
    | firstKey => exact idle_of_keyed rfl
    | after => exact idle_after _
    | _ => nomatch hs

theorem judge_blanks {s : State} (h : s.Idle)
    {blanks : List UInt8} (hblanks : ∀ b ∈ blanks, isBlank b = true) (rest : List UInt8) :
    s.judge (blanks ++ rest) = s.judge rest := by
  induction blanks with
  | nil => rfl
  | cons b blanks ih =>
    rw [List.cons_append, judge_cons (h b (hblanks b List.mem_cons_self))]
    exact ih fun b' hb' => hblanks b' (List.mem_cons_of_mem b hb')

/-- Blanks end numbers. -/
theorem ends_of_isBlank {b : UInt8} (hb : isBlank b = true) : Numeral.Ends b := by
  simp only [isBlank, Bool.or_eq_true, decide_eq_true_eq] at hb
  rcases hb with ((rfl | rfl) | rfl) | rfl <;> decide

theorem delimits_blanks {blanks rest : List UInt8} (hblanks : ∀ b ∈ blanks, isBlank b = true)
    (hrest : Delimits rest) : Delimits (blanks ++ rest) := by
  cases blanks with
  | nil => exact hrest
  | cons b blanks => exact ends_of_isBlank (hblanks b List.mem_cons_self)

/-- **What may stand behind a value ends an integer.** -/
theorem delimits_of_laidOut {a : Around} {t : State} {tokens : List Token} {octets : List UInt8}
    (h : TakesAll (.after a) tokens t) (hoctets : LaidOut tokens octets) : Delimits octets := by
  cases hoctets with
  | nil hblanks =>
    rw [← List.append_nil octets]
    exact delimits_blanks hblanks trivial
  | cons hblanks hform hrest =>
    refine delimits_blanks hblanks ?_
    obtain _ | ⟨htoken, -⟩ := h
    -- a comma or a closing bracket
    cases htoken with
    | scalar hs | openBracket hs | openBrace hs | key hs => nomatch hs
    | nextElement | nextKey =>
      cases hform with
      | only _ => exact (by decide : Numeral.Ends (octet ','))
    | closeBracket =>
      cases hform with
      | only _ => exact (by decide : Numeral.Ends (octet ']'))
    | closeBrace =>
      cases hform with
      | only _ => exact (by decide : Numeral.Ends (octet '\x7d'))

/-- **A text is judged by its tokens**, in whatever form and with whatever blanks they come: it is
judged at the end from where the tokens lead. -/
theorem judge_laidOut {s : State} {a : Around} {tokens : List Token} {octets : List UInt8}
    (h : TakesAll s tokens (.after a)) (hoctets : LaidOut tokens octets) :
    s.judge octets = finishAfter a := by
  generalize hend : State.after a = t at h
  induction h generalizing octets with
  | nil s =>
    subst hend
    obtain ⟨hblanks⟩ := hoctets
    rw [← List.append_nil octets, judge_blanks (idle_after a) hblanks]
    rfl
  | cons htoken hrest ih =>
    cases hoctets with
    | cons hblanks hform hlayout =>
      rw [judge_blanks (idle_of_takes htoken) hblanks, judge_form htoken hform]
      · exact ih hlayout hend
      -- only behind a value does it matter what comes next
      · rintro a rfl
        exact delimits_of_laidOut hrest hlayout

end State

/-- **A document is loaded by its tokens.** -/
theorem load_of_takesAll {f : Fixture} {tokens : List Token} {octets : List UInt8}
    (h : State.TakesAll .start tokens (.after (.nothing f))) (hoctets : LaidOut tokens octets) :
    load octets = .ok f :=
  State.judge_laidOut h hoctets

end Fixture

end LinearMemory
