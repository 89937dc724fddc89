import LinearMemory.Proofs.Fixture.Lexing

/-!
# Reading arrays and objects

Tokens fill a place if, wherever this place is next, they lead behind a value that stands in given
surroundings: `Fixture.Fills`. What a bracket keeps open changes only when one of its parts is
complete, so arrays and objects are read part by part, `Fixture.Row.Reads` and
`Fixture.Record.Reads`. With `Fixture.fills_array` and `Fixture.fills_object` the brackets and
commas of a document are done with: what is left of a value are its parts.
-/

namespace LinearMemory.Fixture

open Json

/-- **Tokens fill a place**: where it is next they lead behind a value, with these surroundings. -/
def Fills (p : Place) (tokens : List Token) (a : Around) : Prop :=
  ∀ s : State, s.place? = some p → s.TakesAll tokens (.after a)

/-- **A row reads parts**, one element after the other. -/
inductive Row.Reads : Row → List (List Token) → Row → Prop
  | nil (r : Row) : Reads r [] r
  | cons {r m r' : Row} {p : Place} {part : List Token} {rest : List (List Token)}
      (hp : r.next? = some p) (hpart : Fills p part (.row m)) (hrest : Reads m rest r') :
      Reads r (part :: rest) r'

/-- **A record reads parts**, one member after the other. -/
inductive Record.Reads : Record → List (List Token) → Record → Prop
  | nil (r : Record) : Reads r [] r
  | cons {r m r' : Record} {key : String} {p : Place} {value : List Token}
      {rest : List (List Token)} (hread : r.isSkipped = false) (hp : r.value key = .ok p)
      (hvalue : Fills p value (.record m)) (hrest : Reads m rest r') :
      Reads r (Token.member key value :: rest) r'

theorem Record.Reads.append {r m r' : Record} {first second : List (List Token)}
    (h : r.Reads first m) (h' : m.Reads second r') : r.Reads (first ++ second) r' := by
  induction h with
  | nil r => exact h'
  | cons hread hp hvalue _ ih => exact .cons hread hp hvalue (ih h')

/-- Behind the first of some parts, each one comes with its comma. -/
theorem separate_cons (part : List Token) (rest : List (List Token)) :
    Token.separate (part :: rest) = part ++ rest.flatMap (Token.comma :: ·) := by
  induction rest generalizing part with
  | nil => simp only [Token.separate, List.intercalate_singleton, List.flatMap_nil, List.append_nil]
  | cons next rest ih =>
    have h := ih next
    rw [Token.separate] at h ⊢
    rw [List.intercalate_cons_cons, h, List.flatMap_cons, List.append_assoc]
    rfl

/-- A scalar fills a place. -/
theorem fills_scalar {p : Place} {t : Token} {v : Value} {a : Around} (ht : t.Denotes v)
    (hread : p.isSkipped = false) (ha : p.scalar v = .ok a) : Fills p [t] a :=
  fun _ hs => .cons (.scalar hs ht hread ha) (.nil _)

theorem Row.Reads.takesAll {r r' : Row} {parts : List (List Token)} (h : r.Reads parts r') :
    State.TakesAll (.after (.row r)) (parts.flatMap (Token.comma :: ·)) (.after (.row r')) := by
  induction h with
  | nil r => exact .nil _
  | cons hp hpart _ ih =>
    rw [List.flatMap_cons]
    exact .cons (.nextElement hp) ((hpart _ rfl).append ih)

/-- **An array fills a place**: its bracket opens a row, which reads the elements and closes. -/
theorem fills_array {p first : Place} {r r' : Row} {a : Around} {parts : List (List Token)}
    (hopen : p.openRow = .ok (r, first)) (hfirst : r.next? = some first) (h : r.Reads parts r')
    (hclose : r'.close = .ok a) : Fills p (Token.array parts) a := by
  have hinside : State.TakesAll (.firstElement r first)
      (Token.separate parts ++ [Token.closeBracket]) (.after a) := by
    cases h with
    | nil => exact .cons (.closeBracket rfl hclose) (.nil _)
    | cons hp hpart hrest =>
      -- the first element comes without a comma
      obtain rfl : first = _ := Option.some.inj (hfirst.symm.trans hp)
      rw [separate_cons, List.append_assoc]
      exact (hpart _ rfl).append (hrest.takesAll.append (.cons (.closeBracket rfl hclose) (.nil _)))
  exact fun s hs => .cons (.openBracket hs hopen) hinside

theorem takesAll_member {s : State} {r m : Record} {key : String} {p : Place} {value : List Token}
    (hs : s.keyed? = some r) (hread : r.isSkipped = false) (hp : r.value key = .ok p)
    (hvalue : Fills p value (.record m)) :
    s.TakesAll (Token.member key value) (.after (.record m)) :=
  .cons (.key hs hread hp) (.cons (.colon p) (hvalue _ rfl))

theorem Record.Reads.takesAll {r r' : Record} {parts : List (List Token)} (h : r.Reads parts r') :
    State.TakesAll (.after (.record r)) (parts.flatMap (Token.comma :: ·))
      (.after (.record r')) := by
  induction h with
  | nil r => exact .nil _
  | cons hread hp hvalue _ ih =>
    rw [List.flatMap_cons]
    exact .cons (.nextKey _) ((takesAll_member rfl hread hp hvalue).append ih)

/-- **An object fills a place**: its bracket opens a record, which reads the members and closes. -/
theorem fills_object {p : Place} {r r' : Record} {a : Around} {parts : List (List Token)}
    (hopen : p.openRecord = .ok r) (h : r.Reads parts r') (hclose : r'.close = .ok a) :
    Fills p (Token.object parts) a := by
  have hinside : State.TakesAll (.firstKey r)
      (Token.separate parts ++ [Token.closeBrace]) (.after a) := by
    cases h with
    | nil => exact .cons (.closeBrace rfl hclose) (.nil _)
    | cons hread hp hvalue hrest =>
      rw [separate_cons, List.append_assoc]
      exact (takesAll_member rfl hread hp hvalue).append
        (hrest.takesAll.append (.cons (.closeBrace rfl hclose) (.nil _)))
  exact fun s hs => .cons (.openBrace hs hopen) hinside

end LinearMemory.Fixture
