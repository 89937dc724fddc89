import LinearMemory.Fixture.Field

/-!
# Operations from values

An operation stands in a document as a record, whose members may come in any order, or as a row of
values in the order of the schema. Either way its kind is known and its content has been read when
the fields are looked at.

* In a record, the members are checked from left to right: a member that the kind does not have is
  passed over, any other has to hold a value of its type and may not occur again. Only then are the
  fields taken out, in the order of the schema, and one may turn out to be missing.
* In a row, the fields are taken one after the other, and at the end none may be left over.
-/

namespace LinearMemory.Fixture

open Json

/-! ### Records -/

/-- The members of a record, in order of appearance. -/
abbrev Members := List (String × Value)

namespace Members

/-- Check members from left to right, given the fields that occurred before them. -/
def check (fields : List (String × Operation.FieldType)) :
    List String → Members → Except Fault Unit
  | _, [] => .ok ()
  | seen, (key, v) :: rest =>
    match fields.lookup key with
    | none => check fields seen rest
    | some type =>
      if key ∈ seen then .error (.mistyped (.repeated key))
      else do
        Field.check type v
        check fields (key :: seen) rest

/-- The content of a field that has to be there. -/
def required {α : Type} (members : Members) (field : String) (read : Value → Except Fault α) :
    Except Fault α :=
  match members.lookup field with
  | some v => read v
  | none => .error (.mistyped (.missing field))

/-- The text of a field that may be left out. -/
def optional (members : Members) (field : String) : Except Fault (Option String) :=
  match members.lookup field with
  | some v => Field.optionalText v
  | none => .ok none

/-- Take the fields of a kind out of a record. -/
def fields (members : Members) : Operation.Kind → Except Fault Operation
  | .resize => return .resize (← members.required "size" (Field.word .word))
  | .write =>
    return .write (← members.required "offset" Field.offset)
      (← members.required "size" (Field.word .word)) (← members.required "value" Field.text)
  | .append =>
    return .append (← members.required "value" Field.text)
      (← members.required "expect" (Field.word .word))
  | .read => return .read (← members.required "offset" Field.offset) (← members.optional "expect")
  | .view => return .view (← members.required "offset" Field.offset) (← members.optional "expect")
  | .normalize =>
    return .normalize (← members.required "offset" Field.offset)
      (← members.required "expect" (Field.word .word))

/-- **The operation of a record**, from its members without the one that names its kind. -/
def operation (members : Members) (kind : Operation.Kind) : Except Fault Operation := do
  members.check kind.fields []
  members.fields kind

end Members

/-! ### Rows -/

/-- **The values of a row** that are left, and how many were taken. -/
structure Values where
  rest : List Value
  taken : Nat

namespace Values

/-- Take the next value of a row. -/
def take {α : Type} (kind : Operation.Kind) (read : Value → Except Fault α) :
    StateT Values (Except Fault) α := fun values =>
  match values.rest with
  | [] => .error (.mistyped (.operationTooShort kind values.taken))
  | v :: rest => do
    let content ← read v
    return (content, ⟨rest, values.taken + 1⟩)

/-- Take the fields of a kind one after the other. -/
def fields (kind : Operation.Kind) : StateT Values (Except Fault) Operation :=
  match kind with
  | .resize => return .resize (← take kind (Field.word .word))
  | .write =>
    return .write (← take kind Field.offset) (← take kind (Field.word .word))
      (← take kind Field.text)
  | .append => return .append (← take kind Field.text) (← take kind (Field.word .word))
  | .read => return .read (← take kind Field.offset) (← take kind Field.optionalText)
  | .view => return .view (← take kind Field.offset) (← take kind Field.optionalText)
  | .normalize => return .normalize (← take kind Field.offset) (← take kind (Field.word .word))

/-- **The operation of a row**, from its values without the name of its kind. -/
def operation (values : List Value) (kind : Operation.Kind) : Except Fault Operation := do
  let (operation, left) ← (fields kind).run ⟨values, 0⟩
  if left.rest.isEmpty then return operation
  else throw (.mistyped (.operationTooLong kind values.length))

end Values

end LinearMemory.Fixture
