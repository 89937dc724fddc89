import LinearMemory.Fixture.Basic

/-!
# The schema of operations

What an operation is called in a document, and which fields it has there: their names, their order
and what each of them holds.
-/

namespace LinearMemory.Operation

/-- **A kind of operation.** -/
inductive Kind
  | resize
  | write
  | append
  | read
  | view
  | normalize
  deriving DecidableEq

/-- **What a field holds.** -/
inductive FieldType
  /-- An integer from zero up to `2 ^ 64 - 1`. -/
  | word
  /-- An integer from `-2 ^ 63` up to `2 ^ 63 - 1`. -/
  | offset
  /-- A text. -/
  | text
  /-- A text, or nothing. -/
  | optionalText
  deriving DecidableEq

namespace Kind

/-- All kinds, in the order in which a message lists them. -/
def all : List Kind := [.resize, .write, .append, .read, .view, .normalize]

/-- What a kind is called in a document. -/
def name : Kind → String
  | .resize => "resize"
  | .write => "set"
  | .append => "setBytes"
  | .read => "get"
  | .view => "getPtr"
  | .normalize => "normalizeOffset"

/-- What a kind is called in a message about its fields. -/
def title : Kind → String
  | .resize => "Resize"
  | .write => "Set"
  | .append => "SetBytes"
  | .read => "Get"
  | .view => "GetPtr"
  | .normalize => "NormalizeOffset"

/-- The kind of a name. -/
def ofName? (s : String) : Option Kind :=
  all.find? fun kind => kind.name = s

/-- The fields of a kind, in order. -/
def fields : Kind → List (String × FieldType)
  | .resize => [("size", .word)]
  | .write => [("offset", .offset), ("size", .word), ("value", .text)]
  | .append => [("value", .text), ("expect", .word)]
  | .read => [("offset", .offset), ("expect", .optionalText)]
  | .view => [("offset", .offset), ("expect", .optionalText)]
  | .normalize => [("offset", .offset), ("expect", .word)]

end Kind

/-- The kind of an operation. -/
def kind : Operation → Kind
  | .resize .. => .resize
  | .write .. => .write
  | .append .. => .append
  | .read .. => .read
  | .view .. => .view
  | .normalize .. => .normalize

end LinearMemory.Operation
