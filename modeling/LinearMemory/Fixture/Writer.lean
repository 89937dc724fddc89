import LinearMemory.Fixture.Schema
import LinearMemory.Json.Token

/-!
# Writing a fixture document

A fixture is written with every scenario and every operation as a record, the fields in the order of
the schema. An expected value that is absent is written as `null` or left out, as the writer
chooses.

`Fixture.tokens` are the tokens of the document, `Fixture.write` is the document without any blanks.
-/

namespace LinearMemory

open Json

namespace Operation

/-- The members for an expected value. -/
def expectMembers (leaveOut : Bool) : Option String → List (List Token)
  | some s => [Token.member "expect" [.text s]]
  | none => if leaveOut then [] else [Token.member "expect" [.null]]

/-- A word as a token. -/
def wordToken (w : UInt64) : Token := .integer w.toNat

/-- An offset as a token. -/
def offsetToken (o : Int64) : Token := .integer o.toInt

/-- The members of an operation, without the one that names its kind. -/
def members (leaveOut : Bool) : Operation → List (List Token)
  | .resize size => [Token.member "size" [wordToken size]]
  | .write offset size value =>
    [Token.member "offset" [offsetToken offset], Token.member "size" [wordToken size],
      Token.member "value" [.text value]]
  | .append value expect =>
    [Token.member "value" [.text value], Token.member "expect" [wordToken expect]]
  | .read offset expect | .view offset expect =>
    Token.member "offset" [offsetToken offset] :: expectMembers leaveOut expect
  | .normalize offset expect =>
    [Token.member "offset" [offsetToken offset], Token.member "expect" [wordToken expect]]

/-- The tokens of an operation. -/
def tokens (leaveOut : Bool) (operation : Operation) : List Token :=
  Token.object (Token.member "op" [.text operation.kind.name] :: operation.members leaveOut)

end Operation

/-- The tokens of a scenario. -/
def Scenario.tokens (leaveOut : Bool) (s : Scenario) : List Token :=
  Token.object
    [Token.member "ops" (Token.array (s.operations.map (Operation.tokens leaveOut))),
      Token.member "len" [Operation.wordToken s.length],
      Token.member "memSize" [Operation.wordToken s.size]]

namespace Fixture

/-- **The tokens of a fixture.** -/
def tokens (leaveOut : Bool) (f : Fixture) : List Token :=
  Token.object (f.toList.map fun (name, s) => Token.member name (s.tokens leaveOut))

/-- **The document of a fixture**, without blanks. -/
def write (f : Fixture) : List UInt8 :=
  (tokens false f).flatMap Token.octets

end Fixture

end LinearMemory
