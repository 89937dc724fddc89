import LinearMemory.Json.Basic

/-!
# Tokens of a JSON text

A document that is written is a list of tokens, between which blanks make no difference. A text is
written with the fewest escapes: the quote and the backslash behind a backslash, and the controls by
their code units.
-/

namespace LinearMemory.Json

/-- **A token**, of those that a writer needs. -/
inductive Token
  | openBrace
  | closeBrace
  | openBracket
  | closeBracket
  | comma
  | colon
  | null
  | integer (n : Int)
  | text (s : String)
  deriving DecidableEq

namespace Token

/-- The octets of ASCII characters. -/
def ascii (cs : List Char) : List UInt8 :=
  cs.map octet

/-- What is written for one character of a text. -/
def escape (c : Char) : List UInt8 :=
  if c = '\x22' ∨ c = '\\' then ascii ['\\', c]
  else if c.toNat < 0x20 then
    ascii ['\\', 'u', '0', '0', Nat.digitChar (c.toNat / 16), Nat.digitChar (c.toNat % 16)]
  else String.utf8EncodeChar c

/-- The octets of a token. -/
def octets : Token → List UInt8
  | .openBrace => [octet '\x7b']
  | .closeBrace => [octet '\x7d']
  | .openBracket => [octet '[']
  | .closeBracket => [octet ']']
  | .comma => [octet ',']
  | .colon => [octet ':']
  | .null => ascii ['n', 'u', 'l', 'l']
  | .integer n => Text.utf8 (Number.integerText n)
  | .text s => octet '\x22' :: s.toList.flatMap escape ++ [octet '\x22']

/-! ### Composite values -/

/-- Parts with commas between them. -/
def separate (parts : List (List Token)) : List Token :=
  [comma].intercalate parts

/-- An array of written elements. -/
def array (elements : List (List Token)) : List Token :=
  openBracket :: separate elements ++ [closeBracket]

/-- A member of an object: its key and its written value. -/
def member (key : String) (value : List Token) : List Token :=
  text key :: colon :: value

/-- An object of written members. -/
def object (members : List (List Token)) : List Token :=
  openBrace :: separate members ++ [closeBrace]

end Token

end LinearMemory.Json
