/-!
# Faults of a JSON text

A text that is no JSON document is refused at the first octet that cannot go on, for one of the
causes in `Json.Malformed`, or because it ends too early, inside one of the things in
`Json.Truncated`.
-/

namespace LinearMemory.Json

/-- **Why a text cannot go on** as it does. -/
inductive Malformed
  /-- No value starts here. -/
  | valueExpected
  /-- A word starts like `true`, `false` or `null` and goes on otherwise. -/
  | wordExpected
  /-- A number lacks a digit or has a zero too many. -/
  | badNumber
  /-- A number is too large for a double. -/
  | numberOutOfRange
  /-- A member has to start with a text. -/
  | keyExpected
  /-- A bracket closes behind a comma. -/
  | trailingComma
  /-- A colon has to stand between key and value. -/
  | colonExpected
  /-- A member has to be followed by a comma or the closing brace. -/
  | memberEndExpected
  /-- An element has to be followed by a comma or the closing bracket. -/
  | elementEndExpected
  /-- Something stands behind the end. -/
  | trailingCharacters
  /-- There is no such escape. -/
  | badEscape
  /-- Half a surrogate pair stands where it has no other half. -/
  | loneSurrogate
  /-- The first half of a surrogate pair is not followed by an escape. -/
  | unfinishedSurrogate
  /-- A control character stands unescaped in a text. -/
  | controlCharacter
  /-- A text is not well formed UTF-8. -/
  | badCodePoint
  /-- Too many brackets are open. -/
  | tooDeep
  deriving DecidableEq

/-- **What a text ends inside of.** -/
inductive Truncated
  | value
  | object
  | array
  | text
  deriving DecidableEq

/-- The wording of a cause. -/
def Malformed.message : Malformed → String
  | .valueExpected => "expected value"
  | .wordExpected => "expected ident"
  | .badNumber => "invalid number"
  | .numberOutOfRange => "number out of range"
  | .keyExpected => "key must be a string"
  | .trailingComma => "trailing comma"
  | .colonExpected => "expected `:`"
  | .memberEndExpected => "expected `,` or `\x7d`"
  | .elementEndExpected => "expected `,` or `]`"
  | .trailingCharacters => "trailing characters"
  | .badEscape => "invalid escape"
  | .loneSurrogate => "lone leading surrogate in hex escape"
  | .unfinishedSurrogate => "unexpected end of hex escape"
  | .controlCharacter => "control character (\\u0000-\\u001F) found while parsing a string"
  | .badCodePoint => "invalid unicode code point"
  | .tooDeep => "recursion limit exceeded"

/-- The wording of an early end. -/
def Truncated.message : Truncated → String
  | .value => "EOF while parsing a value"
  | .object => "EOF while parsing an object"
  | .array => "EOF while parsing a list"
  | .text => "EOF while parsing a string"

end LinearMemory.Json
