import LinearMemory.Hex
import LinearMemory.Json.Basic
import LinearMemory.Json.Fault

/-!
# Text literals

The inside of a text literal, behind its opening quote, is read one octet at a time. Octets are kept
as they come and escapes as the octets of what they stand for, so that the literal is one sequence
of octets, held against UTF-8 at its closing quote.

The four digits behind `\u` are taken before they are judged. A first half of a surrogate pair has
to be followed by the escape of a second half.

A literal that is only skipped keeps nothing. Its escapes have to exist, but neither surrogates nor
UTF-8 are looked at.
-/

namespace LinearMemory.Json

namespace Literal

/-- **What the octets before the next one left unfinished.** -/
inductive Pending
  /-- Nothing. -/
  | nothing
  /-- A backslash. -/
  | backslash
  /-- The escape of a code unit, with the digits so far, the last one first, and with the first half
  of a surrogate pair if one stands before it. -/
  | unit (first : Option Nat) (digits : List UInt8)
  /-- The first half of a surrogate pair. -/
  | surrogate (first : Nat)
  /-- The first half of a surrogate pair and a backslash. -/
  | surrogateBackslash (first : Nat)
  deriving DecidableEq

end Literal

/-- **A text literal** part way through. -/
structure Literal where
  /-- The octets kept so far, the last one first. -/
  reversed : List UInt8
  /-- What is unfinished. -/
  pending : Literal.Pending
  deriving DecidableEq

namespace Literal

/-- Right behind the opening quote. -/
def start : Literal := ⟨[], .nothing⟩

/-- The octet that a short escape stands for. -/
def shortEscape? (b : UInt8) : Option UInt8 :=
  if b = octet '"' ∨ b = octet '\\' ∨ b = octet '/' then some b
  else if b = octet 'b' then some 0x08
  else if b = octet 'f' then some 0x0c
  else if b = octet 'n' then some 0x0a
  else if b = octet 'r' then some 0x0d
  else if b = octet 't' then some 0x09
  else none

/-- The code unit that hex digits spell, the last one first. -/
def unit? : List UInt8 → Option Nat
  | [] => some 0
  | b :: rest => do
    let low ← Hex.digit? b
    let high ← unit? rest
    return 16 * high + low

/-- Whether a code unit is the first half of a surrogate pair. -/
def isFirstHalf (unit : Nat) : Bool :=
  0xd800 ≤ unit && unit < 0xdc00

/-- Whether a code unit is the second half of a surrogate pair. -/
def isSecondHalf (unit : Nat) : Bool :=
  0xdc00 ≤ unit && unit < 0xe000

/-- The code point of a surrogate pair. -/
def pairCodePoint (first second : Nat) : Nat :=
  0x10000 + 0x400 * (first - 0xd800) + (second - 0xdc00)

/-- Keep one octet. -/
def push (l : Literal) (b : UInt8) : Literal :=
  ⟨b :: l.reversed, .nothing⟩

/-- Keep the octets of a code point. -/
def pushCodePoint (l : Literal) (codePoint : Nat) : Literal :=
  ⟨(String.utf8EncodeChar (Char.ofNat codePoint)).reverse ++ l.reversed, .nothing⟩

/-- A code unit is complete. -/
def pushUnit (l : Literal) (first : Option Nat) (unit : Nat) : Except Malformed Literal :=
  match first with
  | some first =>
    if isSecondHalf unit then .ok (l.pushCodePoint (pairCodePoint first unit))
    else .error .loneSurrogate
  | none =>
    if isSecondHalf unit then .error .loneSurrogate
    else if isFirstHalf unit then .ok { l with pending := .surrogate unit }
    else .ok (l.pushCodePoint unit)

/-- Read one octet that does not close the literal. -/
def next (l : Literal) (b : UInt8) : Except Malformed Literal :=
  match l.pending with
  | .nothing =>
    if b = octet '\\' then .ok { l with pending := .backslash }
    else if b < 0x20 then .error .controlCharacter
    else .ok (l.push b)
  | .backslash =>
    if b = octet 'u' then .ok { l with pending := .unit none [] }
    else match shortEscape? b with
      | some e => .ok (l.push e)
      | none => .error .badEscape
  | .unit first digits =>
    if digits.length < 3 then .ok { l with pending := .unit first (b :: digits) }
    else match unit? (b :: digits) with
      | some unit => l.pushUnit first unit
      | none => .error .badEscape
  | .surrogate first =>
    if b = octet '\\' then .ok { l with pending := .surrogateBackslash first }
    else .error .unfinishedSurrogate
  | .surrogateBackslash first =>
    if b = octet 'u' then .ok { l with pending := .unit (some first) [] }
    else .error .unfinishedSurrogate

/-- Read one octet of a literal that is only skipped. -/
def skip (l : Literal) (b : UInt8) : Except Malformed Literal :=
  match l.pending with
  | .backslash =>
    if b = octet 'u' then .ok { l with pending := .unit none [] }
    else if (shortEscape? b).isSome then .ok start
    else .error .badEscape
  | .unit first digits =>
    if digits.length < 3 then .ok { l with pending := .unit first (b :: digits) }
    else if (unit? (b :: digits)).isSome then .ok start
    else .error .badEscape
  | _ =>
    if b = octet '\\' then .ok { l with pending := .backslash }
    else if b < 0x20 then .error .controlCharacter
    else .ok start

/-- Whether an octet closes the literal. -/
def isClosedBy (l : Literal) (b : UInt8) : Bool :=
  b = octet '"' && l.pending = .nothing

/-- **The text of a literal**, at its closing quote. -/
def text (l : Literal) : Except Malformed String :=
  match Text.ofUtf8? l.reversed.reverse with
  | some s => .ok s
  | none => .error .badCodePoint

end Literal

end LinearMemory.Json
