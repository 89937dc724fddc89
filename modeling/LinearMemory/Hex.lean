import LinearMemory.Text.Basic

/-!
# Hex text

A byte is written as two lower-case hex digits, the high half first. Reading takes digits of both
cases and works on the octets of the text: an odd number of octets is refused first, then the first
octet that is no digit, named by its position. The marker `0x` in front of a text is no part of the
digits; `Hex.decode` drops it once, `Hex.ofDigits` takes the text as it is.
-/

namespace LinearMemory.Hex

/-- **Why a text is not hex.** -/
inductive Fault
  /-- The text has an odd number of octets. -/
  | oddLength
  /-- The octet at `index` is no digit; `c` is the character whose code point it is. -/
  | invalidCharacter (c : Char) (index : Nat)
  deriving DecidableEq

/-- The wording of a fault. -/
def Fault.message : Fault → String
  | .oddLength => "OddLength"
  | .invalidCharacter c index =>
    "InvalidHexCharacter \x7b c: " ++ Text.quoteChar c ++ ", index: " ++ toString index ++ " \x7d"

/-! ### Writing -/

/-- The two digits of a byte. -/
def pair (b : UInt8) : List Char :=
  [Nat.digitChar (b.toNat / 16), Nat.digitChar (b.toNat % 16)]

/-- Bytes as digits, without a marker. -/
def encode (bytes : List UInt8) : String :=
  String.ofList (bytes.flatMap pair)

/-- Bytes as pairs of digits with one blank between them. -/
def spaced (bytes : List UInt8) : String :=
  String.ofList ([' '].intercalate (bytes.map pair))

/-! ### Reading -/

/-- The value of a digit, given as an octet. -/
def digit? (octet : UInt8) : Option Nat :=
  if 48 ≤ octet ∧ octet ≤ 57 then some (octet.toNat - 48)
  else if 97 ≤ octet ∧ octet ≤ 102 then some (octet.toNat - 87)
  else if 65 ≤ octet ∧ octet ≤ 70 then some (octet.toNat - 55)
  else none

/-- Values of digits taken two by two, the high half first. -/
def join : List Nat → List UInt8
  | high :: low :: rest => UInt8.ofNat (16 * high + low) :: join rest
  | _ => []

/-- The bytes that a list of octets spells. -/
def ofOctets (octets : List UInt8) : Except Fault (List UInt8) :=
  if octets.length % 2 = 1 then .error .oddLength
  else match octets.zipIdx.find? fun (octet, _) => (digit? octet).isNone with
    | some (octet, index) => .error (.invalidCharacter (Char.ofNat octet.toNat) index)
    | none => .ok (join (octets.filterMap digit?))

/-- The bytes that a text spells, no marker allowed. -/
def ofDigits (s : String) : Except Fault (List UInt8) :=
  ofOctets (Text.utf8 s)

/-- The text behind one leading marker, or the text itself if it has none. -/
def dropMarker (s : String) : String :=
  match s.toList with
  | '0' :: 'x' :: rest => String.ofList rest
  | _ => s

/-- **The bytes that a text spells**, with or without a marker. -/
def decode (s : String) : Except Fault (List UInt8) :=
  ofDigits (dropMarker s)

end LinearMemory.Hex
