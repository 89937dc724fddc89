import LinearMemory.Text.Invisible

/-!
# Texts as octets and in quotes

Every text that the library reads or measures is measured in the octets of its UTF-8 form: hex
text is indexed by octets, and a fixture document is read one octet at a time. `utf8` writes the
octets of a text character by character, `ofUtf8?` reads them back and refuses an ill-formed
sequence, and `ofUtf8?_utf8` says that nothing is lost on the way.

Texts and characters quoted for a message stand between two delimiters. The common control
characters have a short escape, the delimiter and the backslash are preceded by a backslash, any
other character without a form of its own is shown by its code point, and all else stands for
itself. A text is delimited by `"`, a single character by `'`, and each escapes its own delimiter
only.
-/

namespace LinearMemory.Text

/-! ### Octets -/

/-- The octets of a text. -/
def utf8 (s : String) : List UInt8 :=
  s.toList.flatMap String.utf8EncodeChar

/-- The text of a sequence of octets, if they are well formed. -/
def ofUtf8? (octets : List UInt8) : Option String :=
  String.fromUTF8? ⟨octets.toArray⟩

theorem utf8_eq_toByteArray (s : String) : utf8 s = s.toByteArray.data.toList := by
  have h := s.utf8Encode_toList
  rw [← h]
  simp [utf8, List.utf8Encode]

/-- The octets of a text read back as that text. -/
@[simp] theorem ofUtf8?_utf8 (s : String) : ofUtf8? (utf8 s) = some s := by
  simp only [ofUtf8?, utf8_eq_toByteArray, Array.toArray_toList, String.fromUTF8?,
    dif_pos s.isValidUTF8]
  rfl

/-! ### Quotes -/

/-- A character shown by its code point, in lower-case hex digits without padding. -/
def codePoint (c : Char) : List Char :=
  ['\\', 'u', '\x7b'] ++ Nat.toDigits 16 c.toNat ++ ['\x7d']

/-- What is written for one character between two delimiters. -/
def escape (delimiter c : Char) : List Char :=
  if c = '\x00' then ['\\', '0']
  else if c = '\t' then ['\\', 't']
  else if c = '\n' then ['\\', 'n']
  else if c = '\r' then ['\\', 'r']
  else if c = delimiter ∨ c = '\\' then ['\\', c]
  else if isInvisible c then codePoint c
  else [c]

/-- Characters between two delimiters. -/
def enclose (delimiter : Char) (cs : List Char) : String :=
  String.ofList (delimiter :: cs.flatMap (escape delimiter) ++ [delimiter])

/-- A text between double quotes. -/
def quote (s : String) : String :=
  enclose '\x22' s.toList

/-- A character between single quotes. -/
def quoteChar (c : Char) : String :=
  enclose '\x27' [c]

end LinearMemory.Text
