import LinearMemory.Hex
import LinearMemory.Json.Token

/-!
# The forms of a token

A token may be written in more than one way. Brackets, commas, words and integers have one form
each, but a character of a text can stand for itself, behind a backslash, as a code unit or as a
surrogate pair, and hex digits come in two cases. `Json.Token.Form` is any of these ways, and
`Json.LaidOut` is a list of tokens, each in some form, with blanks wherever there can be any.

The forms say nothing about how they are read. The writer uses one form of each token
(`Json.Token.form_octets`), and no blanks (`Json.laidOut_octets`).
-/

namespace LinearMemory.Json

/-! ### Characters -/

/-- **Four octets are the digits of a code unit**, the highest one first. -/
inductive UnitForm : Nat → List UInt8 → Prop
  | mk {a b c d : UInt8} {w x y z : Nat} (ha : Hex.digit? a = some w) (hb : Hex.digit? b = some x)
      (hc : Hex.digit? c = some y) (hd : Hex.digit? d = some z) :
      UnitForm (16 * (16 * (16 * w + x) + y) + z) [a, b, c, d]

/-- The short escapes: the character behind the backslash, and the one that it stands for. -/
def shortEscapes : List (Char × Char) :=
  [('"', '"'), ('\\', '\\'), ('/', '/'), ('b', '\x08'), ('f', '\x0c'), ('n', '\n'), ('r', '\r'),
    ('t', '\t')]

/-- **How a character may be written in a text.** -/
inductive CharForm : Char → List UInt8 → Prop
  /-- As itself, unless it is a quote, a backslash or a control. -/
  | plain {c : Char} (hquote : c ≠ '"') (hslash : c ≠ '\\') (hcontrol : 0x20 ≤ c.toNat) :
      CharForm c (String.utf8EncodeChar c)
  /-- By its short escape. -/
  | short {c e : Char} (hescape : (e, c) ∈ shortEscapes) : CharForm c [octet '\\', octet e]
  /-- By its code unit. -/
  | unit {c : Char} {digits : List UInt8} (hunit : UnitForm c.toNat digits) :
      CharForm c (octet '\\' :: octet 'u' :: digits)
  /-- By a surrogate pair, if it has one. -/
  | pair {c : Char} {high low : Nat} {first second : List UInt8} (hhigh : UnitForm high first)
      (hlow : UnitForm low second) (hfirst : 0xd800 ≤ high ∧ high < 0xdc00)
      (hsecond : 0xdc00 ≤ low ∧ low < 0xe000)
      (hpair : c.toNat = 0x10000 + 0x400 * (high - 0xd800) + (low - 0xdc00)) :
      CharForm c
        (octet '\\' :: octet 'u' :: (first ++ octet '\\' :: octet 'u' :: second))

/-- **How characters may be written in a text**, each in a form of its own. -/
inductive TextForm : List Char → List UInt8 → Prop
  | nil : TextForm [] []
  | cons {c : Char} {cs : List Char} {form rest : List UInt8} (hc : CharForm c form)
      (hcs : TextForm cs rest) : TextForm (c :: cs) (form ++ rest)

/-! ### Tokens -/

/-- **How a token may be written**: a text in any form between quotes, any other in its only
form. -/
inductive Token.Form : Token → List UInt8 → Prop
  | text {s : String} {inside : List UInt8} (h : TextForm s.toList inside) :
      Form (.text s) (octet '"' :: (inside ++ [octet '"']))
  | only {t : Token} (h : ∀ s, t ≠ .text s) : Form t t.octets

/-- **A list of tokens as it may be laid out**, with any number of blanks in front of each of them
and behind the last. -/
inductive LaidOut : List Token → List UInt8 → Prop
  | nil {blanks : List UInt8} (hblanks : ∀ b ∈ blanks, isBlank b = true) : LaidOut [] blanks
  | cons {t : Token} {ts : List Token} {blanks form rest : List UInt8}
      (hblanks : ∀ b ∈ blanks, isBlank b = true) (hform : t.Form form) (hrest : LaidOut ts rest) :
      LaidOut (t :: ts) (blanks ++ (form ++ rest))

/-! ### The form that the writer uses -/

theorem digit?_octet_digitChar : ∀ n < 16, Hex.digit? (octet (Nat.digitChar n)) = some n := by
  decide

/-- The writer escapes what has to be, and writes all else as it is. -/
theorem charForm_escape (c : Char) : CharForm c (Token.escape c) := by
  unfold Token.escape
  split
  · next hc =>
    refine .short ?_
    rcases hc with rfl | rfl <;> decide
  · next hc =>
    split
    · next hcontrol =>
      have hvalue : 16 * (16 * (16 * 0 + 0) + c.toNat / 16) + c.toNat % 16 = c.toNat := by omega
      have hunit := UnitForm.mk (digit?_octet_digitChar 0 (by decide))
        (digit?_octet_digitChar 0 (by decide)) (digit?_octet_digitChar (c.toNat / 16) (by omega))
        (digit?_octet_digitChar (c.toNat % 16) (by omega))
      rw [hvalue] at hunit
      exact .unit hunit
    · next hcontrol =>
      exact .plain (fun h => hc (Or.inl h)) (fun h => hc (Or.inr h)) (Nat.le_of_not_lt hcontrol)

theorem textForm_escape (cs : List Char) : TextForm cs (cs.flatMap Token.escape) := by
  induction cs with
  | nil => exact .nil
  | cons c rest ih => exact .cons (charForm_escape c) ih

/-- **The writer's octets are a form** of the token. -/
theorem Token.form_octets (t : Token) : t.Form t.octets := by
  cases t with
  | text s => exact .text (textForm_escape s.toList)
  | _ => exact .only fun s => by nofun

/-- Tokens without blanks are laid out. -/
theorem laidOut_octets (ts : List Token) : LaidOut ts (ts.flatMap Token.octets) := by
  have hnone : ∀ b ∈ ([] : List UInt8), isBlank b = true := fun b hb => absurd hb List.not_mem_nil
  induction ts with
  | nil => exact .nil hnone
  | cons t rest ih => exact .cons hnone t.form_octets ih

end LinearMemory.Json
