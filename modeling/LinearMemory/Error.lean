import LinearMemory.Fixture.Fault
import LinearMemory.Fixture.Mismatch
import LinearMemory.Hex
import LinearMemory.Memory.Basic

/-!
# Errors

The errors that reach a user of the library, each named for its cause, with two texts: `display`
for a reader and `debug`, which also names the kind of error.
-/

namespace LinearMemory

/-- **What can go wrong** short of a fatal stop. -/
inductive Error
  /-- A write was rejected. -/
  | rejected (rejection : Memory.Rejection)
  /-- A text is not hex. -/
  | hex (fault : Hex.Fault)
  /-- A document is no fixture. -/
  | fixture (fault : Fixture.Fault)
  /-- Reading or writing outside failed, for a reason of this kind and perhaps with a detail. -/
  | io (kind : String) (detail : Option String)
  /-- A memory did not do what a scenario expects. -/
  | unexpected (mismatch : Mismatch)
  /-- Any other cause, told in a text. -/
  | text (cause : String)
  deriving DecidableEq

namespace Error

/-- The wording of a failure outside. -/
def ioText (kind : String) : Option String → String
  | none => "Kind(" ++ kind ++ ")"
  | some detail => "Custom \x7b kind: " ++ kind ++ ", error: " ++ Text.quote detail ++ " \x7d"

/-- The text for a reader. -/
def display : Error → String
  | .rejected rejection => rejection.message
  | .hex fault => fault.message
  | .fixture fault => fault.message
  | .io kind detail => ioText kind detail
  | .unexpected mismatch => Text.quote mismatch.message
  | .text cause => Text.quote cause

/-- The text that names the kind of error too. -/
def debug : Error → String
  | .rejected rejection =>
    "MemoryEmpty \x7b size: " ++ toString rejection.size ++ ", len: " ++
      toString rejection.available ++ " \x7d"
  | .hex fault => "Hex(" ++ fault.message ++ ")"
  | .fixture fault => "Json(" ++ fault.message ++ ")"
  | .io kind detail => "IO(" ++ ioText kind detail ++ ")"
  | .unexpected mismatch => "Str(" ++ Text.quote mismatch.message ++ ")"
  | .text cause => "Str(" ++ Text.quote cause ++ ")"

end Error

end LinearMemory
