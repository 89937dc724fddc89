/-!
# Mismatches

What is told when a memory does not do what a scenario expects: which step it was, what was looked
at, what was found there and what was expected.
-/

namespace LinearMemory

/-- **What an expectation is about.** -/
inductive Aspect
  /-- Where an appended value went. -/
  | append
  /-- The value read at an offset. -/
  | read
  /-- The value looked at where it stands. -/
  | view
  /-- What an offset means. -/
  | normalize
  /-- The logical length at the end. -/
  | length
  /-- The size of the store at the end. -/
  | size
  deriving DecidableEq

/-- What an aspect is called. -/
def Aspect.name : Aspect → String
  | .append => "setBytes"
  | .read => "get"
  | .view => "getPtr"
  | .normalize => "normalizeOffset"
  | .length => "len"
  | .size => "memSize"

/-- **What was found or expected.** -/
inductive Finding
  /-- A number. -/
  | number (n : Nat)
  /-- A value, or none. -/
  | value (bytes : Option (List UInt8))
  deriving DecidableEq

/-- How a finding is shown. -/
def Finding.describe : Finding → String
  | .number n => toString n
  | .value none => "None"
  | .value (some bytes) => "Some([" ++ ", ".intercalate (bytes.map toString) ++ "])"

/-- **A mismatch.** -/
structure Mismatch where
  /-- The operation, counted from zero; their number stands for the end. -/
  step : Nat
  aspect : Aspect
  got : Finding
  want : Finding
  deriving DecidableEq

/-- The wording of a mismatch. -/
def Mismatch.message (m : Mismatch) : String :=
  "step " ++ toString m.step ++ " " ++ m.aspect.name ++ ": got " ++ m.got.describe ++ ", want " ++
    m.want.describe

end LinearMemory
