import LinearMemory.Hex
import LinearMemory.Memory.Basic

/-!
# A dump of the store

The dump of a memory is a header with the length of the store, the store in rows of 32 bytes, and a
rule below it. Each row carries its number, in at least three digits. An empty store has a line of
its own in place of the rows.
-/

namespace LinearMemory.Memory

/-- How many bytes a row shows. -/
def rowBytes : Nat := 32

/-- The number of rows: the last one may be short. -/
def rowCount (m : Memory) : Nat :=
  (m.store.size + rowBytes - 1) / rowBytes

/-- A row's number, with zeros in front of it up to three digits. -/
def rowLabel (row : Nat) : String :=
  String.ofList ((Nat.toDigits 10 row).leftpad 3 '0')

/-- The bytes that a row shows. -/
def row (m : Memory) (i : Nat) : List UInt8 :=
  m.bytes (rowBytes * i) (rowBytes * i + rowBytes)

/-- The line of a row. -/
def rowLine (m : Memory) (i : Nat) : String :=
  rowLabel i ++ ": " ++ Hex.spaced (m.row i)

/-- The line above the rows. -/
def header (m : Memory) : String :=
  "### mem " ++ String.ofList (Nat.toDigits 10 m.store.size) ++ " bytes ###"

/-- The line below the rows. -/
def footer : String := "####################"

/-- The lines of a dump. -/
def dumpLines (m : Memory) : List String :=
  let rows := (List.range m.rowCount).map m.rowLine
  [m.header] ++ (if rows = [] then ["-- empty --"] else rows) ++ [footer]

/-- **The dump of a memory**: its lines, each with a line end. -/
def dump (m : Memory) : String :=
  String.join (m.dumpLines.map (· ++ "\n"))

end LinearMemory.Memory
