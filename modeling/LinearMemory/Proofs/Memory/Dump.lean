import LinearMemory.Memory.Dump
import LinearMemory.Proofs.Hex.Digits
import LinearMemory.Proofs.Memory.Address

/-!
# A dump shows the store and nothing else

A dump is made for a reader who has nothing but its text, so that is how it is judged here: the text
is cut at its line ends, the label of a row ends at the first colon, and the pairs behind it are
taken one by one. What is read this way is the store, byte for byte.

Nothing in it depends on how wide a label is. A label has three digits up to row 999 and more from
there on, but digits are no colons, so the first colon of a row is the one behind its label.

* `Memory.readRow?_rowLine` reads one row.
* `Memory.flatMap_row` puts the rows together: each byte of the store stands in exactly one of them.
* `Memory.readDump?_dump` reads a whole dump.
* `Memory.dump_shows_store` is what a dump says, and that it tells any two stores apart.
-/

namespace LinearMemory

/-! ### Lines of a text -/

/-- The pieces that a text is cut into by its line ends. What is behind the last line end is a piece
as well, an empty one if the text ends there. -/
def Text.pieces (text : String) : List String :=
  (text.toList.splitOn '\n').map String.ofList

/-- **Lines are read back** from the text that they were put into, if no line has a line end of its
own. -/
theorem Text.pieces_join {lines : List String} (hlines : ∀ line ∈ lines, '\n' ∉ line.toList) :
    Text.pieces (String.join (lines.map (· ++ "\n"))) = lines ++ [""] := by
  -- Each line has a line end behind it, so one stands between any two pieces.
  have htext : ∀ ls : List String, (String.join (ls.map (· ++ "\n"))).toList =
      ['\n'].intercalate ((ls ++ [""]).map String.toList) := by
    intro ls
    rw [String.toList_join]
    induction ls with
    | nil => rfl
    | cons line rest ih =>
      have hne : (rest ++ [""]).map String.toList ≠ [] := by simp
      rw [List.map_cons, List.flatMap_cons, ih, String.toList_append, List.cons_append,
        List.map_cons, List.intercalate_cons_of_ne_nil hne]
      simp
  rw [pieces, htext, List.splitOn_intercalate, List.map_map]
  · have hid : String.ofList ∘ String.toList = id := funext fun _ => String.ofList_toList
    rw [hid, List.map_id]
  · intro l hl
    obtain ⟨line, hline, rfl⟩ := List.mem_map.mp hl
    rcases List.mem_append.mp hline with hline | hline
    · exact hlines line hline
    · rw [List.mem_singleton.mp hline]
      exact List.not_mem_nil
  · simp

namespace Memory

variable (m : Memory)

/-! ### One row -/

/-- What a reader takes from the line of a row: the label up to the first colon, and the bytes that
the pairs behind the colon and a blank spell. -/
def readRow? (line : String) : Option (String × List UInt8) :=
  let label := line.toList.takeWhile (· ≠ ':')
  match line.toList.drop label.length with
  | ':' :: ' ' :: body => (Hex.ofSpaced? body).map fun bytes => (String.ofList label, bytes)
  | _ => none

/-- The digits of a label: as many zeros as are missing to three digits, then the number. -/
@[simp]
theorem toList_rowLabel (i : Nat) : (rowLabel i).toList = (Nat.toDigits 10 i).leftpad 3 '0' := by
  rw [rowLabel, String.toList_ofList]

/-- A label has digits only. -/
theorem isDigit_of_mem_rowLabel {i : Nat} {c : Char} (hc : c ∈ (rowLabel i).toList) :
    c.isDigit = true := by
  rw [toList_rowLabel, List.leftpad, List.mem_append] at hc
  rcases hc with hzero | hdigit
  · rw [List.eq_of_mem_replicate hzero]
    decide
  · exact Nat.isDigit_of_mem_toDigits (by decide) (by decide) hdigit

/-- **A label says which row it is**, whatever its width: zeros in front do not count. -/
theorem ofDigitChars_rowLabel (i : Nat) : Nat.ofDigitChars 10 (rowLabel i).toList 0 = i := by
  have hzeros : ∀ n, Nat.ofDigitChars 10 (List.replicate n '0') 0 = 0 := by
    intro n
    induction n with
    | zero => rfl
    | succ n ih =>
      rw [List.replicate_succ, Nat.ofDigitChars_cons]
      exact ih
  rw [toList_rowLabel, List.leftpad, Nat.ofDigitChars_append, hzeros, Nat.ofDigitChars_ten_toDigits]

theorem three_le_length_rowLabel (i : Nat) : 3 ≤ (rowLabel i).length := by
  rw [← String.length_toList, toList_rowLabel, List.length_leftpad]
  omega

/-- The number of rows in numbers: the last row may be short. -/
theorem rowCount_eq : m.rowCount = (m.size + 31) / 32 := rfl

theorem row_eq_bytes (i : Nat) : m.row i = m.bytes (32 * i) (32 * i + 32) := rfl

theorem row_ne_nil {i : Nat} (hi : i < m.rowCount) : m.row i ≠ [] := by
  refine List.ne_nil_of_length_pos ?_
  rw [rowCount_eq] at hi
  rw [row_eq_bytes, length_bytes]
  omega

/-- **A row is read back**: its label and its bytes. -/
theorem readRow?_rowLine {i : Nat} (hi : i < m.rowCount) :
    readRow? (m.rowLine i) = some (rowLabel i, m.row i) := by
  have hline : (m.rowLine i).toList =
      (rowLabel i).toList ++ ':' :: ' ' :: (Hex.spaced (m.row i)).toList := by
    rw [rowLine, String.toList_append, String.toList_append, List.append_assoc]
    rfl
  have hlabel : (m.rowLine i).toList.takeWhile (· ≠ ':') = (rowLabel i).toList := by
    rw [hline, List.takeWhile_append_of_pos]
    · simp
    · intro c hc
      have hdigit := isDigit_of_mem_rowLabel hc
      refine decide_eq_true ?_
      rintro rfl
      exact absurd hdigit (by decide)
  rw [readRow?, hlabel, hline, List.drop_left]
  simp only [Hex.ofSpaced?_spaced (m.row_ne_nil hi), Option.map_some, String.ofList_toList]

/-- A label may be wider than three digits, and a line with two blanks between its pairs is no
row. -/
example : ["1000: 00 ff", "007: 0f  ff"].map readRow? = [some ("1000", [0, 255]), none] := by
  decide

/-! ### All rows -/

/-- **The rows put together** are the store: `n` of them are its first `32 * n` bytes. -/
theorem flatMap_row (n : Nat) : (List.range n).flatMap m.row = m.store.toList.take (32 * n) := by
  induction n with
  | zero => rfl
  | succ n ih =>
    have hrow : m.row n = (m.store.toList.drop (32 * n)).take 32 := by
      rw [row_eq_bytes, bytes, Array.toList_extract, List.extract_eq_take_drop,
        Nat.add_sub_cancel_left]
    rw [List.range_succ, List.flatMap_append, List.flatMap_singleton, ih, hrow, Nat.mul_succ,
      List.take_add]

theorem flatMap_row_rowCount : (List.range m.rowCount).flatMap m.row = m.store.toList := by
  rw [flatMap_row, List.take_of_length_le]
  rw [Array.length_toList, rowCount_eq]
  change m.size ≤ _
  omega

/-- Rows are read one by one, as far as there are rows. -/
theorem mapM_readRow? {numbers : List Nat} (hnumbers : ∀ i ∈ numbers, i < m.rowCount) :
    (numbers.map m.rowLine).mapM readRow? =
      some (numbers.map fun i => (rowLabel i, m.row i)) := by
  induction numbers with
  | nil => rfl
  | cons i rest ih =>
    have hi : i < m.rowCount := hnumbers i List.mem_cons_self
    have hrest : ∀ j ∈ rest, j < m.rowCount := fun j hj => hnumbers j (List.mem_cons_of_mem i hj)
    rw [List.map_cons, List.mapM_cons, m.readRow?_rowLine hi, ih hrest]
    rfl

/-- The lines of the rows. -/
def rowLines : List String :=
  (List.range m.rowCount).map m.rowLine

theorem mapM_readRow?_rowLines :
    m.rowLines.mapM readRow? = some ((List.range m.rowCount).map fun i => (rowLabel i, m.row i)) :=
  m.mapM_readRow? fun _ => List.mem_range.mp

/-! ### The whole text -/

/-- No line of a dump has a line end in it. -/
theorem not_mem_of_mem_dumpLines {line : String} (hline : line ∈ m.dumpLines) :
    '\n' ∉ line.toList := by
  rw [dumpLines, List.mem_append, List.mem_append, List.mem_singleton, List.mem_singleton] at hline
  rcases hline with (rfl | hrows) | rfl
  · rw [header, String.toList_append, String.toList_append, List.mem_append, List.mem_append]
    rintro ((hc | hc) | hc)
    · exact absurd hc (by decide)
    · rw [String.toList_ofList] at hc
      have hdigit : '\n'.isDigit = true := Nat.isDigit_of_mem_toDigits (by decide) (by decide) hc
      exact absurd hdigit (by decide)
    · exact absurd hc (by decide)
  · split at hrows
    · rw [List.mem_singleton.mp hrows]
      decide
    · obtain ⟨i, -, rfl⟩ := List.mem_map.mp hrows
      rw [rowLine, String.toList_append, String.toList_append, List.mem_append, List.mem_append]
      rintro ((hc | hc) | hc)
      · exact absurd (isDigit_of_mem_rowLabel hc) (by decide)
      · exact absurd hc (by decide)
      · exact Hex.forall_mem_spaced (p := (· ≠ '\n')) (by decide) (by decide) _ _ hc rfl
  · decide

theorem rowLines_eq_nil_iff : m.rowLines = [] ↔ m.size = 0 := by
  rw [rowLines, List.map_eq_nil_iff, List.range_eq_nil, rowCount_eq]
  omega

/-- **What a dump is cut into**: the line above, the rows or the line in their place, and the line
below. -/
theorem pieces_dump :
    Text.pieces m.dump =
      [m.header] ++ (if m.size = 0 then ["-- empty --"] else m.rowLines) ++ [footer, ""] := by
  rw [dump, Text.pieces_join fun line hline => m.not_mem_of_mem_dumpLines hline]
  change [m.header] ++ (if m.rowLines = [] then _ else m.rowLines) ++ [footer] ++ [""] = _
  simp only [rowLines_eq_nil_iff, List.append_assoc]
  rfl

/-- The store that a dump shows, taken from its text alone: the rows are between the first line and
the last one, and if there is a mark in their place the store is empty. -/
def readDump? (text : String) : Option (List UInt8) :=
  let rows := (Text.pieces text).tail.dropLast.dropLast
  match rows.mapM readRow? with
  | some shown => some (shown.flatMap Prod.snd)
  | none => if rows = ["-- empty --"] then some [] else none

theorem flatMap_shown :
    ((List.range m.rowCount).map fun i => (rowLabel i, m.row i)).flatMap Prod.snd =
      m.store.toList := by
  rw [List.flatMap_map]
  exact m.flatMap_row_rowCount

/-- **A dump is read back**: its text alone gives the whole store. -/
theorem readDump?_dump : readDump? m.dump = some m.store.toList := by
  have hrows : (Text.pieces m.dump).tail.dropLast.dropLast =
      if m.size = 0 then ["-- empty --"] else m.rowLines := by
    rw [pieces_dump, List.append_assoc, List.singleton_append, List.tail_cons,
      List.dropLast_append_of_ne_nil (List.cons_ne_nil _ _)]
    exact List.dropLast_concat
  rw [readDump?, hrows]
  by_cases hsize : m.size = 0
  · have hstore : m.store.toList = [] := List.eq_nil_of_length_eq_zero hsize
    have hmark : ["-- empty --"].mapM readRow? = none := by decide
    rw [if_pos hsize, hstore]
    simp only [hmark]
    rfl
  · rw [if_neg hsize]
    simp only [mapM_readRow?_rowLines, flatMap_shown]

/-- A dump shows the store only: the logical length and the index do not appear in it. -/
theorem dump_congr {n : Memory} (hstore : m.store = n.store) : m.dump = n.dump := by
  have hline : m.rowLine = n.rowLine := by
    funext i
    rw [rowLine, rowLine, row, row, bytes, bytes, hstore]
  rw [dump, dump, dumpLines, dumpLines, header, header, rowCount, rowCount, hline, hstore]

/-- The last row ends where the store does. -/
theorem row_eq_bytes_min (i : Nat) : m.row i = m.bytes (32 * i) (min (32 * i + 32) m.size) := by
  ext j : 1
  rw [row_eq_bytes, getElem?_bytes, getElem?_bytes]
  by_cases hj : 32 * i + j < m.size
  · simp [hj]
  · have hnone : m.store[32 * i + j]? = none := Array.getElem?_eq_none (Nat.le_of_not_lt hj)
    rw [hnone, ite_self, ite_self]

/-- **A dump is the store in another form.** Cut at its line ends, the text of every dump is

* the line above, with the length of the store in it;
* the mark for an empty store, or as many rows as it takes to show `32` bytes in each;
* the line below, with a line end behind it and nothing more.

Row `i` has the label `i`, in decimal and with zeros in front up to three digits, and the pairs
behind the label spell the bytes from `32 * i` up to the next row or the end of the store. The bytes
of all rows together are the store, and two memories have the same dump if and only if they have the
same store. -/
theorem dump_shows_store (m : Memory) :
    ∃ rows : List String,
      Text.pieces m.dump =
        ["### mem " ++ toString m.size ++ " bytes ###"] ++
          (if m.size = 0 then ["-- empty --"] else rows) ++ ["####################", ""] ∧
      rows.length = (m.size + 31) / 32 ∧
      (∀ (i : Nat) (hi : i < rows.length), ∃ label : String,
        readRow? rows[i] = some (label, m.bytes (32 * i) (min (32 * i + 32) m.size)) ∧
        label.toList = (Nat.toDigits 10 i).leftpad 3 '0' ∧ 3 ≤ label.length ∧
        Nat.ofDigitChars 10 label.toList 0 = i) ∧
      (∃ shown, rows.mapM readRow? = some shown ∧ shown.flatMap Prod.snd = m.store.toList) ∧
      ∀ n : Memory, m.dump = n.dump ↔ m.store = n.store := by
  have hlength : m.rowLines.length = m.rowCount := by
    rw [rowLines, List.length_map, List.length_range]
  refine ⟨m.rowLines, m.pieces_dump, hlength, ?_, ?_, ?_⟩
  · intro i hi
    refine ⟨rowLabel i, ?_, toList_rowLabel i, three_le_length_rowLabel i, ofDigitChars_rowLabel i⟩
    have hline : m.rowLines[i] = m.rowLine i := by simp [rowLines]
    rw [hline, m.readRow?_rowLine (hlength ▸ hi), row_eq_bytes_min]
  · exact ⟨_, m.mapM_readRow?_rowLines, m.flatMap_shown⟩
  · intro n
    constructor
    · intro hdump
      have hread := m.readDump?_dump
      rw [hdump, readDump?_dump, Option.some.injEq] at hread
      exact (Array.toList_inj.mp hread).symm
    · exact m.dump_congr

end Memory

end LinearMemory
