import LinearMemory.Proofs.Memory.Rejection

/-!
# The journal tells what a memory is

A reader who has the lines of a journal, and neither the memory nor the calls, can keep a ledger:
the size, the logical length and the recorded lengths, all that is to be known of a memory but its
bytes. The ledger is right after every call, whether the call was carried out, rejected or stopped.

A line is taken for what it says. It is read back by looking for the runs of digits in it, guessing
the event, and holding the line of the guess against it (`Memory.Event.ofLine?_eq_some_iff`). So a
line tells its event, numbers and all, and nothing but a line of the journal is taken for one.

* `Memory.Call.events_of_growth?`, `Memory.Call.events_of_write?` and `Memory.Call.events_eq_nil`
  say what a call leaves in the journal.
* `Memory.Call.foldl_after_events` is the step: the ledger before a call and its events make the
  ledger after it. `Memory.Call.ofEvents_journal` is the same of a run.
* `Memory.journal_tells_memory` is the law, told of the lines.
-/

namespace LinearMemory.Memory

/-! ### Numbers in a line -/

/-- **The numbers in a text**: its runs of digits, from left to right, the first of which may have
begun before. -/
def numbersFrom (begun : Option Nat) : List Char → List Nat
  | [] => begun.toList
  | c :: rest =>
    if c.isDigit then numbersFrom (some (Nat.ofDigitChars 10 [c] (begun.getD 0))) rest
    else begun.toList ++ numbersFrom none rest

/-- Digits go to the number that has begun. -/
theorem numbersFrom_digits {digits : List Char} (hdigits : ∀ c ∈ digits, c.isDigit = true)
    (begun : Nat) (rest : List Char) :
    numbersFrom (some begun) (digits ++ rest) =
      numbersFrom (some (Nat.ofDigitChars 10 digits begun)) rest := by
  induction digits generalizing begun with
  | nil => rfl
  | cons c digits ih =>
    obtain ⟨hc, hdigits⟩ := List.forall_mem_cons.1 hdigits
    rw [List.cons_append, numbersFrom, if_pos hc, ih hdigits, Nat.ofDigitChars_cons]
    rfl

/-- A number is found where its digits stand. -/
theorem numbersFrom_toDigits (number : Nat) (rest : List Char) :
    numbersFrom none (Nat.toDigits 10 number ++ rest) = numbersFrom (some number) rest := by
  have hdigits : ∀ c ∈ Nat.toDigits 10 number, c.isDigit = true := fun c hc =>
    Nat.isDigit_of_mem_toDigits (by decide) (by decide) hc
  have hvalue : Nat.ofDigitChars 10 (Nat.toDigits 10 number) 0 = number :=
    Nat.ofDigitChars_ten_toDigits
  cases h : Nat.toDigits 10 number with
  | nil => exact absurd h Nat.toDigits_ne_nil
  | cons c digits =>
    rw [h] at hdigits hvalue
    obtain ⟨hc, hothers⟩ := List.forall_mem_cons.1 hdigits
    rw [List.cons_append, numbersFrom, if_pos hc, Option.getD_none, numbersFrom_digits hothers,
      ← Nat.ofDigitChars_append, List.singleton_append, hvalue]

/-- Words have no numbers, and end the one in front of them. -/
theorem numbersFrom_words {words : List Char} (hwords : ∀ c ∈ words, c.isDigit = false)
    (hne : words ≠ []) (begun : Option Nat) (rest : List Char) :
    numbersFrom begun (words ++ rest) = begun.toList ++ numbersFrom none rest := by
  induction words generalizing begun with
  | nil => exact absurd rfl hne
  | cons c words ih =>
    obtain ⟨hc, hwords⟩ := List.forall_mem_cons.1 hwords
    rw [List.cons_append, numbersFrom, if_neg (by rw [hc]; exact Bool.false_ne_true)]
    by_cases hnil : words = []
    · rw [hnil, List.nil_append]
    · rw [ih hwords hnil, Option.toList_none, List.nil_append]

namespace Event

/-! ### Reading a line -/

/-- What a line with these numbers may say. -/
def guesses : List Nat → List Event
  | [a, b] => [.growth a (UInt64.ofNat b), .rejection (UInt64.ofNat a) b]
  | [a, b, c] => [.acceptance (UInt64.ofNat a) (UInt64.ofNat b) c]
  | _ => []

/-- **The event that a line tells of**, from the line alone. -/
def ofLine? (line : String) : Option Event :=
  (guesses (numbersFrom none line.toList)).find? fun e => e.line = line

/-- **The parts of a wording**: words, and the number behind them. -/
def parts : Event → List (String × Nat)
  | .growth before after => [("mem.resize ", before), (" => ", after.toNat)]
  | .rejection size available => [("mem.set size=", size.toNat), (" exceeds mem size=", available)]
  | .acceptance offset size valueLength =>
    [("mem.set offset=", offset.toNat), (" size=", size.toNat), (" val.len=", valueLength)]

/-- The wording of an event is its parts, one behind the other. -/
theorem text_eq (e : Event) :
    e.text = e.parts.foldr (fun part rest => part.1 ++ (toString part.2 ++ rest)) "" := by
  cases e with
  | growth before after =>
    change "mem.resize " ++ toString before ++ " => " ++ toString after.toNat =
      "mem.resize " ++ (toString before ++ (" => " ++ (toString after.toNat ++ "")))
    simp only [String.append_assoc, String.append_empty]
  | rejection size available =>
    change "mem.set size=" ++ toString size.toNat ++ " exceeds mem size=" ++ toString available =
      "mem.set size=" ++ (toString size.toNat ++
        (" exceeds mem size=" ++ (toString available ++ "")))
    simp only [String.append_assoc, String.append_empty]
  | acceptance offset size valueLength =>
    change "mem.set offset=" ++ toString offset.toNat ++ " size=" ++ toString size.toNat ++
        " val.len=" ++ toString valueLength =
      "mem.set offset=" ++ (toString offset.toNat ++ (" size=" ++ (toString size.toNat ++
        (" val.len=" ++ (toString valueLength ++ "")))))
    simp only [String.append_assoc, String.append_empty]

/-- A number ends where the words of the next part begin. -/
theorem numbersFrom_foldr {parts : List (String × Nat)}
    (hparts : ∀ part ∈ parts, (∀ c ∈ part.1.toList, c.isDigit = false) ∧ part.1.toList ≠ [])
    (begun : Option Nat) :
    numbersFrom begun
        (parts.foldr (fun part rest => part.1 ++ (toString part.2 ++ rest)) "").toList =
      begun.toList ++ parts.map Prod.snd := by
  induction parts generalizing begun with
  | nil => exact (List.append_nil _).symm
  | cons part parts ih =>
    obtain ⟨⟨hwords, hne⟩, hrest⟩ := List.forall_mem_cons.1 hparts
    rw [List.foldr_cons, String.toList_append, String.toList_append, Nat.toString_eq_repr,
      Nat.toList_repr, numbersFrom_words hwords hne, numbersFrom_toDigits, ih hrest]
    rfl

theorem toList_line (e : Event) :
    e.line.toList = e.level.name.toList ++ (' ' :: e.text.toList) := by
  rw [line, String.toList_append, String.toList_append, List.append_assoc]
  rfl

/-- No character of some is a digit, as all of them can be looked at. -/
theorem not_isDigit_of_all {cs : List Char} (h : cs.all (fun c => !c.isDigit) = true) :
    ∀ c ∈ cs, c.isDigit = false := by
  intro c hc
  have hnot := List.all_eq_true.1 h c hc
  rwa [Bool.not_eq_true'] at hnot

/-- **The numbers in a line** are those of its wording. -/
theorem numbersFrom_line (e : Event) : numbersFrom none e.line.toList = e.parts.map Prod.snd := by
  have hopening : ∀ c ∈ e.level.name.toList ++ [' '], c.isDigit = false := by
    cases e.level with
    | error => exact not_isDigit_of_all rfl
    | debug => exact not_isDigit_of_all rfl
    | trace => exact not_isDigit_of_all rfl
  have hparts : ∀ part ∈ e.parts,
      (∀ c ∈ part.1.toList, c.isDigit = false) ∧ part.1.toList ≠ [] := by
    cases e with
    | growth before after =>
      simp only [parts, List.forall_mem_cons]
      exact ⟨⟨not_isDigit_of_all rfl, nofun⟩, ⟨not_isDigit_of_all rfl, nofun⟩,
        List.forall_mem_nil _⟩
    | rejection size available =>
      simp only [parts, List.forall_mem_cons]
      exact ⟨⟨not_isDigit_of_all rfl, nofun⟩, ⟨not_isDigit_of_all rfl, nofun⟩,
        List.forall_mem_nil _⟩
    | acceptance offset size valueLength =>
      simp only [parts, List.forall_mem_cons]
      exact ⟨⟨not_isDigit_of_all rfl, nofun⟩, ⟨not_isDigit_of_all rfl, nofun⟩,
        ⟨not_isDigit_of_all rfl, nofun⟩, List.forall_mem_nil _⟩
  rw [toList_line, List.append_cons, numbersFrom_words hopening (by simp), text_eq,
    numbersFrom_foldr hparts]
  rfl

/-- Events of different levels have different lines. -/
theorem line_ne {e e' : Event} (h : e.level.name.toList.head? ≠ e'.level.name.toList.head?) :
    e.line ≠ e'.line := by
  have hhead (e : Event) : e.line.toList.head? = e.level.name.toList.head? := by
    rw [toList_line]
    cases e.level <;> rfl
  intro heq
  exact h (by rw [← hhead, ← hhead, heq])

/-- **A line is read back, and nothing else is taken for one.** -/
theorem ofLine?_eq_some_iff {line : String} {e : Event} :
    ofLine? line = some e ↔ e.line = line := by
  constructor
  · intro h
    have hline := List.find?_some h
    exact of_decide_eq_true hline
  · rintro rfl
    rw [ofLine?, numbersFrom_line]
    cases e with
    | growth before after =>
      simp only [parts, List.map_cons, List.map_nil, guesses, UInt64.ofNat_toNat]
      exact List.find?_cons_of_pos (decide_eq_true rfl)
    | rejection size available =>
      have hne : (growth size.toNat (UInt64.ofNat available)).line ≠
          (rejection size available).line := by
        have hfirst : "DEBUG".toList.head? ≠ "ERROR".toList.head? := by decide
        exact line_ne hfirst
      simp only [parts, List.map_cons, List.map_nil, guesses, UInt64.ofNat_toNat]
      rw [List.find?_cons_of_neg (by rwa [decide_eq_true_eq])]
      exact List.find?_cons_of_pos (decide_eq_true rfl)
    | acceptance offset size valueLength =>
      simp only [parts, List.map_cons, List.map_nil, guesses, UInt64.ofNat_toNat]
      exact List.find?_cons_of_pos (decide_eq_true rfl)

end Event

/-! ### Keeping a ledger -/

/-- The ledger after one more line. A line that is none of a journal makes no difference. -/
def Ledger.afterLine (ledger : Ledger) (line : String) : Ledger :=
  match Event.ofLine? line with
  | some e => ledger.after e
  | none => ledger

/-- **The ledger that lines tell of**, from an untouched memory on. -/
def Ledger.ofLines (lines : List String) : Ledger :=
  lines.foldl afterLine empty

/-- **The line of an event is as good as the event.** -/
@[simp] theorem Ledger.afterLine_line (ledger : Ledger) (e : Event) :
    ledger.afterLine e.line = ledger.after e := by
  rw [afterLine, Event.ofLine?_eq_some_iff.mpr rfl]

@[simp] theorem Ledger.ofLines_map_line (events : List Event) :
    ofLines (events.map Event.line) = ofEvents events := by
  rw [ofLines, ofEvents, List.foldl_map]
  simp only [afterLine_line]

/-- What an acceptance says of the size and of the value may be zero. -/
theorem Ledger.after_acceptance (ledger : Ledger) (offset size : UInt64) (valueLength : Nat) :
    ledger.after (.acceptance offset size valueLength) =
      ⟨ledger.size, ledger.length + UInt64.ofNat (max size.toNat 1),
        ledger.index.insert offset (if size = 0 then 0 else valueLength)⟩ := by
  have hadvance : UInt64.ofNat (max size.toNat 1) = if size = 0 then 1 else size :=
    Write.ofNat_advance ⟨offset, size, []⟩
  rw [hadvance, after]
  split <;> rfl

/-- How far an event moves the logical length. -/
def Event.advance : Event → Nat
  | .acceptance _ size _ => max size.toNat 1
  | _ => 0

/-- The advances of events add up, as words. -/
theorem Ledger.length_foldl_after (ledger : Ledger) (events : List Event) :
    (events.foldl after ledger).length =
      ledger.length + UInt64.ofNat (events.map Event.advance).sum := by
  induction events generalizing ledger with
  | nil => exact (UInt64.add_zero _).symm
  | cons e events ih =>
    have hstep : (ledger.after e).length = ledger.length + UInt64.ofNat e.advance := by
      cases e with
      | growth before after =>
        rw [Ledger.after]
        split <;> exact (UInt64.add_zero _).symm
      | rejection size available => exact (UInt64.add_zero _).symm
      | acceptance offset size valueLength => rw [after_acceptance, Event.advance]
    rw [List.foldl_cons, ih, hstep, List.map_cons, List.sum_cons, UInt64.ofNat_add,
      UInt64.add_assoc]

namespace Call

variable {m : Memory} {call : Call} {size : UInt64}

/-! ### What a call leaves in the journal -/

/-- **The events of a run**, in order. -/
def journal (m : Memory) : List Call → List Event
  | [] => []
  | call :: rest => (perform m call).events ++ journal (perform m call).memory rest

/-- Growth is told of, whether it takes place or not, unless the store is as long already. -/
theorem events_of_growth? (hg : call.growth? = some size) :
    (perform m call).events = if m.size < size.toNat then [.growth m.size size] else [] := by
  cases call with
  | resize size' =>
    cases hg
    rcases hr : m.resize size with cause | next
    · rw [perform_resize_of_error hr]
      exact events_resizing m size
    · rw [perform_resize_of_ok hr]
      exact events_resizing m size
  | _ => cases hg

/-- **A write leaves one event**, an acceptance or a rejection. -/
theorem events_of_write? {w : Write} (hw : call.write? m.length = some w) :
    (perform m call).events =
      if m.size < w.size.toNat then [.rejection w.size m.size]
      else [.acceptance w.offset w.size w.value.length] := by
  rw [events_perform_of_write? hw]
  exact events_writing m w.offset w.size w.value

/-- A call that neither grows nor writes leaves nothing in the journal. -/
theorem events_eq_nil (hg : call.growth? = none) (hw : call.write? m.length = none) :
    (perform m call).events = [] := by
  cases call with
  | resize size => cases hg
  | write | tryWrite | append | tryAppend => cases hw
  | _ => rfl

/-! ### The ledger of a memory -/

/-- Growth as the ledger has it. -/
theorem ledger_of_resize {next : Memory} (hok : m.resize size = .ok next) :
    next.ledger = ⟨max m.size size.toNat, m.length, m.index⟩ := by
  obtain ⟨-, hlength, hindex⟩ := resize_ok hok
  have hsize : next.store.size = max m.size size.toNat := size_of_resize hok
  rw [ledger, hsize, hlength, hindex]

/-- An accepted write as the ledger has it. -/
theorem ledger_of_put {next : Memory} {w : Write} (hok : m.put w = .ok next) :
    next.ledger = m.ledger.after (.acceptance w.offset w.size w.value.length) := by
  rw [put, Memory.tryWrite, Memory.writing] at hok
  rw [Ledger.after]
  split at hok
  · cases hok
  split at hok
  · next hzero =>
    cases hok
    rw [if_pos hzero]
    rfl
  · next hpos =>
    cases hok
    rw [if_neg hpos, ledger, Ledger.mk.injEq]
    exact ⟨size_overwrite .., rfl, rfl⟩

/-- **One call**: the ledger before it and its events make the ledger after it. -/
theorem foldl_after_events (m : Memory) (call : Call) :
    (perform m call).events.foldl Ledger.after m.ledger = (perform m call).memory.ledger := by
  cases hg : call.growth? with
  | some size =>
    rw [events_of_growth? hg]
    rcases perform_growth hg with ⟨hlt, hok⟩ | ⟨hcap, hkeep⟩
    · rw [ledger_of_resize hok]
      split
      · next hshort =>
        rw [List.foldl_cons, List.foldl_nil, Ledger.after, if_pos hlt,
          Nat.max_eq_right (Nat.le_of_lt hshort)]
        rfl
      · next henough =>
        rw [List.foldl_nil, Nat.max_eq_left (Nat.le_of_not_lt henough)]
        rfl
    · -- The growth is told of, and does not take place.
      have hshort : m.size < size.toNat := Nat.lt_of_lt_of_le m.size_lt hcap
      rw [hkeep, if_pos hshort, List.foldl_cons, List.foldl_nil, Ledger.after,
        if_neg (Nat.not_lt_of_le hcap)]
  | none =>
    cases hw : call.write? m.length with
    | some w =>
      rw [events_of_write? hw]
      rcases perform_write hw with ⟨hle, hok, -⟩ | ⟨hlt, hkeep, -⟩
      · rw [if_neg (Nat.not_lt_of_le hle), List.foldl_cons, List.foldl_nil, ledger_of_put hok]
      · rw [if_pos hlt, hkeep]
        rfl
    | none => rw [events_eq_nil hg hw, memory_perform_eq_self hg hw, List.foldl_nil]

/-- **A run**: the ledger at its start and its journal make the ledger at its end. -/
theorem foldl_after_journal (m : Memory) (calls : List Call) :
    (journal m calls).foldl Ledger.after m.ledger = (run m calls).ledger := by
  induction calls generalizing m with
  | nil => rfl
  | cons call rest ih => simp [journal, foldl_after_events, ih]

theorem ofEvents_journal (calls : List Call) :
    Ledger.ofEvents (journal .empty calls) = (run .empty calls).ledger :=
  foldl_after_journal .empty calls

/-- The journal of a run begins with the journal of each part that it begins with. -/
@[simp] theorem journal_append (m : Memory) (before behind : List Call) :
    journal m (before ++ behind) = journal m before ++ journal (run m before) behind := by
  induction before generalizing m with
  | nil => rfl
  | cons call rest ih => simp [journal, ih]

end Call

/-! ### The law -/

/-- **The journal tells what a memory is.** On every run from the empty memory:

* the ledger that is kept from the lines of the journal alone has the size, the logical length and
  every recorded length of the memory, after each of the calls: the journal goes on with the run and
  takes nothing back. The logical length is the sum of the advances told of, if this is a word;
* a request to grow is told of with the size that the store has, if it is short of the new one. From
  `2 ^ 63` bytes on it stops and the memory stays as it is;
* a request to write leaves one event, with the size of the store if it is rejected, and then the
  memory stays as it is. No other call leaves any;
* to a reader of lines, growth below `2 ^ 63` bytes sets the size, an acceptance moves the length by
  its size but by one at least and records the length of the value, or zero for the size zero, and
  a rejection changes nothing. -/
theorem journal_tells_memory (calls : List Call) :
    ((Ledger.ofLines ((Call.journal .empty calls).map Event.line)).size =
          (Call.run .empty calls).size ∧
        (Ledger.ofLines ((Call.journal .empty calls).map Event.line)).length =
          (Call.run .empty calls).length ∧
        (∀ offset, (Ledger.ofLines ((Call.journal .empty calls).map Event.line)).index[offset]? =
          (Call.run .empty calls).written? offset) ∧
        (((Call.journal .empty calls).map Event.advance).sum < 2 ^ 64 →
          (Call.run .empty calls).length.toNat =
            ((Call.journal .empty calls).map Event.advance).sum)) ∧
      (∀ call, Call.journal .empty (calls ++ [call]) =
        Call.journal .empty calls ++ (Call.perform (Call.run .empty calls) call).events) ∧
      (∀ (m : Memory) (size : UInt64),
        (Call.perform m (.resize size)).events =
            (if m.size < size.toNat then [.growth m.size size] else []) ∧
          (2 ^ 63 ≤ size.toNat → (Call.perform m (.resize size)).memory = m ∧
            (Call.perform m (.resize size)).reply = .stopped .capacityOverflow)) ∧
      (∀ (m : Memory) call w, Call.write? m.length call = some w →
        (Call.perform m call).events =
            (if m.size < w.size.toNat then [.rejection w.size m.size]
              else [.acceptance w.offset w.size w.value.length]) ∧
          (m.size < w.size.toNat → (Call.perform m call).memory = m)) ∧
      (∀ (m : Memory) call, call.growth? = none → Call.write? m.length call = none →
        (Call.perform m call).events = []) ∧
      ∀ ledger : Ledger,
        (∀ before size, ledger.afterLine (Event.growth before size).line =
          if size.toNat < 2 ^ 63 then ⟨size.toNat, ledger.length, ledger.index⟩ else ledger) ∧
        (∀ offset size valueLength,
          ledger.afterLine (Event.acceptance offset size valueLength).line =
            ⟨ledger.size, ledger.length + UInt64.ofNat (max size.toNat 1),
              ledger.index.insert offset (if size = 0 then 0 else valueLength)⟩) ∧
        ∀ size available, ledger.afterLine (Event.rejection size available).line = ledger := by
  have hledger : Ledger.ofLines ((Call.journal .empty calls).map Event.line) =
      (Call.run .empty calls).ledger := by
    rw [Ledger.ofLines_map_line, Call.ofEvents_journal]
  have hlength : (Call.run .empty calls).length =
      UInt64.ofNat ((Call.journal .empty calls).map Event.advance).sum := by
    have hsum := Ledger.length_foldl_after Ledger.empty (Call.journal .empty calls)
    have hend : (Call.journal .empty calls).foldl Ledger.after Ledger.empty =
        (Call.run .empty calls).ledger := Call.ofEvents_journal calls
    rw [hend] at hsum
    exact hsum.trans (UInt64.zero_add _)
  refine ⟨?_, fun call => ?_, fun m size => ⟨Call.events_of_growth? rfl, fun hcap => ?_⟩,
    fun m call w hw => ⟨Call.events_of_write? hw, fun hlt => ?_⟩,
    fun m call hg hw => Call.events_eq_nil hg hw, fun ledger => ?_⟩
  · rw [hledger]
    refine ⟨rfl, rfl, fun _ => rfl, fun hlt => ?_⟩
    rw [hlength, UInt64.toNat_ofNat', Nat.mod_eq_of_lt hlt]
  · rw [Call.journal_append, Call.journal, Call.journal, List.append_nil]
  · have hreply := Call.reply_resize m size
    rw [if_pos hcap] at hreply
    exact ⟨Call.memory_of_isRefusal (by rw [hreply]; rfl), hreply⟩
  · rcases Call.perform_write hw with ⟨hle, -, -⟩ | ⟨-, hkeep, -⟩
    · exact absurd hlt (Nat.not_lt_of_le hle)
    · exact hkeep
  · simp only [Ledger.afterLine_line]
    exact ⟨fun _ _ => rfl, fun offset size valueLength => ledger.after_acceptance offset size _,
      fun _ _ => rfl⟩

/-- A run that leaves every kind of line: growth, a write, a rejection, an append, growth that stops
and an empty write, and among them a read and a growth to less than there is. -/
def Call.everyLine : List Call :=
  [.resize 4, .write 1 2 [7, 8, 9], .tryWrite 0 5 [1], .read 1, .append [6], .resize 2,
    .resize 0x8000000000000000, .tryWrite 1 0 [5]]

/-- The law at work: six lines, and the ledger that is kept from them. -/
theorem journal_tells_memory_everyLine :
    (Call.journal .empty Call.everyLine).map Event.line =
        ["DEBUG mem.resize 0 => 4", "TRACE mem.set offset=1 size=2 val.len=3",
          "ERROR mem.set size=5 exceeds mem size=4", "TRACE mem.set offset=2 size=1 val.len=1",
          "DEBUG mem.resize 4 => 9223372036854775808", "TRACE mem.set offset=1 size=0 val.len=1"] ∧
      ((Call.journal .empty Call.everyLine).map Event.advance).sum < 2 ^ 64 ∧
      (Call.run .empty Call.everyLine).length.toNat = 4 ∧
      (Ledger.ofLines ((Call.journal .empty Call.everyLine).map Event.line)).size = 4 ∧
      (Ledger.ofLines ((Call.journal .empty Call.everyLine).map Event.line)).index[(1 : UInt64)]? =
        some 0 := by
  have hlt : ((Call.journal .empty Call.everyLine).map Event.advance).sum < 2 ^ 64 := by decide
  obtain ⟨⟨hsize, -, hwritten, hlength⟩, -⟩ := journal_tells_memory Call.everyLine
  refine ⟨by decide, hlt, (hlength hlt).trans (by decide), hsize.trans (by decide),
    (hwritten 1).trans (by decide)⟩

end LinearMemory.Memory
