import LinearMemory.Proofs.Memory.Length
import LinearMemory.Proofs.Memory.Rejection

/-!
# Every step stays within its bounds

The operations on a memory cannot go wrong as they are told: where more is taken away than there is,
nothing is left, a byte that is put behind the end of the store is dropped, of a part that the store
does not have only what there is is shown, and a logical length that goes past the last word comes
round. A machine is less kind. It stops at a sum that is no word, at a difference below zero, at a
part of an array that is not there, and where bytes are copied to a part of another length.

So here the operations are told a second time, for such a machine: `Memory.Guarded` has its steps,
each of which ends in a `Memory.Trap` where it leaves its bounds, and `Memory.guardedPut` and
`Memory.guardedView?` are a write and a look at a value made of these.

| operation | its steps | why no step leaves its bounds |
|---|---|---|
| a write | `Memory.Guarded.lay` | both ends are capped: `Memory.window_within` |
| a write | `Memory.Guarded.count` | few writes were accepted: `Memory.Call.progress_append_lt` |
| a look | `Memory.Guarded.peek` | the end is held against the store first |

The steps on the store are safe at every memory there is. Nothing is asked of it but what its type
says, that the store is below the capacity: the lengths in the index may be any, and have nothing to
do with the store. The count of the logical length is another matter. It is the one sum that is
neither capped nor looked at, and machines differ in what they make of it. On a lax one it comes
round, and then no step ever leaves its bounds. A strict one has a trap left, `Memory.Trap.counter`,
and stops in it exactly where the sum is no word. With a store below `2 ^ 31` bytes this takes
`2 ^ 33` writes at least.

* `Memory.Call.performGuarded_eq` and `Memory.Call.runGuarded_eq` say of any call and of any run
  from any memory what such a machine does: the same, or stop at the counter.
* `Memory.Call.isRefusal_iff` says which calls end otherwise than asked for.
* `Memory.calls_within_bounds` puts these together, with the bounds in unbounded numbers, and has
  the runs on which no call stops.
-/

namespace LinearMemory.Memory

/-! ### A machine that stops -/

/-- **Why a machine stops** at a step that leaves its bounds. -/
inductive Trap
  /-- A sum is no word. -/
  | sum
  /-- More is taken away than there is. -/
  | difference
  /-- An array does not have this part. -/
  | part
  /-- Bytes are copied to a part of another length. -/
  | lengths
  /-- The logical length is to go past the last word. -/
  | counter
  deriving DecidableEq

namespace Guarded

variable {a b start stop : Nat} {store : Array UInt8} {bytes : List UInt8}

/-- A sum, which has to be a word. -/
def add (a b : Nat) : Except Trap Nat :=
  if a + b < 2 ^ 64 then .ok (a + b) else .error .sum

/-- A difference, which has to be a number. -/
def sub (a b : Nat) : Except Trap Nat :=
  if b ≤ a then .ok (a - b) else .error .difference

/-- The bytes from one position up to another, all of which have to be there. -/
def slice (bytes : List UInt8) (start stop : Nat) : Except Trap (List UInt8) :=
  if start ≤ stop ∧ stop ≤ bytes.length then .ok (bytes.extract start stop) else .error .part

/-- Copy bytes to a part of a store, which has to be there and to be as long as they are. -/
def copy (store : Array UInt8) (start stop : Nat) (bytes : List UInt8) :
    Except Trap { next : Array UInt8 // next.size = store.size } :=
  if start ≤ stop ∧ stop ≤ store.size then
    if bytes.length = stop - start then
      .ok ⟨overwrite store start bytes, size_overwrite store start bytes⟩
    else .error .lengths
  else .error .part

/-- Put as much of a value as there is room for into the part of a store between two ends. -/
def lay (store : Array UInt8) (ends : Extent) (value : List UInt8) :
    Except Trap { next : Array UInt8 // next.size = store.size } := do
  let room ← sub ends.stop ends.start
  let n := min room value.length
  let stop ← add ends.start n
  let front ← slice value 0 n
  copy store ends.start stop front

/-- The logical length after one more advance. On a strict machine it has to be a word, on a lax one
it comes round. -/
def count (strict : Bool) (length advance : UInt64) : Except Trap UInt64 :=
  if strict = true ∧ 2 ^ 64 ≤ length.toNat + advance.toNat then .error .counter
  else .ok (length + advance)

/-- Look at a part of a store of this length, if it ends within the store. An end that is no word
lies behind the end of every store. -/
def peek (store : Array UInt8) (start n : Nat) : Except Trap (Option (List UInt8)) :=
  match add start n with
  | .error _ => .ok none
  | .ok stop =>
    if store.size < stop then .ok none else (slice store.toList start stop).map some

@[simp] theorem add_of_lt (h : a + b < 2 ^ 64) : add a b = .ok (a + b) :=
  if_pos h

@[simp] theorem add_of_le (h : 2 ^ 64 ≤ a + b) : add a b = .error .sum :=
  if_neg (Nat.not_lt_of_le h)

@[simp] theorem sub_of_le (h : b ≤ a) : sub a b = .ok (a - b) :=
  if_pos h

@[simp] theorem slice_of_le (hstart : start ≤ stop) (hstop : stop ≤ bytes.length) :
    slice bytes start stop = .ok (bytes.extract start stop) :=
  if_pos ⟨hstart, hstop⟩

@[simp] theorem copy_of_le (hstart : start ≤ stop) (hstop : stop ≤ store.size)
    (hlength : bytes.length = stop - start) :
    copy store start stop bytes =
      .ok ⟨overwrite store start bytes, size_overwrite store start bytes⟩ := by
  rw [copy, if_pos ⟨hstart, hstop⟩, if_pos hlength]

@[simp] theorem count_of_lt {strict : Bool} {length advance : UInt64}
    (h : strict = true → length.toNat + advance.toNat < 2 ^ 64) :
    count strict length advance = .ok (length + advance) :=
  if_neg fun hc => absurd (h hc.1) (Nat.not_lt_of_le hc.2)

@[simp] theorem count_of_le {length advance : UInt64}
    (h : 2 ^ 64 ≤ length.toNat + advance.toNat) : count true length advance = .error .counter :=
  if_pos ⟨rfl, h⟩

/-- **Between two ends in order and within the store** no step leaves its bounds. -/
theorem lay_of_within {ends : Extent} (hends : ends.start ≤ ends.stop)
    (hstop : ends.stop ≤ store.size) (hstore : store.size < 2 ^ 64) (value : List UInt8) :
    lay store ends value =
      .ok ⟨overwrite store ends.start (value.take (ends.stop - ends.start)),
        size_overwrite store ends.start _⟩ := by
  have hfront : value.extract 0 (min (ends.stop - ends.start) value.length) =
      value.take (ends.stop - ends.start) := by
    rw [List.extract_eq_take_drop, List.drop_zero, Nat.sub_zero, ← List.take_eq_take_min]
  have hlength : (value.take (ends.stop - ends.start)).length =
      min (ends.stop - ends.start) value.length := List.length_take
  -- What is left of each step is a bound on the two ends.
  simp (disch := omega) only [lay, sub_of_le, add_of_lt, slice_of_le, hfront, copy_of_le, ok_bind]

/-- **A look asks for no part that is not there**, whatever length was recorded. -/
theorem peek_eq (hstore : store.size < 2 ^ 64) (start n : Nat) :
    peek store start n =
      .ok (if start + n ≤ store.size then some (store.extract start (start + n)).toList
        else none) := by
  rcases Nat.lt_or_ge (start + n) (2 ^ 64) with hword | hbeyond
  · simp only [peek, add_of_lt hword]
    rcases Nat.lt_or_ge store.size (start + n) with hlt | hle
    · rw [if_pos hlt, if_neg (Nat.not_le_of_lt hlt)]
    · rw [if_neg (Nat.not_lt_of_le hle), if_pos hle,
        slice_of_le (Nat.le_add_right ..) (by rwa [Array.length_toList]), Array.toList_extract]
      rfl
  · simp only [peek, add_of_le hbeyond]
    rw [if_neg (by omega)]

end Guarded

/-! ### The operations on such a machine -/

/-- **Make a write, or reject it**, on a machine that stops where a step leaves its bounds. -/
def guardedPut (strict : Bool) (m : Memory) (w : Write) :
    Except Trap (Told (Except Rejection Memory)) :=
  if m.store.size < w.size.toNat then
    .ok ⟨.error ⟨w.size, m.store.size⟩, [.rejection w.size m.store.size]⟩
  else if w.size = 0 then do
    let length ← Guarded.count strict m.length 1
    return {
      result := .ok { m with length := length, index := m.index.insert w.offset 0 }
      events := [.acceptance w.offset w.size w.value.length] }
  else do
    let next ← Guarded.lay m.store (m.window w.offset w.size) w.value
    let length ← Guarded.count strict m.length w.size
    return {
      result := .ok { m with
        store := next.1
        length := length
        index := m.index.insert w.offset w.value.length
        size_lt := by rw [next.2]; exact m.size_lt }
      events := [.acceptance w.offset w.size w.value.length] }

/-- **Look at a value** on such a machine. -/
def guardedView? (m : Memory) (offset : UInt64) : Except Trap (Option (List UInt8)) :=
  let start := (m.normalize offset.toUInt32).toUInt64
  match m.written? start with
  | none => .ok none
  | some n => if n = 0 then .ok none else Guarded.peek m.store start.toNat n

variable {m : Memory}

/-- The length of a store is a word. -/
theorem size_lt_word (m : Memory) : m.store.size < 2 ^ 64 :=
  Nat.lt_trans m.size_lt (by decide)

/-- **The ends of a write** are in order and within the store. -/
theorem window_within (m : Memory) (offset size : UInt64) :
    (m.window offset size).start ≤ (m.window offset size).stop ∧
      (m.window offset size).stop ≤ m.size := by
  rw [m.window_start, m.window_stop]
  change _ ∧ _ ≤ m.store.size
  omega

/-- What an accepted write adds to the logical length, in words. -/
theorem Write.toNat_advance (w : Write) :
    (if w.size = 0 then 1 else w.size).toNat = w.advance := by
  rw [← w.ofNat_advance, UInt64.toNat_ofNat', Nat.mod_eq_of_lt]
  have hsize := w.size.toNat_lt
  unfold Write.advance
  omega

/-- **A write stays within its bounds** if it is rejected, or the logical length after it is a word
or may come round. -/
theorem guardedPut_eq_ok {strict : Bool} {m : Memory} {w : Write}
    (h : strict = true → w.size.toNat ≤ m.size → m.length.toNat + w.advance < 2 ^ 64) :
    guardedPut strict m w = .ok (m.writing w.offset w.size w.value) := by
  have hadvance := w.toNat_advance
  unfold guardedPut writing
  split
  · rfl
  · next hroom =>
    have hcount (hstrict : strict = true) : m.length.toNat + w.advance < 2 ^ 64 :=
      h hstrict (Nat.le_of_not_lt hroom)
    split
    · next hzero =>
      rw [if_pos hzero] at hadvance
      rw [Guarded.count_of_lt (by rwa [hadvance])]
      rfl
    · next hpos =>
      rw [if_neg hpos] at hadvance
      obtain ⟨hends, hstop⟩ := m.window_within w.offset w.size
      rw [Guarded.lay_of_within hends hstop m.size_lt_word,
        Guarded.count_of_lt (by rwa [hadvance])]
      rfl

/-- **Otherwise it stops at the counter**, and at no step before it. -/
theorem guardedPut_eq_error {m : Memory} {w : Write} (hle : w.size.toNat ≤ m.size)
    (h : 2 ^ 64 ≤ m.length.toNat + w.advance) : guardedPut true m w = .error .counter := by
  have hadvance := w.toNat_advance
  have hroom : ¬m.store.size < w.size.toNat := Nat.not_lt_of_le hle
  unfold guardedPut
  rw [if_neg hroom]
  split
  · next hzero =>
    rw [if_pos hzero] at hadvance
    rw [Guarded.count_of_le (by rwa [hadvance])]
    rfl
  · next hpos =>
    rw [if_neg hpos] at hadvance
    obtain ⟨hends, hstop⟩ := m.window_within w.offset w.size
    rw [Guarded.lay_of_within hends hstop m.size_lt_word, Guarded.count_of_le (by rwa [hadvance])]
    rfl

/-- **What such a machine does with a write.** -/
theorem guardedPut_eq (strict : Bool) (m : Memory) (w : Write) :
    guardedPut strict m w =
      if strict = true ∧ w.size.toNat ≤ m.size ∧ 2 ^ 64 ≤ m.length.toNat + w.advance then
        .error .counter
      else .ok (m.writing w.offset w.size w.value) := by
  split
  · next h =>
    obtain ⟨rfl, hle, hover⟩ := h
    exact guardedPut_eq_error hle hover
  · next h =>
    refine guardedPut_eq_ok fun hstrict hle => Nat.lt_of_not_le fun hover => ?_
    exact h ⟨hstrict, hle, hover⟩

/-- **The part of the store that a look shows** is there, and is not empty. -/
theorem extent_within {offset : UInt64} {extent : Extent} (h : m.extent? offset = some extent) :
    extent.start < extent.stop ∧ extent.stop ≤ m.size := by
  rcases hn : m.written? (m.normalize offset.toUInt32).toUInt64 with - | n
  · simp only [extent?, hn] at h
    cases h
  · simp only [extent?, hn] at h
    split at h
    · next hwithin =>
      cases h
      exact ⟨Nat.lt_add_of_pos_right hwithin.1, hwithin.2⟩
    · cases h

/-- **A look stays within its bounds.** -/
theorem guardedView?_eq (m : Memory) (offset : UInt64) :
    m.guardedView? offset = .ok (m.view? offset) := by
  rcases hn : m.written? (m.normalize offset.toUInt32).toUInt64 with - | n
  · simp only [guardedView?, view?, extent?, hn]
    rfl
  · simp only [guardedView?, view?, extent?, hn, Guarded.peek_eq m.size_lt_word]
    rcases Nat.eq_zero_or_pos n with hzero | hpos
    · rw [if_pos hzero, if_neg (fun hc => absurd hc.1 (by omega))]
      rfl
    · rw [if_neg (Nat.ne_of_gt hpos)]
      by_cases hle : (m.normalize offset.toUInt32).toUInt64.toNat + n ≤ m.store.size
      · rw [if_pos hle, if_pos ⟨hpos, hle⟩]
        rfl
      · rw [if_neg hle, if_neg (fun hc => hle hc.2)]
        rfl

namespace Call

/-! ### Calls and runs on such a machine -/

/-- **Carry out one call** on such a machine. The calls that neither write nor look at a value have
no bounds to leave: growth is refused where there is no room for it, and the dump and the bytes
asked for are what there is. -/
def performGuarded (strict : Bool) (m : Memory) (call : Call) : Except Trap Outcome :=
  match call with
  | .read offset | .view offset => (m.guardedView? offset).map fun value => ⟨m, .value value, []⟩
  | _ =>
    match call.write? m.length with
    | some w =>
      (guardedPut strict m w).map fun told =>
        told.outcome m (fun next => (next, call.acceptance m.length)) fun rejection =>
          call.refusal rejection
    | none => .ok (perform m call)

/-- **The memory after a run of calls** on such a machine. -/
def runGuarded (strict : Bool) (m : Memory) (calls : List Call) : Except Trap Memory :=
  calls.foldlM (fun m call => (performGuarded strict m call).map Outcome.memory) m

variable {call : Call}

/-! ### What such a machine does -/

/-- A call that makes no write does not move the logical length, so it stays a word. -/
theorem not_over_of_none (strict : Bool) (he : accepted? m call = none) :
    ¬(strict = true ∧ 2 ^ 64 ≤ m.length.toNat + progress m [call]) := by
  have hlength := m.length.toNat_lt
  rw [progress_of_none he]
  omega

/-- **Few writes on a small store add less than a word**, and so does one call more. -/
theorem progress_append_lt {calls : List Call} (hsize : (run .empty calls).size < 2 ^ 31)
    (hcount : (accepted .empty calls).length < 2 ^ 33) (call : Call) :
    progress .empty (calls ++ [call]) < 2 ^ 64 := by
  have hmost := progress_le_of_few hsize hcount
  have hone := progress_singleton_le (run .empty calls) call
  rw [progress_append]
  omega

/-- A call that writes is made on such a machine as it is made elsewhere, or stops at the
counter. -/
theorem map_guardedPut_eq (strict : Bool) {w : Write} (hw : call.write? m.length = some w) :
    ((guardedPut strict m w).map fun told =>
        told.outcome m (fun next => (next, call.acceptance m.length)) fun rejection =>
          call.refusal rejection) =
      if strict = true ∧ 2 ^ 64 ≤ m.length.toNat + progress m [call] then .error .counter
      else .ok (perform m call) := by
  rcases perform_write hw with ⟨hle, hput, hacc⟩ | ⟨hlt, -, hacc⟩
  · rw [progress_of_some hacc]
    split
    · next h =>
      obtain ⟨rfl, hover⟩ := h
      rw [guardedPut_eq_error hle hover]
      rfl
    · next h =>
      have hword (hstrict : strict = true) (_ : w.size.toNat ≤ m.size) :
          m.length.toNat + w.advance < 2 ^ 64 :=
        Nat.lt_of_not_le fun hover => h ⟨hstrict, hover⟩
      rw [guardedPut_eq_ok hword, perform_of_put_ok hw hput]
      exact congrArg Except.ok (Told.outcome_of_ok m _ _ hput)
  · have hput : m.put w = .error ⟨w.size, m.size⟩ := put_eq_error hlt
    rw [if_neg (not_over_of_none strict hacc),
      guardedPut_eq_ok fun _ hle => absurd hlt (Nat.not_lt_of_le hle), perform_of_put_error hw hput]
    exact congrArg Except.ok (Told.outcome_of_error m _ _ hput)

/-- **What such a machine does with a call**, at any memory: what is done elsewhere, unless it is
strict and the logical length would be no word. Then it stops at the counter. -/
theorem performGuarded_eq (strict : Bool) (m : Memory) (call : Call) :
    performGuarded strict m call =
      if strict = true ∧ 2 ^ 64 ≤ m.length.toNat + progress m [call] then .error .counter
      else .ok (perform m call) := by
  cases call with
  | read offset | view offset =>
    rw [if_neg (not_over_of_none strict rfl), performGuarded, guardedView?_eq]
    rfl
  | write | tryWrite | append | tryAppend => exact map_guardedPut_eq strict rfl
  | _ =>
    rw [if_neg (not_over_of_none strict rfl)]
    rfl

/-- **What such a machine does with a run.** -/
theorem runGuarded_eq (strict : Bool) (m : Memory) (calls : List Call) :
    runGuarded strict m calls =
      if strict = true ∧ 2 ^ 64 ≤ m.length.toNat + progress m calls then .error .counter
      else .ok (run m calls) := by
  induction calls generalizing m with
  | nil =>
    have hlength := m.length.toNat_lt
    rw [progress_nil, if_neg (by omega)]
    rfl
  | cons call rest ih =>
    rw [runGuarded, List.foldlM_cons, performGuarded_eq, progress_cons m call rest]
    cases strict with
    | false => exact ih _
    | true =>
      by_cases hover : 2 ^ 64 ≤ m.length.toNat + progress m [call]
      · rw [if_pos ⟨rfl, hover⟩, if_pos ⟨rfl, by omega⟩]
        rfl
      · have hstep : (perform m call).memory.length.toNat = m.length.toNat + progress m [call] :=
          toNat_length_run m [call] (Nat.lt_of_not_le hover)
        rw [if_neg fun hc => hover hc.2, ← Nat.add_assoc, ← hstep]
        exact ih _

/-! ### Calls that end otherwise -/

theorem refusal_eq_or (rejection : Rejection) (call : Call) :
    call.refusal rejection = .rejected rejection ∨
      call.refusal rejection = .stopped (.rejected rejection) := by
  cases call with
  | write | append => exact Or.inr rfl
  | _ => exact Or.inl rfl

/-- **A call is refused in two ways**: a write asks for more than the store has, or a request to
grow asks for the capacity. -/
theorem isRefusal_iff (m : Memory) (call : Call) :
    (perform m call).reply.isRefusal = true ↔
      (∃ size, call.asked? = some size ∧ m.size < size.toNat ∧
        ((perform m call).reply = .rejected ⟨size, m.size⟩ ∨
          (perform m call).reply = .stopped (.rejected ⟨size, m.size⟩))) ∨
      ∃ size, call.growth? = some size ∧ 2 ^ 63 ≤ size.toNat ∧
        (perform m call).reply = .stopped .capacityOverflow := by
  constructor
  · intro hrefused
    rcases ha : call.asked? with - | size
    · rcases hg : call.growth? with - | size
      · rw [isRefusal_eq_false hg ha] at hrefused
        cases hrefused
      · have hcap := (isRefusal_of_growth? hg).mp hrefused
        refine Or.inr ⟨size, rfl, hcap, ?_⟩
        cases call with
        | resize size' =>
          cases hg
          rw [reply_resize, if_pos hcap]
        | _ => cases hg
    · have hlt := (isRefusal_of_asked? ha).mp hrefused
      refine Or.inl ⟨size, rfl, hlt, ?_⟩
      rw [reply_of_asked? ha, if_pos hlt]
      exact refusal_eq_or _ _
  · rintro (⟨size, ha, hlt, -⟩ | ⟨size, hg, hcap, -⟩)
    · exact (isRefusal_of_asked? ha).mpr hlt
    · exact (isRefusal_of_growth? hg).mpr hcap

end Call

/-! ### The law -/

/-- **Every call stays within its bounds.** For every memory:

* the ends of a write are what they would be in unbounded numbers, the offset and the offset plus
  the size, each capped at the end of the store. So they are in order and within the store, and the
  bytes that are copied are no more than the value has, and end within the store;
* the part of the store that is shown where there is a value to look at is not empty and is within
  the store, and a look, each step of which is checked, never fails a check;
* a machine that checks each step of a write, of a look and so of any call and any run, does what is
  done unchecked. A lax one always does. A strict one does unless the logical length would be no
  word, and then stops at the counter: no other check ever fails;
* a call ends otherwise than asked for in two cases only: a write asks for a size that exceeds the
  store, and is rejected, or stops where this is fatal; or a request to grow asks for `2 ^ 63` bytes
  or more, and stops.

On a run from the empty memory that leaves a store below `2 ^ 31` bytes and accepts fewer than
`2 ^ 33` writes the counter does not stop a strict machine either, nor does it at any call that
follows: so there it has these two cases only. -/
theorem calls_within_bounds (m : Memory) :
    (∀ offset size : UInt64, ∀ value : List UInt8, size.toNat ≤ m.size →
      let ends := m.window offset size
      let n := min (ends.stop - ends.start) value.length
      ends.start = min offset.toNat m.size ∧
        ends.stop = min (offset.toNat + size.toNat) m.size ∧
        ends.start ≤ ends.stop ∧ ends.stop ≤ m.size ∧
        n ≤ value.length ∧ ends.start + n ≤ m.size) ∧
      (∀ offset ends, m.extent? offset = some ends →
        ends.start < ends.stop ∧ ends.stop ≤ m.size) ∧
      (∀ offset, m.guardedView? offset = .ok (m.view? offset)) ∧
      (∀ strict w, guardedPut strict m w =
        if strict = true ∧ w.size.toNat ≤ m.size ∧ 2 ^ 64 ≤ m.length.toNat + w.advance then
          .error .counter
        else .ok (m.writing w.offset w.size w.value)) ∧
      (∀ strict call, Call.performGuarded strict m call =
        if strict = true ∧ 2 ^ 64 ≤ m.length.toNat + Call.progress m [call] then .error .counter
        else .ok (Call.perform m call)) ∧
      (∀ strict calls, Call.runGuarded strict m calls =
        if strict = true ∧ 2 ^ 64 ≤ m.length.toNat + Call.progress m calls then .error .counter
        else .ok (Call.run m calls)) ∧
      (∀ call, (Call.perform m call).reply.isRefusal = true ↔
        (∃ size, call.asked? = some size ∧ m.size < size.toNat ∧
          ((Call.perform m call).reply = .rejected ⟨size, m.size⟩ ∨
            (Call.perform m call).reply = .stopped (.rejected ⟨size, m.size⟩))) ∨
        ∃ size, call.growth? = some size ∧ 2 ^ 63 ≤ size.toNat ∧
          (Call.perform m call).reply = .stopped .capacityOverflow) ∧
      ∀ calls, m = Call.run .empty calls → m.size < 2 ^ 31 →
        (Call.accepted .empty calls).length < 2 ^ 33 →
        ∀ strict, Call.runGuarded strict .empty calls = .ok m ∧
          ∀ call, Call.performGuarded strict m call = .ok (Call.perform m call) := by
  refine ⟨?_, fun _ _ => extent_within, m.guardedView?_eq, fun strict => guardedPut_eq strict m,
    fun strict => Call.performGuarded_eq strict m, fun strict => Call.runGuarded_eq strict m,
    Call.isRefusal_iff m, ?_⟩
  · intro offset size value _ ends n
    obtain ⟨hends, hstop⟩ : ends.start ≤ ends.stop ∧ ends.stop ≤ m.size :=
      m.window_within offset size
    have hvalue : n ≤ value.length := Nat.min_le_right ..
    have hroom : n ≤ ends.stop - ends.start := Nat.min_le_left ..
    refine ⟨m.window_start offset size, m.window_stop offset size, hends, hstop, hvalue, ?_⟩
    omega
  · rintro calls rfl hsize hcount strict
    have hword (call : Call) := Call.progress_append_lt hsize hcount call
    simp only [Call.progress_append] at hword
    have hzero : Memory.empty.length.toNat = 0 := rfl
    have hbefore : Call.progress .empty calls < 2 ^ 64 :=
      Nat.lt_of_le_of_lt (Nat.le_add_right ..) (hword .dump)
    refine ⟨?_, fun call => ?_⟩
    · rw [Call.runGuarded_eq, if_neg (by omega)]
    · have hcall := hword call
      rw [Call.performGuarded_eq, Call.toNat_length_run_empty hbefore, if_neg (by omega)]

/-- A store of eight bytes. -/
def eightBytes : Memory := Call.run .empty [.resize 8]

/-- The same store, and a logical length that no advance leaves a word. -/
def lastWord : Memory := { eightBytes with length := 0xffffffffffffffff }

/-- The law at work: a write that is cut at the end of the store puts two bytes down, one whose end
is no word puts none down, and one byte more than the store has is asked for in vain. A logical
length that is the last word stops a strict machine at the next write that is accepted, and nothing
stops a lax one. -/
theorem calls_within_bounds_eightBytes :
    eightBytes.size = 8 ∧
      (eightBytes.window 6 4).start = 6 ∧ (eightBytes.window 6 4).stop = 8 ∧
      (eightBytes.window 0xfffffffffffffffe 8).start = 8 ∧
      (eightBytes.window 0xfffffffffffffffe 8).stop = 8 ∧
      Call.runGuarded true .empty [.resize 8, .write 6 4 [1, 2, 3, 4], .view 0xfffffffe] =
        .ok (Call.run .empty [.resize 8, .write 6 4 [1, 2, 3, 4], .view 0xfffffffe]) ∧
      Call.performGuarded true eightBytes (.write 6 4 [1, 2, 3, 4]) =
        .ok (Call.perform eightBytes (.write 6 4 [1, 2, 3, 4])) ∧
      (Call.perform eightBytes (.tryWrite 0 9 [1])).reply.isRefusal = true ∧
      Call.performGuarded true lastWord (.write 6 4 [1, 2]) = .error .counter ∧
      Call.performGuarded true lastWord (.write 6 9 [1, 2]) =
        .ok (Call.perform lastWord (.write 6 9 [1, 2])) ∧
      Call.performGuarded false lastWord (.write 6 4 [1, 2]) =
        .ok (Call.perform lastWord (.write 6 4 [1, 2])) := by
  have hsize : eightBytes.size = 8 := by decide
  obtain ⟨hends, -, -, -, -, -, hrefused, hreached⟩ := calls_within_bounds eightBytes
  obtain ⟨-, -, -, -, -, hrun, -⟩ := calls_within_bounds .empty
  obtain ⟨-, -, -, -, hcall, -⟩ := calls_within_bounds lastWord
  obtain ⟨hcut, hcut', -⟩ := hends 6 4 [1, 2, 3, 4] (by rw [hsize]; decide)
  obtain ⟨hpast, hpast', -⟩ := hends 0xfffffffffffffffe 8 [1] (by rw [hsize]; decide)
  obtain ⟨-, hnext⟩ := hreached [.resize 8] rfl (by rw [hsize]; decide) (by decide) true
  rw [hsize] at hcut hcut' hpast hpast'
  refine ⟨hsize, hcut, hcut', hpast, hpast', ?_, hnext _, ?_, ?_, ?_, ?_⟩
  · rw [hrun, if_neg (by decide)]
  · exact (hrefused _).mpr (Or.inl ⟨9, rfl, by rw [hsize]; decide, Or.inl (by decide)⟩)
  · rw [hcall, if_pos (by decide)]
  · rw [hcall, if_neg (by decide)]
  · rw [hcall, if_neg (by decide)]

end LinearMemory.Memory
