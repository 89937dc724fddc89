import LinearMemory.Memory.Call
import LinearMemory.Memory.Lemmas

/-!
# What one call does, and what a run does

Of the twelve calls only two kinds change a memory: a request to grow and a request to write. The
four calls that write differ in where the offset comes from and in how they tell of a rejection;
what they ask for is a `Memory.Write`, and `Memory.Call.write?` reads it off the call.

What can be seen of a memory is its size, its logical length, the byte at each position and the
length recorded at each offset. For each of the four there is one equation for growth and one for a
write. A position behind the end counts as zero (`Memory.byteAt`), which is what growth puts there:
so growth changes no byte.

* `Memory.Call.perform_cases` says all that a call can do: it grows the store, or it makes a write,
  or it does nothing. `Memory.Call.perform_write` and `Memory.Call.perform_growth` say when.
* `Memory.Call.accepted` lists the accepted writes of a run as the answers show them.

Statements about runs look at a call through these and never at `Memory.Call.perform`.
-/

namespace LinearMemory.Memory

/-! ### Writes -/

/-- **A write as it is asked for.** -/
structure Write where
  /-- Where the value is to go; its length is recorded under this. -/
  offset : UInt64
  /-- How many bytes may be put down. -/
  size : UInt64
  /-- The value. -/
  value : List UInt8
  deriving DecidableEq

namespace Write

/-- How many bytes of its value a write may put down. -/
def span (w : Write) : Nat := min w.size.toNat w.value.length

/-- The range of a write, told position by position. A write of size zero has an empty range. -/
def Spans (w : Write) (i : Nat) : Prop :=
  w.offset.toNat ≤ i ∧ i < w.offset.toNat + w.span

instance (w : Write) (i : Nat) : Decidable (w.Spans i) :=
  inferInstanceAs (Decidable (_ ∧ _))

/-- How far a write moves the logical length. -/
def advance (w : Write) : Nat := max w.size.toNat 1

/-- The length that a write records. -/
def recorded (w : Write) : Nat := if w.size = 0 then 0 else w.value.length

/-- The advance as a word. -/
theorem ofNat_advance (w : Write) :
    UInt64.ofNat w.advance = if w.size = 0 then 1 else w.size := by
  unfold advance
  split
  · next h => rw [h]; rfl
  · next h =>
    have hpos : w.size.toNat ≠ 0 := fun hc => h (UInt64.toNat_inj.mp hc)
    rw [Nat.max_eq_left (by omega), UInt64.ofNat_toNat]

end Write

/-- **An accepted write**, with the length that the store had at that time. -/
structure Entry extends Write where
  /-- The length of the store when the write was made. -/
  room : Nat
  deriving DecidableEq

namespace Entry

/-- The positions that an accepted write put bytes at: its range, cut at the end of the store of
that time. -/
def Covers (e : Entry) (i : Nat) : Prop := e.Spans i ∧ i < e.room

instance (e : Entry) (i : Nat) : Decidable (e.Covers i) :=
  inferInstanceAs (Decidable (_ ∧ _))

/-- The byte that an accepted write put at a position, if it put one there. -/
def byte? (e : Entry) (i : Nat) : Option UInt8 :=
  if e.Covers i then e.value[i - e.offset.toNat]? else none

/-- The length that an accepted write recorded at an offset, if it is the one it was made at. -/
def recordedAt? (e : Entry) (offset : UInt64) : Option Nat :=
  if e.offset = offset then some e.recorded else none

variable {e : Entry} {i : Nat}

/-- A position that is covered has a byte of the value. -/
theorem exists_byte?_of_covers (hc : e.Covers i) :
    ∃ b, e.value[i - e.offset.toNat]? = some b ∧ e.byte? i = some b := by
  have hlt : i - e.offset.toNat < e.value.length := by
    obtain ⟨⟨hle, hlt⟩, -⟩ := hc
    have : e.span ≤ e.value.length := Nat.min_le_right ..
    omega
  have hb : e.value[i - e.offset.toNat]? = some e.value[i - e.offset.toNat] :=
    List.getElem?_eq_getElem hlt
  exact ⟨_, hb, by rw [byte?, if_pos hc, hb]⟩

@[simp] theorem byte?_of_not_covers (hc : ¬e.Covers i) : e.byte? i = none :=
  if_neg hc

@[simp] theorem byte?_of_not_spans (hs : ¬e.Spans i) : e.byte? i = none :=
  byte?_of_not_covers fun hc => hs hc.1

@[simp] theorem recordedAt?_self (e : Entry) : e.recordedAt? e.offset = some e.recorded :=
  if_pos rfl

@[simp] theorem recordedAt?_of_ne {offset : UInt64} (ho : e.offset ≠ offset) :
    e.recordedAt? offset = none :=
  if_neg ho

end Entry

/-! ### What can be seen after growth and after a write -/

/-- The byte at a position, zero where the store does not reach. -/
def byteAt (m : Memory) (i : Nat) : UInt8 := m.store[i]?.getD 0

theorem getElem?_store {m : Memory} {i : Nat} (hi : i < m.size) :
    m.store[i]? = some (m.byteAt i) := by
  rw [byteAt, Array.getElem?_eq_getElem hi, Option.getD_some]

@[simp] theorem byteAt_of_le {m : Memory} {i : Nat} (hi : m.size ≤ i) : m.byteAt i = 0 := by
  rw [byteAt, Array.getElem?_eq_none hi, Option.getD_none]

/-- **Nothing else can be seen**: two memories of one size and one logical length, with the same
byte at each position and the same length recorded at each offset, are one memory. -/
theorem eq_of_views {m n : Memory} (hsize : m.size = n.size) (hlength : m.length = n.length)
    (hbyte : ∀ i, m.byteAt i = n.byteAt i)
    (hwritten : ∀ offset, m.written? offset = n.written? offset) : m = n := by
  refine Memory.ext ?_ hlength (Std.ExtTreeMap.ext_getElem? fun offset => hwritten offset)
  refine Array.ext_getElem? fun i => ?_
  rcases Nat.lt_or_ge i m.size with hi | hi
  · rw [getElem?_store hi, getElem?_store (hsize ▸ hi), hbyte i]
  · have hi' : n.size ≤ i := hsize ▸ hi
    rw [Array.getElem?_eq_none hi, Array.getElem?_eq_none hi']

/-- Make a write, or reject it. -/
def put (m : Memory) (w : Write) : Except Rejection Memory :=
  m.tryWrite w.offset w.size w.value

@[simp] theorem put_eq_error {m : Memory} {w : Write} (h : m.size < w.size.toNat) :
    m.put w = .error ⟨w.size, m.size⟩ :=
  (tryWrite_eq_error_iff _ _ _ _ _).mpr ⟨h, rfl⟩

theorem exists_put_eq_ok {m : Memory} {w : Write} (h : w.size.toNat ≤ m.size) :
    ∃ next, m.put w = .ok next := by
  cases hw : m.put w with
  | ok next => exact ⟨next, rfl⟩
  | error rejection =>
    have := ((tryWrite_eq_error_iff _ _ _ _ _).mp hw).1
    exact absurd h (Nat.not_le_of_lt this)

section Growth

variable {m next : Memory} {size : UInt64}

theorem size_of_resize (hok : m.resize size = .ok next) : next.size = max m.size size.toNat := by
  obtain ⟨hstore, -⟩ := resize_ok hok
  simp only [Memory.size, hstore, Array.size_append, Array.size_replicate]
  omega

theorem length_of_resize (hok : m.resize size = .ok next) : next.length = m.length :=
  (resize_ok hok).2.1

theorem byteAt_of_resize (hok : m.resize size = .ok next) (i : Nat) :
    next.byteAt i = m.byteAt i := by
  obtain ⟨hstore, -⟩ := resize_ok hok
  rcases Nat.lt_or_ge i m.store.size with hi | hi
  · rw [byteAt, hstore, Array.getElem?_append_left hi]
    rfl
  · rw [byteAt_of_le hi, byteAt, hstore, Array.getElem?_append_right hi, Array.getElem?_replicate]
    split <;> rfl

theorem written?_of_resize (hok : m.resize size = .ok next) (offset : UInt64) :
    next.written? offset = m.written? offset := by
  obtain ⟨-, -, hindex⟩ := resize_ok hok
  rw [written?, written?, hindex]

end Growth

section Put

variable {m next : Memory} {w : Write}

theorem size_of_put (hok : m.put w = .ok next) : next.size = m.size :=
  (tryWrite_ok hok).2.1

theorem length_of_put (hok : m.put w = .ok next) :
    next.length = m.length + UInt64.ofNat w.advance := by
  rw [w.ofNat_advance]
  exact (tryWrite_ok hok).2.2.1

/-- A write changes the bytes that it puts down. -/
theorem byteAt_of_put (hok : m.put w = .ok next) (i : Nat) :
    next.byteAt i = ((Entry.mk w m.size).byte? i).getD (m.byteAt i) := by
  obtain ⟨hbyte, -⟩ := tryWrite_ok hok
  rw [byteAt, hbyte i]
  -- The condition that the operation decides on is that the write covers the position.
  by_cases hc : (Entry.mk w m.size).Covers i
  · obtain ⟨b, hval, hb⟩ := Entry.exists_byte?_of_covers hc
    obtain ⟨⟨hle, hlt⟩, hi⟩ := hc
    rw [if_pos ⟨hle, hlt, hi⟩, hval, hb]
    rfl
  · have hnot : ¬(w.offset.toNat ≤ i ∧ i < w.offset.toNat + min w.size.toNat w.value.length ∧
        i < m.store.size) := by
      rintro ⟨hle, hlt, hi⟩
      exact hc ⟨⟨hle, hlt⟩, hi⟩
    rw [if_neg hnot, Entry.byte?_of_not_covers hc]
    rfl

/-- A write changes the length recorded at its own offset. -/
theorem written?_of_put (hok : m.put w = .ok next) (offset : UInt64) :
    next.written? offset = ((Entry.mk w m.size).recordedAt? offset).or (m.written? offset) := by
  obtain ⟨-, -, -, hwritten⟩ := tryWrite_ok hok
  rw [hwritten offset, Entry.recordedAt?]
  by_cases ho : w.offset = offset
  · rw [if_pos ho.symm, if_pos ho]
    rfl
  · rw [if_neg (Ne.symm ho), if_neg ho]
    rfl

end Put

namespace Call

/-! ### What a call asks for -/

/-- The size that a call asks the store to grow to. -/
def growth? : Call → Option UInt64
  | .resize size => some size
  | _ => none

/-- The write that a call asks for at this logical length. -/
def write? (length : UInt64) : Call → Option Write
  | .write offset size value | .tryWrite offset size value => some ⟨offset, size, value⟩
  | .append value | .tryAppend value => some ⟨length, UInt64.ofNat value.length, value⟩
  | _ => none

/-- A call does not both grow and write. -/
theorem write?_eq_none_of_growth? {call : Call} {size length : UInt64}
    (h : call.growth? = some size) : call.write? length = none := by
  cases call with
  | resize size => rfl
  | _ => cases h

/-- The write that a call made, as its answer shows: an append tells where it went, and the length
of the store can be asked for at any time. -/
def accepted? (m : Memory) (call : Call) : Option Entry :=
  match call, (perform m call).reply with
  | .write offset size value, .done | .tryWrite offset size value, .done =>
    some ⟨⟨offset, size, value⟩, m.size⟩
  | .append value, .position offset | .tryAppend value, .position offset =>
    some ⟨⟨offset, UInt64.ofNat value.length, value⟩, m.size⟩
  | _, _ => none

/-- **The accepted writes of a run**, the first one first. -/
def accepted (m : Memory) : List Call → List Entry
  | [] => []
  | call :: rest => (accepted? m call).toList ++ accepted (perform m call).memory rest

/-- What a call that writes is told if its write is made at this logical length: an append is told
where it went. -/
def acceptance (length : UInt64) : Call → Reply
  | .append _ | .tryAppend _ => .position length
  | _ => .done

/-- What a call that writes is told if its write is rejected: two of the four calls take this for a
fatal stop. -/
def refusal (rejection : Rejection) : Call → Reply
  | .write .. | .append _ => .stopped (.rejected rejection)
  | _ => .rejected rejection

/-- **The answers to a run**, one for each call. -/
def replies (m : Memory) : List Call → List Reply
  | [] => []
  | call :: rest => (perform m call).reply :: replies (perform m call).memory rest

/-! ### What a call does -/

variable {m : Memory} {call : Call}

section Growth

variable {next : Memory} {size : UInt64} {cause : Fatal}

@[simp] theorem perform_resize_of_ok (hgrow : m.resize size = .ok next) :
    perform m (.resize size) = ⟨next, .done, (m.resizing size).events⟩ :=
  Told.outcome_of_ok m _ _ hgrow

@[simp] theorem perform_resize_of_error (hgrow : m.resize size = .error cause) :
    perform m (.resize size) = ⟨m, .stopped cause, (m.resizing size).events⟩ :=
  Told.outcome_of_error m _ _ hgrow

end Growth

section Write

variable {w : Write} {next : Memory} {rejection : Rejection}

/-- **A call whose write is made**, in all that it leaves. -/
theorem perform_of_put_ok (hw : call.write? m.length = some w) (hput : m.put w = .ok next) :
    perform m call =
      ⟨next, call.acceptance m.length, (m.writing w.offset w.size w.value).events⟩ := by
  have hresult : (m.writing w.offset w.size w.value).result = .ok next := hput
  cases call with
  | write | tryWrite | append | tryAppend =>
    cases hw
    simp only [perform, appending, Told.insisting, Told.outcome, Told.result_map, Told.events_map,
      hresult]
    rfl
  | _ => cases hw

/-- **A call whose write is rejected**, in all that it leaves. -/
theorem perform_of_put_error (hw : call.write? m.length = some w)
    (hput : m.put w = .error rejection) :
    perform m call =
      ⟨m, call.refusal rejection, (m.writing w.offset w.size w.value).events⟩ := by
  have hresult : (m.writing w.offset w.size w.value).result = .error rejection := hput
  cases call with
  | write | tryWrite | append | tryAppend =>
    cases hw
    simp only [perform, appending, Told.insisting, Told.outcome, Told.result_map, Told.events_map,
      hresult]
    rfl
  | _ => cases hw

@[simp] theorem perform_tryAppend_of_ok {value : List UInt8} {went : UInt64 × Memory}
    (hput : m.tryAppend value = .ok went) :
    perform m (.tryAppend value) = ⟨went.2, .position went.1, (m.appending value).events⟩ :=
  Told.outcome_of_ok m _ _ hput

@[simp] theorem perform_tryAppend_of_error {value : List UInt8}
    (hput : m.tryAppend value = .error rejection) :
    perform m (.tryAppend value) = ⟨m, .rejected rejection, (m.appending value).events⟩ :=
  Told.outcome_of_error m _ _ hput

/-- What was accepted is the write that the call asked for, if it was made. -/
theorem accepted?_of_write? (hw : call.write? m.length = some w) :
    accepted? m call = (m.put w).toOption.map fun _ => ⟨w, m.size⟩ := by
  rcases hput : m.put w with rejection | next
  · rw [accepted?.eq_def, perform_of_put_error hw hput]
    cases call with
    | write | tryWrite | append | tryAppend => rfl
    | _ => cases hw
  · rw [accepted?.eq_def, perform_of_put_ok hw hput]
    cases call with
    | write | tryWrite | append | tryAppend =>
      cases hw
      rfl
    | _ => cases hw

end Write

/-- **What a call that writes does**: its size is within the store, and it makes its write, or its
size exceeds the store, and it leaves the memory alone. -/
theorem perform_write {w : Write} (h : call.write? m.length = some w) :
    (w.size.toNat ≤ m.size ∧ m.put w = .ok (perform m call).memory ∧
        accepted? m call = some ⟨w, m.size⟩) ∨
      (m.size < w.size.toNat ∧ (perform m call).memory = m ∧ accepted? m call = none) := by
  have hacc := accepted?_of_write? h
  rcases Nat.lt_or_ge m.size w.size.toNat with hlt | hge
  · right
    have hput := put_eq_error hlt
    rw [hput] at hacc
    exact ⟨hlt, by rw [perform_of_put_error h hput], hacc⟩
  · left
    obtain ⟨next, hput⟩ := exists_put_eq_ok hge
    rw [hput] at hacc
    exact ⟨hge, by rw [perform_of_put_ok h hput, hput], hacc⟩

/-- **What a call that writes is told**, which hangs on the size of its write alone. -/
theorem reply_perform_of_write? {w : Write} (h : call.write? m.length = some w) :
    (perform m call).reply =
      if m.size < w.size.toNat then call.refusal ⟨w.size, m.size⟩
      else call.acceptance m.length := by
  rcases Nat.lt_or_ge m.size w.size.toNat with hlt | hge
  · rw [perform_of_put_error h (put_eq_error hlt), if_pos hlt]
  · obtain ⟨next, hput⟩ := exists_put_eq_ok hge
    rw [perform_of_put_ok h hput, if_neg (Nat.not_lt_of_le hge)]

/-- What a call that writes leaves in the journal is what its write tells of. -/
theorem events_perform_of_write? {w : Write} (h : call.write? m.length = some w) :
    (perform m call).events = (m.writing w.offset w.size w.value).events := by
  rcases hput : m.put w with rejection | next
  · rw [perform_of_put_error h hput]
  · rw [perform_of_put_ok h hput]

/-- **What a call that grows does**: below the capacity the store gets as many zeros as it is
short of, from the capacity on nothing happens. -/
theorem perform_growth {size : UInt64} (h : call.growth? = some size) :
    (size.toNat < capacity ∧ m.resize size = .ok (perform m call).memory) ∨
      (capacity ≤ size.toNat ∧ (perform m call).memory = m) := by
  cases call with
  | resize size' =>
    cases h
    cases hr : m.resize size with
    | ok next =>
      refine Or.inl ⟨lt_capacity_of_resize hr, ?_⟩
      rw [perform_resize_of_ok hr]
    | error cause =>
      refine Or.inr ⟨((resize_eq_error_iff _ _ _).mp hr).1, ?_⟩
      rw [perform_resize_of_error hr]
  | _ => cases h

/-- A call that neither grows nor writes leaves the memory alone. -/
@[simp]
theorem memory_perform_eq_self (hg : call.growth? = none) (hw : call.write? m.length = none) :
    (perform m call).memory = m := by
  cases call with
  | resize size => cases hg
  | write | tryWrite | append | tryAppend => cases hw
  | _ => rfl

/-- A call that asks for no write makes none. -/
@[simp] theorem accepted?_eq_none (hw : call.write? m.length = none) : accepted? m call = none := by
  cases call with
  | write | tryWrite | append | tryAppend => cases hw
  | _ => rfl

/-- **What any call does**: it grows the store, or it makes a write, or it does nothing. -/
theorem perform_cases (m : Memory) (call : Call) :
    (∃ size, m.resize size = .ok (perform m call).memory ∧ accepted? m call = none) ∨
      (∃ w, w.size.toNat ≤ m.size ∧ m.put w = .ok (perform m call).memory ∧
        accepted? m call = some ⟨w, m.size⟩) ∨
      ((perform m call).memory = m ∧ accepted? m call = none) := by
  cases hg : call.growth? with
  | some size =>
    have hnone := accepted?_eq_none (m := m) (write?_eq_none_of_growth? hg)
    rcases perform_growth hg with ⟨-, hok⟩ | ⟨-, hkeep⟩
    · exact Or.inl ⟨size, hok, hnone⟩
    · exact Or.inr (Or.inr ⟨hkeep, hnone⟩)
  | none =>
    cases hw : call.write? m.length with
    | some w =>
      rcases perform_write hw with ⟨hle, hok, hacc⟩ | ⟨-, hkeep, hacc⟩
      · exact Or.inr (Or.inl ⟨w, hle, hok, hacc⟩)
      · exact Or.inr (Or.inr ⟨hkeep, hacc⟩)
    | none =>
      exact Or.inr (Or.inr ⟨memory_perform_eq_self hg hw, accepted?_eq_none hw⟩)

/-- Only a request to grow changes the size. -/
theorem size_perform_of_growth? (hg : call.growth? = none) :
    (perform m call).memory.size = m.size := by
  cases hw : call.write? m.length with
  | some w =>
    rcases perform_write hw with ⟨-, hok, -⟩ | ⟨-, hkeep, -⟩
    · exact size_of_put hok
    · rw [hkeep]
  | none => rw [memory_perform_eq_self hg hw]

/-- The store only grows. -/
theorem size_le_perform (m : Memory) (call : Call) : m.size ≤ (perform m call).memory.size := by
  rcases perform_cases m call with ⟨size, hok, -⟩ | ⟨w, -, hok, -⟩ | ⟨hkeep, -⟩
  · rw [size_of_resize hok]
    exact Nat.le_max_left ..
  · exact Nat.le_of_eq (size_of_put hok).symm
  · exact Nat.le_of_eq (congrArg Memory.size hkeep.symm)

/-- **What an accepted write is**: its size is within the store, with whose length it is kept, and
it is made. -/
theorem put_of_accepted? {e : Entry} (he : accepted? m call = some e) :
    e.room = m.size ∧ e.size.toNat ≤ m.size ∧ m.put e.toWrite = .ok (perform m call).memory := by
  rcases perform_cases m call with ⟨-, -, hacc⟩ | ⟨w, hle, hok, hacc⟩ | ⟨-, hacc⟩
  · rw [hacc] at he
    cases he
  · rw [hacc] at he
    cases he
    exact ⟨rfl, hle, hok⟩
  · rw [hacc] at he
    cases he

/-- An accepted write is kept with the length of the store that it found. -/
theorem room_of_accepted? {e : Entry} (he : accepted? m call = some e) : e.room = m.size :=
  (put_of_accepted? he).1

/-! ### Runs -/

@[simp] theorem run_nil (m : Memory) : run m [] = m := rfl

@[simp] theorem run_cons (m : Memory) (call : Call) (calls : List Call) :
    run m (call :: calls) = run (perform m call).memory calls := rfl

@[simp] theorem accepted_nil (m : Memory) : accepted m [] = [] := rfl

@[simp] theorem accepted_cons (m : Memory) (call : Call) (calls : List Call) :
    accepted m (call :: calls) =
      (accepted? m call).toList ++ accepted (perform m call).memory calls := rfl

@[simp] theorem replies_nil (m : Memory) : replies m [] = [] := rfl

@[simp] theorem replies_cons (m : Memory) (call : Call) (calls : List Call) :
    replies m (call :: calls) =
      (perform m call).reply :: replies (perform m call).memory calls := rfl

theorem size_le_run (m : Memory) (calls : List Call) : m.size ≤ (run m calls).size := by
  induction calls generalizing m with
  | nil => exact Nat.le_refl _
  | cons call rest ih => exact Nat.le_trans (size_le_perform m call) (ih _)

/-- The store is never shorter than it was at an accepted write. -/
theorem room_le_size_run {m : Memory} {calls : List Call} {e : Entry}
    (he : e ∈ accepted m calls) : e.room ≤ (run m calls).size := by
  induction calls generalizing m with
  | nil => exact absurd he List.not_mem_nil
  | cons call rest ih =>
    rcases List.mem_append.mp he with he | he
    · rw [room_of_accepted? (Option.mem_toList.mp he)]
      exact size_le_run m (call :: rest)
    · exact ih he

end Call

end LinearMemory.Memory
