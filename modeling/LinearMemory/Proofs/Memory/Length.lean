import LinearMemory.Proofs.Memory.Append
import LinearMemory.Proofs.Memory.Growth
import Mathlib.Algebra.Order.BigOperators.Group.List
import Mathlib.Algebra.Order.Ring.Nat

/-!
# The logical length

Every accepted write adds to the logical length, in words, and nothing looks whether the sum still
is one. What keeps it from coming round is that the size of a write was held against the store: so a
write adds no more than the store is long, or one if it is empty. After `n` accepted writes the
logical length lies between `n` and `n` times the size of the store, and that is a word as long as
the store is below `2 ^ 31` bytes and `n` below `2 ^ 33`.

An append goes to where the logical length stands. As it never comes round, and no other call moves
it back, the offsets of the appends of a run go up, whatever is written between them.

* `Memory.Call.progress` is what a run adds, in unbounded numbers, and
  `Memory.Call.length_le_progress` and `Memory.Call.progress_le` are its bounds.
* `Memory.Call.toNat_length_perform` and `Memory.Call.toNat_length_run` say that the logical length
  moves by just this, as long as the sum is a word.
* `Memory.Call.appended_sorted` is the order of the appends, by induction on the run: all that are
  still to come go to the logical length or behind it.
* `Memory.length_orders_appends` puts these together for a run from the empty memory.
-/

namespace LinearMemory.Memory

/-- Every write moves the logical length. -/
theorem Write.one_le_advance (w : Write) : 1 ≤ w.advance :=
  Nat.le_max_right ..

namespace Call

/-- **How far a run moves the logical length**: the advances of its accepted writes, added up in
unbounded numbers. -/
def progress (m : Memory) (calls : List Call) : Nat :=
  ((accepted m calls).map fun e => e.advance).sum

/-- The offset that a call is told which appends, if its value was appended. -/
def appendedAt? (m : Memory) (call : Call) : Option UInt64 :=
  match call, (perform m call).reply with
  | .append _, .position offset | .tryAppend _, .position offset => some offset
  | _, _ => none

/-- **The offsets that the appends of a run are told**, the first one first. -/
def appended (m : Memory) : List Call → List UInt64
  | [] => []
  | call :: rest => (appendedAt? m call).toList ++ appended (perform m call).memory rest

variable {m : Memory} {call : Call} {e : Entry}

/-! ### What a run adds -/

@[simp] theorem accepted_append (m : Memory) (before behind : List Call) :
    accepted m (before ++ behind) = accepted m before ++ accepted (run m before) behind := by
  induction before generalizing m with
  | nil => rfl
  | cons call rest ih => simp [ih]

@[simp] theorem progress_append (m : Memory) (before behind : List Call) :
    progress m (before ++ behind) = progress m before + progress (run m before) behind := by
  simp [progress]

@[simp] theorem progress_nil (m : Memory) : progress m [] = 0 := rfl

theorem progress_cons (m : Memory) (call : Call) (rest : List Call) :
    progress m (call :: rest) = progress m [call] + progress (perform m call).memory rest :=
  progress_append m [call] rest

theorem progress_cons_of_some (he : accepted? m call = some e) (rest : List Call) :
    progress m (call :: rest) = e.advance + progress (perform m call).memory rest := by
  simp [progress, he]

theorem progress_cons_of_none (he : accepted? m call = none) (rest : List Call) :
    progress m (call :: rest) = progress (perform m call).memory rest := by
  simp [progress, he]

@[simp] theorem progress_of_some (he : accepted? m call = some e) : progress m [call] = e.advance :=
  progress_cons_of_some he []

@[simp] theorem progress_of_none (he : accepted? m call = none) : progress m [call] = 0 :=
  progress_cons_of_none he []

/-- **An accepted write adds no more than the store is long**, or one, also if this is told at the
end of the run. -/
theorem advance_le {calls : List Call} (he : e ∈ accepted m calls) :
    e.advance ≤ max 1 (run m calls).size := by
  induction calls generalizing m with
  | nil => exact absurd he List.not_mem_nil
  | cons call rest ih =>
    rcases List.mem_append.mp he with he | he
    · obtain ⟨-, hsize, -⟩ := put_of_accepted? (Option.mem_toList.mp he)
      have hgrown := size_le_run m (call :: rest)
      unfold Write.advance
      omega
    · exact ih he

/-- A run adds one at least for each accepted write. -/
theorem length_le_progress (m : Memory) (calls : List Call) :
    (accepted m calls).length ≤ progress m calls := by
  have hone : ∀ n ∈ (accepted m calls).map fun e => e.advance, 1 ≤ n := by
    intro n hn
    obtain ⟨e, -, rfl⟩ := List.mem_map.mp hn
    exact e.one_le_advance
  have hle := List.length_le_sum_of_one_le _ hone
  rwa [List.length_map] at hle

/-- A run adds the size of the store at most for each accepted write, or one. -/
theorem progress_le (m : Memory) (calls : List Call) :
    progress m calls ≤ (accepted m calls).length * max 1 (run m calls).size := by
  have hmost : ∀ n ∈ (accepted m calls).map fun e => e.advance, n ≤ max 1 (run m calls).size := by
    intro n hn
    obtain ⟨e, he, rfl⟩ := List.mem_map.mp hn
    exact advance_le he
  have hle := List.sum_le_card_nsmul _ _ hmost
  rwa [List.length_map, Nat.nsmul_eq_mul] at hle

/-- What one call adds is told by the store that it finds. -/
theorem progress_singleton_le (m : Memory) (call : Call) : progress m [call] ≤ max 1 m.size := by
  rcases he : accepted? m call with - | e
  · rw [progress_of_none he]
    exact Nat.zero_le _
  · obtain ⟨-, hsize, -⟩ := put_of_accepted? he
    rw [progress_of_some he, Write.advance]
    omega

/-- **Fewer than `2 ^ 33` writes on a store below `2 ^ 31` bytes** add far less than a word has. -/
theorem progress_le_of_few {calls : List Call} (hsize : (run m calls).size < 2 ^ 31)
    (hcount : (accepted m calls).length < 2 ^ 33) :
    progress m calls ≤ (2 ^ 33 - 1) * (2 ^ 31 - 1) := by
  refine Nat.le_trans (progress_le m calls) (Nat.mul_le_mul ?_ ?_)
  · omega
  · omega

/-! ### How the logical length moves -/

/-- **One accepted write** moves the logical length by its advance, if the sum is a word. -/
theorem toNat_length_perform (he : accepted? m call = some e)
    (hlt : m.length.toNat + e.advance < 2 ^ 64) :
    (perform m call).memory.length.toNat = m.length.toNat + e.advance := by
  obtain ⟨-, -, hok⟩ := put_of_accepted? he
  have hword : e.advance < 2 ^ 64 := Nat.lt_of_le_of_lt (Nat.le_add_left ..) hlt
  rw [length_of_put hok, UInt64.toNat_add, UInt64.toNat_ofNat', Nat.mod_eq_of_lt hword,
    Nat.mod_eq_of_lt hlt]

/-- **A run** moves the logical length by what it adds, if the sum is a word. -/
theorem toNat_length_run (m : Memory) (calls : List Call)
    (hlt : m.length.toNat + progress m calls < 2 ^ 64) :
    (run m calls).length.toNat = m.length.toNat + progress m calls := by
  induction calls generalizing m with
  | nil => rfl
  | cons call rest ih =>
    rw [run_cons]
    rcases he : accepted? m call with - | e
    · rw [progress_cons_of_none he, ← length_perform_of_none he] at hlt ⊢
      exact ih _ hlt
    · rw [progress_cons_of_some he] at hlt ⊢
      have hstep := toNat_length_perform he (by omega)
      rw [ih _ (by omega), hstep, Nat.add_assoc]

/-- From the empty memory on, the logical length is what the run adds. -/
theorem toNat_length_run_empty {calls : List Call} (hlt : progress .empty calls < 2 ^ 64) :
    (run .empty calls).length.toNat = progress .empty calls := by
  have hzero : Memory.empty.length.toNat = 0 := rfl
  rw [toNat_length_run .empty calls (by omega), hzero, Nat.zero_add]

/-! ### Where appends go -/

/-- **An append goes to the logical length**, and is an accepted write. -/
theorem exists_accepted?_of_appendedAt? {offset : UInt64}
    (ho : appendedAt? m call = some offset) :
    offset = m.length ∧ ∃ e, accepted? m call = some e := by
  have hwrite (w : Write) (hw : call.write? m.length = some w) := perform_write hw
  have hreply (w : Write) (hw : call.write? m.length = some w) := reply_perform_of_write? hw
  unfold appendedAt? at ho
  cases call with
  | append value | tryAppend value =>
    rcases hwrite _ rfl with ⟨hle, -, hacc⟩ | ⟨hlt, -, -⟩
    · rw [hreply _ rfl, if_neg (Nat.not_lt_of_le hle)] at ho
      cases ho
      exact ⟨rfl, _, hacc⟩
    · rw [hreply _ rfl, if_pos hlt] at ho
      cases ho
  | _ => cases ho

/-- **The appends of a run lie one behind the other**, from the logical length on, as long as what
the run adds is a word. -/
theorem appended_sorted (m : Memory) (calls : List Call)
    (hlt : m.length.toNat + progress m calls < 2 ^ 64) :
    (∀ offset ∈ appended m calls, m.length ≤ offset) ∧
      (appended m calls).Pairwise (· < ·) := by
  induction calls generalizing m with
  | nil => exact ⟨fun offset ho => absurd ho List.not_mem_nil, .nil⟩
  | cons call rest ih =>
    rw [appended]
    rcases he : accepted? m call with - | e
    · -- Nothing is written, so nothing is appended, and the logical length stays.
      have hnone : appendedAt? m call = none := by
        refine Option.eq_none_iff_forall_ne_some.mpr fun offset ho => ?_
        obtain ⟨-, e, hsome⟩ := exists_accepted?_of_appendedAt? ho
        rw [he] at hsome
        cases hsome
      rw [progress_cons_of_none he, ← length_perform_of_none he] at hlt
      rw [hnone, Option.toList_none, List.nil_append, ← length_perform_of_none he]
      exact ih _ hlt
    · rw [progress_cons_of_some he] at hlt
      have hstep := toNat_length_perform he (by omega)
      have hone := e.one_le_advance
      have hnext : m.length < (perform m call).memory.length := by
        rw [UInt64.lt_iff_toNat_lt]
        omega
      obtain ⟨hbehind, hsorted⟩ := ih (perform m call).memory (by omega)
      have hall : ∀ offset ∈ appended (perform m call).memory rest, m.length < offset :=
        fun offset ho => UInt64.lt_of_lt_of_le hnext (hbehind offset ho)
      rcases ho : appendedAt? m call with - | offset
      · exact ⟨fun offset ho => UInt64.le_of_lt (hall offset ho), hsorted⟩
      · -- What comes behind this append goes behind the logical length that it moved.
        obtain ⟨rfl, -⟩ := exists_accepted?_of_appendedAt? ho
        rw [Option.toList_some, List.singleton_append]
        refine ⟨?_, List.pairwise_cons.mpr ⟨hall, hsorted⟩⟩
        intro offset ho
        rcases List.mem_cons.mp ho with rfl | ho
        · exact UInt64.le_refl _
        · exact UInt64.le_of_lt (hall offset ho)

end Call

/-! ### The law -/

/-- **The logical length does not come round, and orders all appends.** On every run from the empty
memory that leaves a store below `2 ^ 31` bytes and accepts fewer than `2 ^ 33` writes, where an
append is a write too:

* the logical length is at least the number of accepted writes, and at most this number times the
  size of the store, or times one while the store is empty;
* at every call whose write is accepted the sum of the logical length and the advance is a word, so
  the logical length becomes this sum and is greater than before. At any other call it stays;
* it is zero if and only if no write was accepted;
* the offsets that the appends are told go up, so no two of them are equal. -/
theorem length_orders_appends (calls : List Call)
    (hsize : (Call.run .empty calls).size < 2 ^ 31)
    (hcount : (Call.accepted .empty calls).length < 2 ^ 33) :
    ((Call.accepted .empty calls).length ≤ (Call.run .empty calls).length.toNat ∧
        (Call.run .empty calls).length.toNat ≤
          (Call.accepted .empty calls).length * max 1 (Call.run .empty calls).size) ∧
      (∀ before call behind, calls = before ++ call :: behind →
        (∀ e, Call.accepted? (Call.run .empty before) call = some e →
          (Call.run .empty before).length.toNat + e.advance < 2 ^ 64 ∧
            (Call.run .empty (before ++ [call])).length.toNat =
              (Call.run .empty before).length.toNat + e.advance ∧
            (Call.run .empty before).length < (Call.run .empty (before ++ [call])).length) ∧
        (Call.accepted? (Call.run .empty before) call = none →
          (Call.run .empty (before ++ [call])).length = (Call.run .empty before).length)) ∧
      ((Call.run .empty calls).isEmpty = true ↔ (Call.accepted .empty calls).length = 0) ∧
      (Call.appended .empty calls).Pairwise (· < ·) ∧
      (Call.appended .empty calls).Nodup := by
  have hmost := Call.progress_le .empty calls
  have hleast := Call.length_le_progress .empty calls
  have hword : Call.progress .empty calls < 2 ^ 64 :=
    Nat.lt_of_le_of_lt (Call.progress_le_of_few hsize hcount) (by decide)
  have hlength := Call.toNat_length_run_empty hword
  have hsorted : (Call.appended .empty calls).Pairwise (· < ·) := by
    refine (Call.appended_sorted .empty calls ?_).2
    have hzero : Memory.empty.length.toNat = 0 := rfl
    omega
  refine ⟨⟨by omega, by omega⟩, ?_, ?_, hsorted, ?_⟩
  · rintro before call behind rfl
    rw [Call.run_append, Call.run_cons, Call.run_nil]
    refine ⟨fun e he => ?_, length_perform_of_none⟩
    -- What the run added by then and adds by this call is a part of all that it adds.
    rw [Call.progress_append, Call.progress_cons_of_some he] at hword
    have hbefore : (Call.run .empty before).length.toNat = Call.progress .empty before :=
      Call.toNat_length_run_empty (by omega)
    have hsum : (Call.run .empty before).length.toNat + e.advance < 2 ^ 64 := by omega
    have hstep := Call.toNat_length_perform he hsum
    have hone := e.one_le_advance
    refine ⟨hsum, hstep, ?_⟩
    rw [UInt64.lt_iff_toNat_lt]
    omega
  · have hzero : (Call.run .empty calls).isEmpty = true ↔
        (Call.run .empty calls).length.toNat = 0 := by
      rw [isEmpty, beq_iff_eq, ← UInt64.toNat_inj]
      rfl
    rw [hzero, hlength]
    constructor
    · intro hnone
      omega
    · intro hnone
      rw [hnone, Nat.zero_mul] at hmost
      omega
  · exact hsorted.imp UInt64.ne_of_lt

/-- Writes at offsets of their own before, between and behind appends: an empty one to a store that
has no byte yet, one that overlaps what was appended, and one that is rejected. -/
def Call.writesBetween : List Call :=
  [.tryWrite 9 0 [5], .append [], .resize 4, .append [1, 2], .write 0 4 [9], .tryWrite 0 5 [1],
    .tryAppend [1, 2, 3, 4, 5], .read 2, .tryAppend [7]]

/-- The law at work: five writes are accepted, three of them appends, and where these go is moved on
by the other two. -/
theorem length_orders_appends_writesBetween :
    (Call.run .empty Call.writesBetween).size = 4 ∧
      (Call.accepted .empty Call.writesBetween).length = 5 ∧
      (5 ≤ (Call.run .empty Call.writesBetween).length.toNat ∧
        (Call.run .empty Call.writesBetween).length.toNat ≤ 5 * 4) ∧
      (Call.run .empty (Call.writesBetween.take 4)).length.toNat = 4 ∧
      (Call.run .empty (Call.writesBetween.take 5)).length.toNat = 4 + 4 ∧
      (Call.run .empty Call.writesBetween).isEmpty = false ∧
      Call.appended .empty Call.writesBetween = [1, 2, 8] ∧
      (Call.appended .empty Call.writesBetween).Nodup := by
  have hsize : (Call.run .empty Call.writesBetween).size = 4 := by decide
  have hcount : (Call.accepted .empty Call.writesBetween).length = 5 := by decide
  have hfour : (Call.run .empty (Call.writesBetween.take 4)).length.toNat = 4 := by decide
  obtain ⟨hbounds, hstep, hempty, -, hnodup⟩ := length_orders_appends Call.writesBetween
    (by rw [hsize]; decide) (by rw [hcount]; decide)
  rw [hsize, hcount] at hbounds
  obtain ⟨-, hmoved, -⟩ := (hstep (Call.writesBetween.take 4) (.write 0 4 [9])
    (Call.writesBetween.drop 5) rfl).1 ⟨⟨0, 4, [9]⟩, 4⟩ (by decide)
  rw [hfour] at hmoved
  refine ⟨hsize, hcount, hbounds, hfour, hmoved, ?_, by decide, hnodup⟩
  rw [Bool.eq_false_iff, Ne, hempty, hcount]
  decide

end LinearMemory.Memory
