import LinearMemory.Proofs.Memory.History

/-!
# Calls that are refused

A call is refused in two ways: it answers with a rejection, or it stops fatally. Either way it
leaves the memory as it was, so a run might as well have gone without it. Which calls are refused
is no secret of the memory either. A request to grow is refused from the capacity on, and a write
if it asks for more than the store has, which is the greatest size that the store grew to so far.
Neither its offset has a say in this nor any write before it.

* `Memory.Call.isRefusal_of_growth?`, `Memory.Call.isRefusal_of_asked?` and
  `Memory.Call.isRefusal_eq_false` say which calls are refused.
* `Memory.Call.run_carriedOut` and `Memory.Call.replies_carriedOut` say that the others do what they
  did when the refused ones are left out.
* `Memory.refused_calls_erased` is the law.
-/

namespace LinearMemory.Memory

/-- **Whether an answer refuses the call**: it is a rejection or a fatal stop. -/
def Reply.isRefusal : Reply → Bool
  | .rejected _ | .stopped _ => true
  | _ => false

namespace Call

/-- The size that a call asks to write. An append asks for the length of its value. -/
def asked? : Call → Option UInt64
  | .write _ size _ | .tryWrite _ size _ => some size
  | .append value | .tryAppend value => some (UInt64.ofNat value.length)
  | _ => none

/-- The call that takes a rejection for a fatal stop, in place of one that answers with it. -/
def fatal? : Call → Option Call
  | .tryWrite offset size value => some (.write offset size value)
  | .tryAppend value => some (.append value)
  | _ => none

/-- **The calls of a run that are carried out**, in the order of the run. -/
def carriedOut (m : Memory) : List Call → List Call
  | [] => []
  | call :: rest =>
    if (perform m call).reply.isRefusal then carriedOut (perform m call).memory rest
    else call :: carriedOut (perform m call).memory rest

variable {m : Memory} {call : Call} {size : UInt64}

/-! ### Which calls are refused -/

/-- A call that asks for a size asks for a write of this size, at any logical length. -/
theorem exists_write?_of_asked? (h : call.asked? = some size) (length : UInt64) :
    ∃ w, call.write? length = some w ∧ w.size = size := by
  cases call with
  | write offset size' value | tryWrite offset size' value =>
    cases h
    exact ⟨_, rfl, rfl⟩
  | append value | tryAppend value =>
    cases h
    exact ⟨_, rfl, rfl⟩
  | _ => cases h

/-- A call that asks for no size asks for no write. -/
theorem write?_eq_none_of_asked? (h : call.asked? = none) (length : UInt64) :
    call.write? length = none := by
  cases call with
  | write | tryWrite | append | tryAppend => cases h
  | _ => rfl

@[simp] theorem isRefusal_refusal (rejection : Rejection) (call : Call) :
    (call.refusal rejection).isRefusal = true := by
  cases call <;> rfl

@[simp] theorem isRefusal_acceptance (length : UInt64) (call : Call) :
    (call.acceptance length).isRefusal = false := by
  cases call <;> rfl

/-- What a call is told that asks for a size. -/
theorem reply_of_asked? (h : call.asked? = some size) :
    (perform m call).reply =
      if m.size < size.toNat then call.refusal ⟨size, m.size⟩ else call.acceptance m.length := by
  obtain ⟨w, hw, rfl⟩ := exists_write?_of_asked? h m.length
  exact reply_perform_of_write? hw

/-- **A write is refused** if its size exceeds the store. -/
theorem isRefusal_of_asked? (h : call.asked? = some size) :
    (perform m call).reply.isRefusal = true ↔ m.size < size.toNat := by
  rw [reply_of_asked? h]
  split
  · next hlt => exact iff_of_true (isRefusal_refusal _ _) hlt
  · next hle => exact iff_of_false (by rw [isRefusal_acceptance]; exact Bool.false_ne_true) hle

/-- What a request to grow is told. -/
theorem reply_resize (m : Memory) (size : UInt64) :
    (perform m (.resize size)).reply =
      if 2 ^ 63 ≤ size.toNat then .stopped .capacityOverflow else .done := by
  cases hr : m.resize size with
  | ok next =>
    have hlt : size.toNat < 2 ^ 63 := lt_capacity_of_resize hr
    rw [perform_resize_of_ok hr, if_neg (Nat.not_le_of_lt hlt)]
  | error cause =>
    obtain ⟨hle, rfl⟩ := (resize_eq_error_iff _ _ _).mp hr
    have hcap : 2 ^ 63 ≤ size.toNat := hle
    rw [perform_resize_of_error hr, if_pos hcap]

/-- **A request to grow is refused** from the capacity on. -/
theorem isRefusal_of_growth? (h : call.growth? = some size) :
    (perform m call).reply.isRefusal = true ↔ 2 ^ 63 ≤ size.toNat := by
  cases call with
  | resize size' =>
    cases h
    rw [reply_resize]
    split
    · next hle => exact iff_of_true rfl hle
    · next hlt => exact iff_of_false Bool.false_ne_true hlt
  | _ => cases h

/-- No other call is refused. -/
theorem isRefusal_eq_false (hg : call.growth? = none) (ha : call.asked? = none) :
    (perform m call).reply.isRefusal = false := by
  cases call with
  | resize => cases hg
  | write | tryWrite | append | tryAppend => cases ha
  | _ => rfl

/-- **A call that is refused leaves the memory as it was.** -/
theorem memory_of_isRefusal (h : (perform m call).reply.isRefusal = true) :
    (perform m call).memory = m := by
  cases hg : call.growth? with
  | some size =>
    rcases perform_growth hg with ⟨hlt, -⟩ | ⟨-, hkeep⟩
    · exact absurd ((isRefusal_of_growth? hg).mp h) (Nat.not_le_of_lt hlt)
    · exact hkeep
  | none =>
    cases ha : call.asked? with
    | some size =>
      obtain ⟨w, hw, rfl⟩ := exists_write?_of_asked? ha m.length
      rcases perform_write hw with ⟨hle, -, -⟩ | ⟨-, hkeep, -⟩
      · exact absurd ((isRefusal_of_asked? ha).mp h) (Nat.not_lt_of_le hle)
      · exact hkeep
    | none => exact memory_perform_eq_self hg (write?_eq_none_of_asked? ha _)

/-! ### A run without its refused calls -/

@[simp] theorem carriedOut_cons_of_refused (h : (perform m call).reply.isRefusal = true)
    (rest : List Call) : carriedOut m (call :: rest) = carriedOut m rest := by
  rw [carriedOut, if_pos h, memory_of_isRefusal h]

@[simp] theorem carriedOut_cons_of_not_refused (h : (perform m call).reply.isRefusal ≠ true)
    (rest : List Call) :
    carriedOut m (call :: rest) = call :: carriedOut (perform m call).memory rest :=
  if_neg h

/-- **The calls that are carried out lead to the same memory** without the refused ones. -/
theorem run_carriedOut (m : Memory) (calls : List Call) :
    run m (carriedOut m calls) = run m calls := by
  induction calls generalizing m with
  | nil => rfl
  | cons call rest ih =>
    by_cases h : (perform m call).reply.isRefusal = true
    · rw [carriedOut_cons_of_refused h, ih, run_cons, memory_of_isRefusal h]
    · rw [carriedOut_cons_of_not_refused h, run_cons, run_cons, ih]

/-- **They are told what they were told** with the refused ones among them. -/
theorem replies_carriedOut (m : Memory) (calls : List Call) :
    replies m (carriedOut m calls) = (replies m calls).filter fun reply => !reply.isRefusal := by
  induction calls generalizing m with
  | nil => rfl
  | cons call rest ih =>
    by_cases h : (perform m call).reply.isRefusal = true
    · rw [carriedOut_cons_of_refused h, ih, replies_cons, List.filter_cons, h,
        memory_of_isRefusal h]
      rfl
    · rw [carriedOut_cons_of_not_refused h, replies_cons, ih, replies_cons, List.filter_cons,
        Bool.eq_false_iff.mpr h]
      rfl

/-- **The size of the store is the greatest size that it grew to**, or the one it had. -/
theorem size_run (m : Memory) (calls : List Call) :
    (run m calls).size = (growths (carriedOut m calls)).foldl max m.size := by
  induction calls generalizing m with
  | nil => rfl
  | cons call rest ih =>
    rw [run_cons, ih]
    by_cases h : (perform m call).reply.isRefusal = true
    · rw [carriedOut_cons_of_refused h, memory_of_isRefusal h]
    · rw [carriedOut_cons_of_not_refused h]
      rcases hg : call.growth? with - | size
      · rw [growths_cons_of_none hg, size_perform_of_growth? hg]
      · rcases perform_growth hg with ⟨-, hok⟩ | ⟨hcap, -⟩
        · rw [growths_cons_of_some hg, List.foldl_cons, size_of_resize hok]
        · exact absurd ((isRefusal_of_growth? hg).mpr hcap) h

/-! ### A rejection as a fatal stop -/

/-- A call and the one that takes a rejection for a fatal stop ask for the same write, and are told
the same if it is made. -/
theorem fatal?_spec {fatal : Call} (h : call.fatal? = some fatal) (length : UInt64)
    (rejection : Rejection) :
    fatal.write? length = call.write? length ∧ fatal.acceptance length = call.acceptance length ∧
      call.refusal rejection = .rejected rejection ∧
      fatal.refusal rejection = .stopped (.rejected rejection) := by
  cases call with
  | tryWrite | tryAppend =>
    cases h
    exact ⟨rfl, rfl, rfl, rfl⟩
  | _ => cases h

/-- **Where the one call is rejected the other stops**, with the same rejection; anywhere else the
two do the same and are told the same. -/
theorem perform_fatal {fatal : Call} (h : call.fatal? = some fatal) (ha : call.asked? = some size)
    (m : Memory) :
    (perform m fatal).memory = (perform m call).memory ∧
      (perform m fatal).events = (perform m call).events ∧
      (m.size < size.toNat →
        (perform m call).reply = .rejected ⟨size, m.size⟩ ∧
          (perform m fatal).reply = .stopped (.rejected ⟨size, m.size⟩)) ∧
      (size.toNat ≤ m.size →
        (perform m call).reply.isRefusal = false ∧
          (perform m fatal).reply = (perform m call).reply) := by
  obtain ⟨w, hw, rfl⟩ := exists_write?_of_asked? ha m.length
  obtain ⟨hsame, hacceptance, hrejected, hstopped⟩ := fatal?_spec h m.length ⟨w.size, m.size⟩
  have hw' : fatal.write? m.length = some w := hsame.trans hw
  have hmemory : (perform m fatal).memory = (perform m call).memory := by
    rcases hput : m.put w with rejection | next
    · rw [perform_of_put_error hw hput, perform_of_put_error hw' hput]
    · rw [perform_of_put_ok hw hput, perform_of_put_ok hw' hput]
  have hevents : (perform m fatal).events = (perform m call).events := by
    rw [events_perform_of_write? hw, events_perform_of_write? hw']
  refine ⟨hmemory, hevents, fun hlt => ?_, fun hle => ?_⟩
  · rw [reply_perform_of_write? hw, reply_perform_of_write? hw', if_pos hlt, if_pos hlt]
    exact ⟨hrejected, hstopped⟩
  · have hnot := Nat.not_lt_of_le hle
    rw [reply_perform_of_write? hw, reply_perform_of_write? hw', if_neg hnot, if_neg hnot]
    exact ⟨isRefusal_acceptance _ _, hacceptance⟩

end Call

/-- **Refused calls can be erased.** On every run from the empty memory:

* a call that writes is refused if and only if the size that it asks for exceeds the greatest size
  that the store grew to so far, whatever its offset and the writes before it;
* at any moment, the calls that take a rejection for a fatal stop do so where their counterparts
  answer with it, for this size and the length of the store; anywhere else they do and are told the
  same;
* a request to grow is refused from `2 ^ 63` bytes on, and besides these no call is refused;
* without its refused calls the run ends in the same memory, and all other calls are told what they
  were told. -/
theorem refused_calls_erased (calls : List Call) :
    (∀ before call behind size, calls = before ++ call :: behind → call.asked? = some size →
      ((Call.perform (Call.run .empty before) call).reply.isRefusal = true ↔
        (Call.growths (Call.carriedOut .empty before)).foldl max 0 < size.toNat)) ∧
    (∀ (m : Memory) call fatal size, call.fatal? = some fatal → call.asked? = some size →
      (Call.perform m fatal).memory = (Call.perform m call).memory ∧
      (Call.perform m fatal).events = (Call.perform m call).events ∧
      (m.size < size.toNat →
        (Call.perform m call).reply = .rejected ⟨size, m.size⟩ ∧
          (Call.perform m fatal).reply = .stopped (.rejected ⟨size, m.size⟩)) ∧
      (size.toNat ≤ m.size →
        (Call.perform m call).reply.isRefusal = false ∧
          (Call.perform m fatal).reply = (Call.perform m call).reply)) ∧
    (∀ (m : Memory) size, (Call.perform m (.resize size)).reply =
      if 2 ^ 63 ≤ size.toNat then .stopped .capacityOverflow else .done) ∧
    (∀ (m : Memory) call, (Call.perform m call).reply.isRefusal = true →
      call.asked? ≠ none ∨ call.growth? ≠ none) ∧
    Call.run .empty (Call.carriedOut .empty calls) = Call.run .empty calls ∧
    Call.replies .empty (Call.carriedOut .empty calls) =
      (Call.replies .empty calls).filter (fun reply => !reply.isRefusal) := by
  refine ⟨?_, ?_, Call.reply_resize, ?_, Call.run_carriedOut _ _, Call.replies_carriedOut _ _⟩
  · rintro before call behind size - hasked
    rw [Call.isRefusal_of_asked? hasked, Call.size_run]
    rfl
  · intro m call fatal size hfatal hasked
    exact Call.perform_fatal hfatal hasked m
  · intro m call hrefused
    by_contra hnot
    obtain ⟨hasked, hgrowth⟩ := not_or.mp hnot
    rw [Call.isRefusal_eq_false (not_not.mp hgrowth) (not_not.mp hasked)] at hrefused
    cases hrefused

/-- A run with every way of being refused: a write and an append that are rejected, the two that
stop for it, and a request to grow to the capacity. -/
def Call.refusedRun : List Call :=
  [.tryWrite 0 1 [1], .resize 4, .write 0 5 [1], .tryAppend [1, 2], .resize 0x8000000000000000,
    .append [1, 2, 3, 4, 5], .tryAppend [1, 2, 3, 4, 5], .append [3], .read 2]

/-- The law at work: what is carried out is told the same without the rest, and whether the last
append but one is refused is seen from the one growth before it. -/
theorem refused_calls_erased_refusedRun :
    Call.carriedOut .empty Call.refusedRun =
        [.resize 4, .tryAppend [1, 2], .append [3], .read 2] ∧
      Call.replies .empty [.resize 4, .tryAppend [1, 2], .append [3], .read 2] =
        [.done, .position 0, .position 2, .value (some [3])] ∧
      (Call.perform (Call.run .empty (Call.refusedRun.take 6))
        (.tryAppend [1, 2, 3, 4, 5])).reply.isRefusal = true := by
  have hcarried : Call.carriedOut .empty Call.refusedRun =
      [.resize 4, .tryAppend [1, 2], .append [3], .read 2] := by decide
  obtain ⟨hrefused, -, -, -, -, hreplies⟩ := refused_calls_erased Call.refusedRun
  rw [hcarried] at hreplies
  refine ⟨hcarried, hreplies.trans (by decide), ?_⟩
  exact (hrefused _ _ [.append [3], .read 2] 5 rfl rfl).mpr (by decide)

end LinearMemory.Memory
