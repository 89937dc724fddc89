import LinearMemory.Proofs.Fixture.Outcome
import LinearMemory.Proofs.Hex.Digits

/-!
# Recordings

A run of calls can be written down as a scenario: each call as an operation that asks for it and
expects what it found, and at the end the logical length and the size that the run left. There are
many ways to write it down, since a value is spelled by more than one text. `Operation.Records` is
any of them.

* `Operation.exists_records` says that there is one, if the run has no calls of other kinds.
* `Operation.Records.replays` says that a recording passes and leaves the memory that the run left.
* `Operation.Records.performAll_set` says that it ends where an expectation is changed to a value
  that was not found.
* `Scenario.replay_recording` puts them together, with the expectations at the end.
-/

namespace LinearMemory

open Memory (Call Reply)

namespace Operation

/-- Whether there is an operation that asks for a call: there is none for a call whose rejection is
fatal, nor for one that looks at the memory otherwise than by reading a value. -/
def isRecordable : Call → Bool
  | .resize _ | .tryWrite .. | .tryAppend _ | .read _ | .view _ | .normalize _ => true
  | _ => false

/-- **Operations record calls** made on a memory: each asks for its call, and expects what the call
found on the memory that the calls before it left. -/
inductive Records : Memory → List Call → List Operation → Prop
  | nil (m : Memory) : Records m [] []
  | cons {m : Memory} {call : Call} {calls : List Call} {op : Operation} {ops : List Operation}
      {want : Option (Aspect × Finding)} (hasks : op.Asks call want)
      (hmeets : (Call.perform m call).reply.Meets want)
      (hrest : Records (Call.perform m call).memory calls ops) :
      Records m (call :: calls) (op :: ops)

/-- What the call at a place of a run found, if it shows anything. -/
def found? (m : Memory) (calls : List Call) (i : Nat) : Option Finding :=
  (Call.replies m calls)[i]?.bind Reply.finding?

/-- **A run can be recorded**: there are operations for its calls, growth stays below `2 ^ 31`
bytes, and no write is rejected. -/
structure GoesThrough (m : Memory) (calls : List Call) : Prop where
  kinds : ∀ call ∈ calls, isRecordable call = true
  sizes : ∀ size, .resize size ∈ calls → size.toNat < 2 ^ 31
  accepted : ∀ reply ∈ Call.replies m calls, ∀ rejection, reply ≠ .rejected rejection

namespace GoesThrough

variable {m : Memory} {call : Call} {calls : List Call}

theorem head (h : GoesThrough m (call :: calls)) (rejection : Memory.Rejection) :
    (Call.perform m call).reply ≠ .rejected rejection :=
  h.accepted _ List.mem_cons_self rejection

theorem tail (h : GoesThrough m (call :: calls)) :
    GoesThrough (Call.perform m call).memory calls where
  kinds c hc := h.kinds c (List.mem_cons_of_mem _ hc)
  sizes size hsize := h.sizes size (List.mem_cons_of_mem _ hsize)
  accepted reply hreply := h.accepted reply (List.mem_cons_of_mem _ hreply)

/-- The calls of a run that goes through are carried out. -/
theorem succeeds (h : GoesThrough m (call :: calls)) {op : Operation}
    {want : Option (Aspect × Finding)} (hasks : op.Asks call want) :
    (Call.perform m call).reply.succeeds = true := by
  cases hreply : (Call.perform m call).reply with
  | rejected rejection => exact absurd hreply (h.head rejection)
  | stopped cause =>
    obtain ⟨size, -, rfl, hle⟩ := exists_resize_of_stopped hasks hreply
    have hlt : size.toNat < Memory.capacity :=
      Nat.lt_trans (h.sizes size List.mem_cons_self) (by decide)
    exact absurd hlt (Nat.not_lt_of_le hle)
  | _ => rfl

end GoesThrough

/-! ### There are recordings -/

/-- Every value, present or not, is spelled somehow. -/
theorem exists_spells (value : Option (List UInt8)) : ∃ text, Spells text value := by
  cases value with
  | none => exact ⟨none, trivial⟩
  | some bytes => exact ⟨some (Hex.encode bytes), Hex.decode_encode bytes⟩

/-- A call that was not rejected can be recorded. Its offset is kept as a signed number, and is the
same word again when it is asked for. -/
theorem exists_asks {m : Memory} {call : Call} (hkind : isRecordable call = true)
    (haccepted : ∀ rejection, (Call.perform m call).reply ≠ .rejected rejection) :
    ∃ (op : Operation) (want : Option (Aspect × Finding)),
      op.Asks call want ∧ (Call.perform m call).reply.Meets want := by
  cases call with
  | resize size => exact ⟨_, _, .resize size, Reply.meets_none _⟩
  | tryWrite offset size value =>
    exact ⟨_, _, .write offset.toInt64 size (Hex.decode_encode value), Reply.meets_none _⟩
  | tryAppend value =>
    cases hput : m.tryAppend value with
    | ok went =>
      refine ⟨_, _, .append went.1 (Hex.decode_encode value), ?_⟩
      rintro aspect finding ⟨⟩
      rw [Call.perform_tryAppend_of_ok hput]
      rfl
    | error rejection =>
      refine absurd ?_ (haccepted rejection)
      rw [Call.perform_tryAppend_of_error hput]
  | normalize offset =>
    refine ⟨_, _, .normalize offset.toInt64 (m.normalize offset.toUInt32).toUInt64, ?_⟩
    rintro aspect finding ⟨⟩
    rfl
  | read offset =>
    obtain ⟨text, hspells⟩ := exists_spells (m.read? offset)
    refine ⟨_, _, .read offset.toInt64 hspells, ?_⟩
    rintro aspect finding ⟨⟩
    rfl
  | view offset =>
    obtain ⟨text, hspells⟩ := exists_spells (m.view? offset)
    refine ⟨_, _, .view offset.toInt64 hspells, ?_⟩
    rintro aspect finding ⟨⟩
    rfl
  | _ => cases hkind

/-- **A run that goes through has a recording.** -/
theorem exists_records {m : Memory} {calls : List Call} (h : GoesThrough m calls) :
    ∃ ops, Records m calls ops := by
  induction calls generalizing m with
  | nil => exact ⟨[], .nil m⟩
  | cons call rest ih =>
    obtain ⟨op, want, hasks, hmeets⟩ := exists_asks (h.kinds call List.mem_cons_self) h.head
    obtain ⟨ops, hops⟩ := ih h.tail
    exact ⟨op :: ops, .cons hasks hmeets hops⟩

/-! ### What a recording does -/

namespace Records

variable {m : Memory} {calls : List Call} {ops : List Operation}

/-- **A recording passes**, and leaves the memory that the run left. -/
theorem replays (h : Records m calls ops) (hrun : GoesThrough m calls) :
    Replays m ops (Call.run m calls) := by
  induction h with
  | nil m => exact .nil m
  | cons hasks hmeets hrest ih =>
    exact .cons ⟨_, _, hasks, hrun.succeeds hasks, hmeets, rfl⟩ (ih hrun.tail)

/-- A call shows something if something can be expected of it. -/
theorem exists_finding {m : Memory} {call : Call} {op : Operation} {aspect : Aspect}
    {want : Finding} (hasks : op.Asks call (some (aspect, want)))
    (hsucc : (Call.perform m call).reply.succeeds = true) :
    ∃ got, (Call.perform m call).reply.finding? = some got := by
  have hcomes := comes_of_asks 0 m hasks
  generalize Scenario.perform 0 m op = outcome at hcomes
  cases hcomes with
  | rejected hreply | stopped hreply =>
    rw [hreply] at hsucc
    cases hsucc
  | met _ hmeets => exact ⟨want, hmeets aspect want rfl⟩
  | missed _ hgot _ => exact ⟨_, hgot⟩

/-- **A changed expectation is noticed** where it stands, if the call found something else. -/
theorem performAll_set (h : Records m calls ops) (hrun : GoesThrough m calls) {i : Nat}
    {call : Call} {op : Operation} {aspect : Aspect} {want : Finding}
    (hcall : calls[i]? = some call) (hasks : op.Asks call (some (aspect, want))) (step : Nat) :
    ∃ got, found? m calls i = some got ∧
      (got ≠ want → Scenario.performAll step m (ops.set i op) =
        .error (.error (.unexpected ⟨step + i, aspect, got, want⟩))) := by
  induction h generalizing i step with
  | nil => cases hcall
  | @cons m call' calls op' ops want' hasks' hmeets hrest ih =>
    cases i with
    | zero =>
      cases hcall
      obtain ⟨got, hgot⟩ := exists_finding hasks (hrun.succeeds hasks)
      refine ⟨got, hgot, fun hne => ?_⟩
      simp [perform_of_fails (.unexpected hasks hgot hne)]
    | succ i =>
      obtain ⟨got, hgot, hset⟩ := ih hrun.tail hcall (step + 1)
      refine ⟨got, hgot, fun hne => ?_⟩
      have hpass : op'.Passes m (Call.perform m call').memory :=
        ⟨_, _, hasks', hrun.succeeds hasks', hmeets, rfl⟩
      have hstep : step + (i + 1) = step + 1 + i := by omega
      simpa [perform_of_passes hpass, hstep] using hset hne

end Records

end Operation

namespace Scenario

open Operation (GoesThrough Records Replays)

/-- The scenario of a recording: its operations, and what the run left. -/
def ofRecording (calls : List Call) (ops : List Operation) : Scenario :=
  ⟨ops, (Call.run .empty calls).length, UInt64.ofNat (Call.run .empty calls).size⟩

/-- **A recording is replayed.** Take any run of calls from the empty memory that goes through:
growth stays below `2 ^ 31` bytes and no write is rejected. There are operations that record it; and
whichever these are, in whatever way their values are spelled:

* the scenario of the recording is replayed, and leaves the memory that the run left;
* if one operation is changed so that it expects something else of the same call, the replay tells
  of it at this place, with what the call had found and what it was expected to find;
* if another logical length is declared the replay tells of it behind the last operation;
* and if another size is declared, likewise. -/
theorem replay_recording (calls : List Call) (hrun : GoesThrough .empty calls) :
    (∃ ops, Records .empty calls ops) ∧
    ∀ ops, Records .empty calls ops →
      (ofRecording calls ops).replay = .ok (Call.run .empty calls) ∧
      (∀ i call op aspect want, calls[i]? = some call →
        Operation.Asks op call (some (aspect, want)) →
        ∃ got, Operation.found? .empty calls i = some got ∧
          (got ≠ want → (ofRecording calls (ops.set i op)).replay =
            .error (.error (.unexpected ⟨i, aspect, got, want⟩)))) ∧
      (∀ length, (Call.run .empty calls).length ≠ length →
        (⟨ops, length, (ofRecording calls ops).size⟩ : Scenario).replay =
          .error (.error (.unexpected ⟨ops.length, .length,
            .number (Call.run .empty calls).length.toNat, .number length.toNat⟩))) ∧
      ∀ size : UInt64, (Call.run .empty calls).size ≠ size.toNat →
        (⟨ops, (ofRecording calls ops).length, size⟩ : Scenario).replay =
          .error (.error (.unexpected ⟨ops.length, .size,
            .number (Call.run .empty calls).size, .number size.toNat⟩)) := by
  refine ⟨Operation.exists_records hrun, fun ops hrecords => ?_⟩
  have hops := hrecords.replays hrun
  have hsize : (Call.run .empty calls).size =
      (UInt64.ofNat (Call.run .empty calls).size).toNat := (Memory.toNat_ofNat_size _).symm
  refine ⟨replay_eq_ok_iff.mpr ⟨hops, rfl, hsize⟩, ?_, ?_, ?_⟩
  · intro i call op aspect want hcall hasks
    obtain ⟨got, hgot, hset⟩ := hrecords.performAll_set hrun hcall hasks 0
    refine ⟨got, hgot, fun hne => ?_⟩
    have hall := hset hne
    rw [Nat.zero_add] at hall
    have hreplay : (ofRecording calls (ops.set i op)).replay =
        performAll 0 .empty (ops.set i op) >>= _ := rfl
    rw [hreplay, hall]
    rfl
  · intro length hne
    rw [replay_of_replays hops, if_neg hne]
  · intro size hne
    have hlength : (Call.run .empty calls).length = (ofRecording calls ops).length := rfl
    rw [replay_of_replays hops, if_pos hlength, if_neg hne]

/-- Growth, a write at the last offset but three, an append, and what they are found to have
done. -/
def Operation.spelledCalls : List Call :=
  [.resize 8, .tryWrite 0xfffffffffffffffc 2 [171], .tryAppend [1, 2], .read 2, .view 0,
    .normalize 0xfffffffc]

/-- A recording in mixed spellings. -/
def Operation.spelled : List Operation :=
  [.resize 8, .write (-4) 2 "aB", .append "0x0102" 2, .read 2 (some "0102"), .view 0 none,
    .normalize 0xfffffffc 4]

/-- The law at work: the recording is replayed, and a changed expectation is noticed. -/
theorem replay_recording_spelled :
    GoesThrough .empty Operation.spelledCalls ∧
      Records .empty Operation.spelledCalls Operation.spelled ∧
      (ofRecording Operation.spelledCalls Operation.spelled).replay =
        .ok (Call.run .empty Operation.spelledCalls) ∧
      (ofRecording Operation.spelledCalls
          (Operation.spelled.set 4 (.view 0 (some "0x")))).replay =
        .error (.error (.unexpected ⟨4, .view, .value none, .value (some [])⟩)) := by
  have hreplies : Call.replies .empty Operation.spelledCalls =
      [.done, .done, .position 2, .value (some [1, 2]), .value none, .position 4] := by decide
  have hrun : GoesThrough .empty Operation.spelledCalls := by
    refine ⟨by decide, ?_, ?_⟩
    · intro size hmem
      have height : size = 8 := by simpa [Operation.spelledCalls] using hmem
      rw [height]
      decide
    · intro reply hmem rejection hc
      rw [hreplies, hc] at hmem
      simp at hmem
  have hread : Spells (some "0102") (some [1, 2]) := rfl
  have hview : Spells none none := trivial
  have hrecords : Records .empty Operation.spelledCalls Operation.spelled := by
    refine .cons (.resize 8) (Reply.meets_none _) (.cons (.write (-4) 2 rfl) (Reply.meets_none _)
      (.cons (.append 2 rfl) ?_ (.cons (.read 2 hread) ?_ (.cons (.view 0 hview) ?_
        (.cons (.normalize 0xfffffffc 4) ?_ (.nil _))))))
    all_goals
      rintro aspect finding ⟨⟩
      rfl
  obtain ⟨hreplay, hset, -⟩ := (replay_recording _ hrun).2 _ hrecords
  have hempty : Spells (some "0x") (some []) := rfl
  obtain ⟨got, hgot, hchanged⟩ := hset 4 _ _ _ _ rfl (.view 0 hempty)
  have hnone : got = .value none := by
    rw [Operation.found?, hreplies] at hgot
    exact (Option.some.inj hgot).symm
  rw [hnone] at hchanged
  exact ⟨hrun, hrecords, hreplay, hchanged (by decide)⟩

end Scenario

end LinearMemory
