import LinearMemory.Fixture.Replay
import LinearMemory.Proofs.Memory.Run

/-!
# What a replay comes to

An operation of a scenario stands for a call on the memory, and most operations come with something
that the call is expected to find. `Operation.Asks` says which call and what finding that is; it
holds only if the texts of the operation are hex. So there are three ways for an operation to fail,
in the order in which they are looked for: a text is not hex, the call is rejected, or it finds
something else. `Operation.Fails` is these three, each under the condition that the ones before it
do not apply.

* `Operation.comes_of_asks` is what one operation does, given what it asks for: one of the four
  cases of `Operation.Comes`. All that follows is derived from it and from
  `Operation.perform_of_garbled`.
* `Operation.Replays` says that operations pass one after the other, and which memory they leave.
* `Scenario.performAll_eq_ok_iff` and `Scenario.performAll_eq_error_iff` say that a list of
  operations is carried out if all of them pass, and else ends with the first that does not.
* `Scenario.replay_outcome` is what this means for a whole scenario.
-/

namespace LinearMemory

open Memory (Call Reply)

/-! ### What is asked of a memory -/

/-- What an answer shows, as far as it can be held against an expectation. -/
def Memory.Reply.finding? : Reply → Option Finding
  | .position offset => some (.number offset.toNat)
  | .value bytes => some (.value bytes)
  | _ => none

/-- Whether a call was carried out: it was not rejected, nor did it stop. -/
def Memory.Reply.succeeds : Reply → Bool
  | .rejected _ | .stopped _ => false
  | _ => true

/-- **An answer meets an expectation**, if there is one. -/
def Memory.Reply.Meets (reply : Reply) (want : Option (Aspect × Finding)) : Prop :=
  ∀ aspect finding, want = some (aspect, finding) → reply.finding? = some finding

theorem Memory.Reply.meets_none (reply : Reply) : reply.Meets none :=
  fun _ _ hnone => nomatch hnone

/-- **A text spells a value** that may be absent: the absent value has no text. -/
def Spells : Option String → Option (List UInt8) → Prop
  | none, none => True
  | some text, some value => Hex.decode text = .ok value
  | _, _ => False

namespace Operation

/-- **What an operation asks for**: the call that it makes, and what the call is expected to find,
if anything is. The signed offset of the operation is the offset of the call as a word. -/
inductive Asks : Operation → Call → Option (Aspect × Finding) → Prop
  | resize (size : UInt64) : Asks (.resize size) (.resize size) none
  | write {text : String} {value : List UInt8} (offset : Int64) (size : UInt64)
      (hvalue : Hex.decode text = .ok value) :
      Asks (.write offset size text) (.tryWrite offset.toUInt64 size value) none
  | append {text : String} {value : List UInt8} (expect : UInt64)
      (hvalue : Hex.decode text = .ok value) :
      Asks (.append text expect) (.tryAppend value) (some (.append, .number expect.toNat))
  | read {expect : Option String} {want : Option (List UInt8)} (offset : Int64)
      (hwant : Spells expect want) :
      Asks (.read offset expect) (.read offset.toUInt64) (some (.read, .value want))
  | view {expect : Option String} {want : Option (List UInt8)} (offset : Int64)
      (hwant : Spells expect want) :
      Asks (.view offset expect) (.view offset.toUInt64) (some (.view, .value want))
  | normalize (offset : Int64) (expect : UInt64) :
      Asks (.normalize offset expect) (.normalize offset.toUInt64)
        (some (.normalize, .number expect.toNat))

/-- The text of an operation that has to be hex, if it has one. -/
def text? : Operation → Option String
  | .write _ _ value | .append value _ => some value
  | .read _ expect | .view _ expect => expect
  | .resize _ | .normalize .. => none

/-- An operation asks for something unless its text is not hex. -/
theorem asks_or_garbled (op : Operation) :
    (∃ call want, op.Asks call want) ∨
      ∃ text fault, op.text? = some text ∧ Hex.decode text = .error fault := by
  have hvalue : ∀ text, (∃ value, Hex.decode text = .ok value) ∨
      ∃ fault, Hex.decode text = .error fault := by
    intro text
    cases Hex.decode text with
    | ok value => exact Or.inl ⟨value, rfl⟩
    | error fault => exact Or.inr ⟨fault, rfl⟩
  have hwant : ∀ expect, (∃ want, Spells expect want) ∨
      ∃ text fault, expect = some text ∧ Hex.decode text = .error fault := by
    rintro (_ | text)
    · exact Or.inl ⟨none, trivial⟩
    · rcases hvalue text with ⟨value, h⟩ | ⟨fault, h⟩
      · exact Or.inl ⟨some value, h⟩
      · exact Or.inr ⟨text, fault, rfl, h⟩
  cases op with
  | resize size => exact Or.inl ⟨_, _, .resize size⟩
  | write offset size text =>
    rcases hvalue text with ⟨value, h⟩ | ⟨fault, h⟩
    · exact Or.inl ⟨_, _, .write offset size h⟩
    · exact Or.inr ⟨text, fault, rfl, h⟩
  | append text expect =>
    rcases hvalue text with ⟨value, h⟩ | ⟨fault, h⟩
    · exact Or.inl ⟨_, _, .append expect h⟩
    · exact Or.inr ⟨text, fault, rfl, h⟩
  | read offset expect =>
    rcases hwant expect with ⟨want, h⟩ | h
    · exact Or.inl ⟨_, _, .read offset h⟩
    · exact Or.inr h
  | view offset expect =>
    rcases hwant expect with ⟨want, h⟩ | h
    · exact Or.inl ⟨_, _, .view offset h⟩
    · exact Or.inr h
  | normalize offset expect => exact Or.inl ⟨_, _, .normalize offset expect⟩

end Operation

/-! ### One operation -/

namespace Scenario

@[simp]
theorem decode_of_ok {text : String} {value : List UInt8} (h : Hex.decode text = .ok value) :
    decode text = .ok value := by
  rw [decode, h]
  rfl

@[simp]
theorem decode_of_error {text : String} {fault : Hex.Fault} (h : Hex.decode text = .error fault) :
    decode text = .error (.error (.hex fault)) := by
  rw [decode, h]
  rfl

theorem decodeExpected_of_spells {expect : Option String} {want : Option (List UInt8)}
    (h : Spells expect want) : decodeExpected expect = .ok want := by
  match expect, want, h with
  | none, none, _ => rfl
  | some text, some value, h =>
    rw [decodeExpected, decode_of_ok h]
    rfl

end Scenario

namespace Operation

variable {op : Operation} {call : Call} {want : Option (Aspect × Finding)}

/-- An operation with a text that is not hex fails before it makes its call. -/
theorem perform_of_garbled {text : String} {fault : Hex.Fault} (htext : op.text? = some text)
    (hfault : Hex.decode text = .error fault) (step : Nat) (m : Memory) :
    Scenario.perform step m op = .error (.error (.hex fault)) := by
  have hdecode := Scenario.decode_of_error hfault
  cases op with
  | write offset size value | append value expect =>
    cases htext
    rw [Scenario.perform, hdecode]
    rfl
  | read offset expect | view offset expect =>
    cases htext
    rw [Scenario.perform, Scenario.decodeExpected, hdecode]
    rfl
  | _ => cases htext

/-- **What comes of an operation**, told by what its call leaves behind and what the call is
expected to find. -/
inductive Comes (step : Nat) (want : Option (Aspect × Finding)) (left : Memory.Outcome) :
    Except Failure Memory → Prop
  /-- The call is rejected. -/
  | rejected {rejection : Memory.Rejection} (hreply : left.reply = .rejected rejection) :
      Comes step want left (.error (.error (.rejected rejection)))
  /-- The call stops. -/
  | stopped {cause : Memory.Fatal} (hreply : left.reply = .stopped cause) :
      Comes step want left (.error (.fatal cause))
  /-- The call is carried out, and its answer meets the expectation. -/
  | met (hsucc : left.reply.succeeds = true) (hmeets : left.reply.Meets want) :
      Comes step want left (.ok left.memory)
  /-- The call finds something else. -/
  | missed {aspect : Aspect} {finding got : Finding} (hwant : want = some (aspect, finding))
      (hgot : left.reply.finding? = some got) (hne : got ≠ finding) :
      Comes step want left (.error (.error (.unexpected ⟨step, aspect, got, finding⟩)))

/-- A finding is held against an expectation. -/
theorem comes_of_finding {left : Memory.Outcome} {got : Finding}
    (hgot : left.reply.finding? = some got) (step : Nat) (aspect : Aspect) (finding : Finding) :
    Comes step (some (aspect, finding)) left
      (Scenario.check step aspect got finding >>= fun _ => .ok left.memory) := by
  by_cases heq : got = finding
  · have hcheck : Scenario.check step aspect got finding = .ok () := if_pos heq
    rw [hcheck]
    refine .met ?_ ?_
    · unfold Reply.finding? at hgot
      split at hgot
      · next offset hreply => rw [hreply]; rfl
      · next value hreply => rw [hreply]; rfl
      · cases hgot
    · rintro aspect' finding' ⟨⟩
      rw [hgot, heq]
  · have hcheck : Scenario.check step aspect got finding =
        .error (.error (.unexpected ⟨step, aspect, got, finding⟩)) := if_neg heq
    rw [hcheck]
    exact .missed rfl hgot heq

variable (step : Nat) (m : Memory)

theorem comes_resize (size : UInt64) :
    Comes step none (Call.perform m (.resize size)) (Scenario.perform step m (.resize size)) := by
  rw [Scenario.perform]
  cases hgrow : m.resize size with
  | ok next =>
    rw [Call.perform_resize_of_ok hgrow]
    exact .met rfl (Reply.meets_none _)
  | error cause =>
    rw [Call.perform_resize_of_error hgrow]
    exact .stopped rfl

theorem comes_write {text : String} {value : List UInt8} (hvalue : Hex.decode text = .ok value)
    (offset : Int64) (size : UInt64) :
    Comes step none (Call.perform m (.tryWrite offset.toUInt64 size value))
      (Scenario.perform step m (.write offset size text)) := by
  have hperform : Scenario.perform step m (.write offset size text) =
      Scenario.accepted (m.tryWrite offset.toUInt64 size value) := by
    rw [Scenario.perform, Scenario.decode_of_ok hvalue]
    rfl
  rw [hperform]
  cases hput : m.tryWrite offset.toUInt64 size value with
  | ok next =>
    rw [Call.perform_of_put_ok (w := ⟨offset.toUInt64, size, value⟩) rfl hput]
    exact .met rfl (Reply.meets_none _)
  | error rejection =>
    rw [Call.perform_of_put_error (w := ⟨offset.toUInt64, size, value⟩) rfl hput]
    exact .rejected rfl

theorem comes_append {text : String} {value : List UInt8} (hvalue : Hex.decode text = .ok value)
    (expect : UInt64) :
    Comes step (some (.append, .number expect.toNat)) (Call.perform m (.tryAppend value))
      (Scenario.perform step m (.append text expect)) := by
  have hperform : Scenario.perform step m (.append text expect) =
      Scenario.accepted (m.tryAppend value) >>= fun went =>
        Scenario.check step .append (.number went.1.toNat) (.number expect.toNat) >>= fun _ =>
          .ok went.2 := by
    rw [Scenario.perform, Scenario.decode_of_ok hvalue]
    rfl
  rw [hperform]
  cases hput : m.tryAppend value with
  | ok went =>
    rw [Call.perform_tryAppend_of_ok hput]
    exact comes_of_finding rfl step .append _
  | error rejection =>
    rw [Call.perform_tryAppend_of_error hput]
    exact .rejected rfl

/-- **What one operation does**, told by the call that it asks for: a rejection and a fatal stop are
passed on; otherwise the operation leaves the memory of the call if the answer meets its
expectation, and tells of the difference if not. -/
theorem comes_of_asks (h : op.Asks call want) :
    Comes step want (Call.perform m call) (Scenario.perform step m op) := by
  cases h with
  | resize size => exact comes_resize step m size
  | write offset size hvalue => exact comes_write step m hvalue offset size
  | append expect hvalue => exact comes_append step m hvalue expect
  | @read expect want offset hwant =>
    have hperform : Scenario.perform step m (.read offset expect) =
        Scenario.check step .read (.value (m.read? offset.toUInt64)) (.value want) >>= fun _ =>
          .ok m := by
      rw [Scenario.perform, Scenario.decodeExpected_of_spells hwant]
      rfl
    rw [hperform]
    exact comes_of_finding rfl step .read _
  | @view expect want offset hwant =>
    have hperform : Scenario.perform step m (.view offset expect) =
        Scenario.check step .view (.value (m.view? offset.toUInt64)) (.value want) >>= fun _ =>
          .ok m := by
      rw [Scenario.perform, Scenario.decodeExpected_of_spells hwant]
      rfl
    rw [hperform]
    exact comes_of_finding rfl step .view _
  | normalize offset expect =>
    have hgot : (Call.perform m (.normalize offset.toUInt64)).reply.finding? =
        some (.number (m.normalize offset.toUInt64.toUInt32).toNat) := by
      rw [← UInt32.toNat_toUInt64]
      rfl
    exact comes_of_finding hgot step .normalize _

/-- **An operation passes**: it asks for something, the call is carried out, and the answer meets
the expectation. What it leaves is the memory of the call. -/
def Passes (op : Operation) (m next : Memory) : Prop :=
  ∃ call want, op.Asks call want ∧ (Call.perform m call).reply.succeeds = true ∧
    (Call.perform m call).reply.Meets want ∧ next = (Call.perform m call).memory

/-- **An operation fails**, for one of three reasons, each under the condition that the ones before
it do not apply: only an operation that asks for something can be rejected, and only a call that was
carried out can find something else than expected. -/
inductive Fails (op : Operation) (step : Nat) (m : Memory) : Error → Prop
  | garbled {text : String} {fault : Hex.Fault} (htext : op.text? = some text)
      (hfault : Hex.decode text = .error fault) : Fails op step m (.hex fault)
  | rejected {call : Call} {want : Option (Aspect × Finding)} {rejection : Memory.Rejection}
      (hasks : op.Asks call want) (hreply : (Call.perform m call).reply = .rejected rejection) :
      Fails op step m (.rejected rejection)
  | unexpected {call : Call} {aspect : Aspect} {got want : Finding}
      (hasks : op.Asks call (some (aspect, want)))
      (hgot : (Call.perform m call).reply.finding? = some got) (hne : got ≠ want) :
      Fails op step m (.unexpected ⟨step, aspect, got, want⟩)

variable {step m} {next : Memory}

theorem perform_of_passes (h : op.Passes m next) : Scenario.perform step m op = .ok next := by
  obtain ⟨call, want, hasks, hsucc, hmeets, rfl⟩ := h
  have hcomes := comes_of_asks step m hasks
  generalize Scenario.perform step m op = outcome at hcomes ⊢
  cases hcomes with
  | rejected hreply | stopped hreply =>
    rw [hreply] at hsucc
    cases hsucc
  | met _ _ => rfl
  | missed hwant hgot hne =>
    rw [hmeets _ _ hwant] at hgot
    exact absurd (Option.some.inj hgot).symm hne

theorem perform_of_fails {cause : Error} (h : op.Fails step m cause) :
    Scenario.perform step m op = .error (.error cause) := by
  cases h with
  | garbled htext hfault => exact perform_of_garbled htext hfault step m
  | rejected hasks hreply =>
    have hcomes := comes_of_asks step m hasks
    generalize Scenario.perform step m op = outcome at hcomes ⊢
    cases hcomes with
    | rejected hreply' =>
      rw [hreply] at hreply'
      cases hreply'
      rfl
    | stopped hreply' =>
      rw [hreply] at hreply'
      cases hreply'
    | met hsucc _ =>
      rw [hreply] at hsucc
      cases hsucc
    | missed _ hgot _ =>
      rw [hreply] at hgot
      cases hgot
  | unexpected hasks hgot hne =>
    have hcomes := comes_of_asks step m hasks
    generalize Scenario.perform step m op = outcome at hcomes ⊢
    cases hcomes with
    | rejected hreply | stopped hreply =>
      rw [hreply] at hgot
      cases hgot
    | met _ hmeets =>
      rw [hmeets _ _ rfl] at hgot
      exact absurd (Option.some.inj hgot).symm hne
    | missed hwant hgot' _ =>
      cases hwant
      rw [hgot] at hgot'
      cases hgot'
      rfl

/-- Only a request to grow stops, and only one for a store that no memory can have. -/
theorem exists_resize_of_stopped {cause : Memory.Fatal} (h : op.Asks call want)
    (hreply : (Call.perform m call).reply = .stopped cause) :
    ∃ size, op = .resize size ∧ call = .resize size ∧ Memory.capacity ≤ size.toNat := by
  cases h with
  | resize size =>
    refine ⟨size, rfl, rfl, ?_⟩
    cases hgrow : m.resize size with
    | ok next =>
      rw [Call.perform_resize_of_ok hgrow] at hreply
      cases hreply
    | error cause => exact ((Memory.resize_eq_error_iff _ _ _).mp hgrow).1
  | write | append =>
    rw [Call.reply_perform_of_write? rfl] at hreply
    split at hreply <;> cases hreply
  | _ => cases hreply

/-- **An operation passes or fails**, unless it asks for a store that no memory can have. -/
theorem passes_or_fails (op : Operation) (step : Nat) (m : Memory) :
    (∃ next, op.Passes m next) ∨ (∃ cause, op.Fails step m cause) ∨
      ∃ size cause, op = .resize size ∧ Memory.capacity ≤ size.toNat ∧
        Scenario.perform step m op = .error (.fatal cause) := by
  rcases op.asks_or_garbled with ⟨call, want, hasks⟩ | ⟨text, fault, htext, hfault⟩
  · have hcomes := comes_of_asks step m hasks
    generalize Scenario.perform step m op = outcome at hcomes ⊢
    cases hcomes with
    | rejected hreply => exact Or.inr (Or.inl ⟨_, .rejected hasks hreply⟩)
    | stopped hreply =>
      obtain ⟨size, hop, -, hle⟩ := exists_resize_of_stopped hasks hreply
      exact Or.inr (Or.inr ⟨size, _, hop, hle, rfl⟩)
    | met hsucc hmeets => exact Or.inl ⟨_, call, want, hasks, hsucc, hmeets, rfl⟩
    | missed hwant hgot hne =>
      cases hwant
      exact Or.inr (Or.inl ⟨_, .unexpected hasks hgot hne⟩)
  · exact Or.inr (Or.inl ⟨_, .garbled htext hfault⟩)

theorem perform_eq_ok_iff : Scenario.perform step m op = .ok next ↔ op.Passes m next := by
  refine ⟨fun hok => ?_, perform_of_passes⟩
  rcases op.passes_or_fails step m with ⟨next', hpass⟩ | ⟨cause, hfail⟩ | ⟨_, cause, -, -, hfatal⟩
  · rw [perform_of_passes hpass] at hok
    cases hok
    exact hpass
  · rw [perform_of_fails hfail] at hok
    cases hok
  · rw [hfatal] at hok
    cases hok

theorem perform_eq_error_iff (hsize : ∀ size, op = .resize size → size.toNat < Memory.capacity)
    {failure : Failure} : Scenario.perform step m op = .error failure ↔
      ∃ cause, failure = .error cause ∧ op.Fails step m cause := by
  constructor
  · intro herror
    rcases op.passes_or_fails step m with ⟨next', hpass⟩ | ⟨cause, hfail⟩ | ⟨size, _, hop, hle, -⟩
    · rw [perform_of_passes hpass] at herror
      cases herror
    · rw [perform_of_fails hfail] at herror
      cases herror
      exact ⟨cause, rfl, hfail⟩
    · exact absurd (hsize size hop) (Nat.not_lt_of_le hle)
  · rintro ⟨cause, rfl, hfail⟩
    exact perform_of_fails hfail

/-! ### Operations in a row -/

/-- **Operations pass one after the other**, each on the memory that the one before it left. -/
inductive Replays : Memory → List Operation → Memory → Prop
  | nil (m : Memory) : Replays m [] m
  | cons {op : Operation} {rest : List Operation} {m next last : Memory}
      (hop : op.Passes m next) (hrest : Replays next rest last) : Replays m (op :: rest) last

end Operation

namespace Scenario

open Operation (Replays)

variable {step : Nat} {m last : Memory} {ops before after : List Operation}

@[simp] theorem performAll_cons (step : Nat) (m : Memory) (op : Operation) (rest : List Operation) :
    performAll step m (op :: rest) =
      perform step m op >>= fun next => performAll (step + 1) next rest := rfl

/-- Behind operations that pass, the others are carried out on the memory that is left. -/
theorem performAll_append (h : Replays m before last) (step : Nat) (after : List Operation) :
    performAll step m (before ++ after) = performAll (step + before.length) last after := by
  induction h generalizing step with
  | nil m => rfl
  | @cons op rest m next last hop hrest ih =>
    have hstep : step + (rest.length + 1) = step + 1 + rest.length := by omega
    simpa [Operation.perform_of_passes hop, hstep] using ih (step + 1)

/-- **Operations are carried out if all of them pass.** -/
theorem performAll_eq_ok_iff : performAll step m ops = .ok last ↔ Replays m ops last := by
  constructor
  · intro hok
    induction ops generalizing step m with
    | nil =>
      cases hok
      exact .nil _
    | cons op rest ih =>
      rw [performAll_cons] at hok
      cases hop : perform step m op with
      | ok next =>
        rw [hop] at hok
        exact .cons (Operation.perform_eq_ok_iff.mp hop) (ih hok)
      | error failure => simp [hop] at hok
  · intro h
    have happend := performAll_append h step []
    rw [List.append_nil] at happend
    rw [happend]
    rfl

/-- **Operations that are not carried out end with the first that fails.** -/
theorem performAll_eq_error_iff
    (hsizes : ∀ size, .resize size ∈ ops → size.toNat < Memory.capacity) {failure : Failure} :
    performAll step m ops = .error failure ↔
      ∃ cause before op after mid, failure = .error cause ∧ ops = before ++ op :: after ∧
        Replays m before mid ∧ op.Fails (step + before.length) mid cause := by
  constructor
  · intro herror
    induction ops generalizing step m with
    | nil => cases herror
    | cons op rest ih =>
      rw [performAll_cons] at herror
      cases hop : perform step m op with
      | ok next =>
        rw [hop] at herror
        obtain ⟨cause, before, op', after, mid, hcause, rfl, hbefore, hfail⟩ :=
          ih (fun size hmem => hsizes size (List.mem_cons_of_mem _ hmem)) herror
        have hstep : step + (before.length + 1) = step + 1 + before.length := by omega
        refine ⟨cause, op :: before, op', after, mid, hcause, rfl,
          .cons (Operation.perform_eq_ok_iff.mp hop) hbefore, ?_⟩
        rwa [List.length_cons, hstep]
      | error failure' =>
        rw [hop] at herror
        cases herror
        obtain ⟨cause, hcause, hfail⟩ := (Operation.perform_eq_error_iff fun size hsize =>
          hsizes size (hsize ▸ List.mem_cons_self)).mp hop
        exact ⟨cause, [], op, rest, m, hcause, rfl, .nil m, hfail⟩
  · rintro ⟨cause, before, op, after, mid, rfl, rfl, hbefore, hfail⟩
    simp [performAll_append hbefore, Operation.perform_of_fails hfail]

/-! ### A whole scenario -/

/-- **A scenario fails**: at one of its operations, if all before it pass, or at the end, where the
logical length is looked at before the size of the store. -/
inductive Fails (s : Scenario) : Error → Prop
  | operation {before after : List Operation} {op : Operation} {m : Memory} {cause : Error}
      (hops : s.operations = before ++ op :: after) (hbefore : Replays .empty before m)
      (hop : op.Fails before.length m cause) : Fails s cause
  | length {m : Memory} (hops : Replays .empty s.operations m) (hne : m.length ≠ s.length) :
      Fails s (.unexpected ⟨s.operations.length, .length, .number m.length.toNat,
        .number s.length.toNat⟩)
  | size {m : Memory} (hops : Replays .empty s.operations m) (heq : m.length = s.length)
      (hne : m.size ≠ s.size.toNat) :
      Fails s (.unexpected ⟨s.operations.length, .size, .number m.size, .number s.size.toNat⟩)

variable {s : Scenario}

/-- A scenario ends as soon as an operation fails, whatever stands behind it. -/
theorem replay_of_fails {op : Operation} {mid : Memory} {cause : Error}
    (hops : before ++ [op] <+: s.operations) (hbefore : Replays .empty before mid)
    (hfail : op.Fails before.length mid cause) : s.replay = .error (.error cause) := by
  obtain ⟨after, hafter⟩ := hops
  have hall : performAll 0 .empty s.operations = .error (.error cause) := by
    simp [← hafter, performAll_append hbefore, Operation.perform_of_fails hfail]
  rw [replay, hall]
  rfl

/-- Where all operations pass, the logical length and then the size of the store are looked at. -/
theorem replay_of_replays (hops : Replays .empty s.operations m) :
    s.replay =
      if m.length = s.length then
        if m.size = s.size.toNat then .ok m
        else .error (.error (.unexpected
          ⟨s.operations.length, .size, .number m.size, .number s.size.toNat⟩))
      else .error (.error (.unexpected
        ⟨s.operations.length, .length, .number m.length.toNat, .number s.length.toNat⟩)) := by
  have hreplay : s.replay =
      (check s.operations.length .length (.number m.length.toNat)
        (.number s.length.toNat) >>= fun _ =>
      check s.operations.length .size (.number m.size) (.number s.size.toNat) >>= fun _ =>
        .ok m) := by
    rw [replay, performAll_eq_ok_iff.mpr hops]
    rfl
  rw [hreplay, check, check]
  simp only [Finding.number.injEq, UInt64.toNat_inj]
  split
  · split <;> rfl
  · rfl

/-- **A scenario is replayed if all its operations pass** and leave what it declares. -/
theorem replay_eq_ok_iff : s.replay = .ok m ↔
    Replays .empty s.operations m ∧ m.length = s.length ∧ m.size = s.size.toNat := by
  constructor
  · intro hok
    cases hall : performAll 0 .empty s.operations with
    | ok last =>
      have hops := performAll_eq_ok_iff.mp hall
      rw [replay_of_replays hops] at hok
      split at hok
      · next hlength =>
        split at hok
        · next hsize =>
          cases hok
          exact ⟨hops, hlength, hsize⟩
        · cases hok
      · cases hok
    | error failure =>
      rw [replay, hall] at hok
      cases hok
  · rintro ⟨hops, hlength, hsize⟩
    rw [replay_of_replays hops, if_pos hlength, if_pos hsize]

/-- **A scenario that is not replayed fails**, at an operation or at the end. -/
theorem replay_eq_error_iff
    (hsizes : ∀ size, .resize size ∈ s.operations → size.toNat < Memory.capacity)
    {failure : Failure} :
    s.replay = .error failure ↔ ∃ cause, failure = .error cause ∧ s.Fails cause := by
  constructor
  · intro herror
    cases hall : performAll 0 .empty s.operations with
    | ok last =>
      have hops := performAll_eq_ok_iff.mp hall
      rw [replay_of_replays hops] at herror
      split at herror
      · next hlength =>
        split at herror
        · cases herror
        · next hsize =>
          cases herror
          exact ⟨_, rfl, .size hops hlength hsize⟩
      · next hlength =>
        cases herror
        exact ⟨_, rfl, .length hops hlength⟩
    | error failure' =>
      rw [replay, hall] at herror
      cases herror
      obtain ⟨cause, before, op, after, mid, hcause, hops, hbefore, hfail⟩ :=
        (performAll_eq_error_iff hsizes).mp hall
      rw [Nat.zero_add] at hfail
      exact ⟨cause, hcause, .operation hops hbefore hfail⟩
  · rintro ⟨cause, rfl, hfail⟩
    cases hfail with
    | operation hops hbefore hop =>
      exact replay_of_fails ⟨_, by rw [hops, List.append_assoc, List.singleton_append]⟩ hbefore hop
    | length hops hne => rw [replay_of_replays hops, if_neg hne]
    | size hops heq hne => rw [replay_of_replays hops, if_pos heq, if_neg hne]

/-- **What a replay comes to.** Take any scenario whose operations ask for no more than `2 ^ 31`
bytes.

* It is replayed if and only if all its operations pass, one after the other from the empty memory,
  and the memory that they leave has the logical length and the size that the scenario declares.
  This memory is then the result.
* Otherwise the result is the error of the first operation that fails, or of the end if all of them
  pass. Within an operation, and at the end, the causes come in the order that `Operation.Fails` and
  `Scenario.Fails` tell.
* What stands behind an operation that fails makes no difference: every scenario that starts with
  the same operations up to this one has the same result. -/
theorem replay_outcome (s : Scenario)
    (hsizes : ∀ size, .resize size ∈ s.operations → size.toNat < 2 ^ 31) :
    (∀ m, s.replay = .ok m ↔
      Replays .empty s.operations m ∧ m.length = s.length ∧ m.size = s.size.toNat) ∧
    (∀ failure, s.replay = .error failure ↔ ∃ cause, failure = .error cause ∧ s.Fails cause) ∧
    (∀ before op after m cause, s.operations = before ++ op :: after →
      Replays .empty before m → op.Fails before.length m cause →
      ∀ t : Scenario, before ++ [op] <+: t.operations → t.replay = s.replay) := by
  have hcap : ∀ size, .resize size ∈ s.operations → size.toNat < Memory.capacity :=
    fun size hmem => Nat.lt_trans (hsizes size hmem) (by decide)
  refine ⟨fun m => replay_eq_ok_iff, fun failure => replay_eq_error_iff hcap, ?_⟩
  intro before op after m cause hops hbefore hfail t ht
  have hs : before ++ [op] <+: s.operations :=
    ⟨after, by rw [hops, List.append_assoc, List.singleton_append]⟩
  rw [replay_of_fails ht hbefore hfail, replay_of_fails hs hbefore hfail]

/-- The third operation brings a text that is not hex, and a size that exceeds the store; the fourth
expects what will not be. -/
def garbledWrite : Scenario :=
  ⟨[.resize 4, .append "0x0102" 0, .write 0 9 "0g", .append "01" 7], 9, 9⟩

/-- Three operations that pass, with what they leave. -/
def readBack : Scenario :=
  ⟨[.resize 4, .append "0x0102" 0, .read 0 (some "0102")], 2, 4⟩

/-- An append that exceeds the store, and expects to go where no append goes. -/
def wrongPlace : Scenario :=
  ⟨[.resize 1, .append "0102" 7], 9, 9⟩

/-- The law at work. One scenario is replayed. Where a text is not hex this is told of, here and in
a scenario that ends at this operation; a rejection is told of and not the offset, and the logical
length and not the size. -/
theorem replay_outcome_garbledWrite :
    readBack.replay = .ok (Call.run .empty [.resize 4, .append [1, 2]]) ∧
    wrongPlace.replay = .error (.error (.rejected ⟨2, 1⟩)) ∧
    (⟨readBack.operations, 9, 9⟩ : Scenario).replay =
      .error (.error (.unexpected ⟨3, .length, .number 2, .number 9⟩)) ∧
    (∀ size, .resize size ∈ garbledWrite.operations → size.toNat < 2 ^ 31) ∧
      garbledWrite.replay = .error (.error (.hex (.invalidCharacter 'g' 1))) ∧
      (⟨garbledWrite.operations.take 3, 2, 4⟩ : Scenario).replay =
        .error (.error (.hex (.invalidCharacter 'g' 1))) := by
  -- The operations that pass, with the end that they leave and with another one.
  have hsmall : ∀ size, .resize size ∈ readBack.operations → size.toNat < 2 ^ 31 := by
    simp [readBack]
  have hall : performAll 0 .empty readBack.operations =
      .ok (Call.run .empty [.resize 4, .append [1, 2]]) := rfl
  have hpass := performAll_eq_ok_iff.mp hall
  obtain ⟨hok, -⟩ := replay_outcome readBack hsmall
  have hunmet : (⟨readBack.operations, 9, 9⟩ : Scenario).Fails
      (.unexpected ⟨3, .length, .number 2, .number 9⟩) :=
    .length (s := ⟨readBack.operations, 9, 9⟩) hpass (by decide)
  obtain ⟨-, hend, -⟩ := replay_outcome ⟨readBack.operations, 9, 9⟩ hsmall
  -- The append that is rejected.
  have hgrown : performAll 0 .empty [.resize 1] = .ok (Call.run .empty [.resize 1]) := rfl
  have hexceeds : (Operation.append "0102" 7).Fails 1 (Call.run .empty [.resize 1])
      (.rejected ⟨2, 1⟩) := .rejected (.append 7 rfl) rfl
  obtain ⟨-, hrejected, -⟩ := replay_outcome wrongPlace (by simp [wrongPlace])
  -- The text that is not hex.
  have hsizes : ∀ size, .resize size ∈ garbledWrite.operations → size.toNat < 2 ^ 31 := by
    simp [garbledWrite]
  have htwo : performAll 0 .empty [.resize 4, .append "0x0102" 0] =
      .ok (Call.run .empty [.resize 4, .append [1, 2]]) := rfl
  have hbefore := performAll_eq_ok_iff.mp htwo
  have hfail : (Operation.write 0 9 "0g").Fails 2 (Call.run .empty [.resize 4, .append [1, 2]])
      (.hex (.invalidCharacter 'g' 1)) := .garbled rfl rfl
  obtain ⟨-, herror, hprefix⟩ := replay_outcome garbledWrite hsizes
  have hresult := (herror _).mpr ⟨_, rfl, .operation rfl hbefore hfail⟩
  have hsame := hprefix _ _ [.append "01" 7] _ _ rfl hbefore hfail
    ⟨garbledWrite.operations.take 3, 2, 4⟩ (List.prefix_refl _)
  refine ⟨(hok _).mpr ⟨hpass, rfl, rfl⟩, (hrejected _).mpr ⟨_, rfl, ?_⟩,
    (hend _).mpr ⟨_, rfl, hunmet⟩, hsizes, hresult, hsame.trans hresult⟩
  exact .operation rfl (performAll_eq_ok_iff.mp hgrown) hexceeds

end Scenario

end LinearMemory
