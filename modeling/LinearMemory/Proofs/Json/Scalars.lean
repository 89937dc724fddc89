import LinearMemory.Proofs.Json.Numeral
import LinearMemory.Proofs.Json.Tree

/-!
# What the scalars of a tree stand for

A number and a text literal are found out about octet by octet. This module says what is found out
in the end, and that nothing goes wrong before it:

* a number in any form is read to a numeral that may end there and that any octet behind a number
  ends (`Json.NumberText.reads`), and stands for what this numeral stands for,
  `Json.NumberText.value`;
* no octet inside a literal closes it, whether it is read or skipped. What is read is the text or
  its first fault, `Json.Quoted.text`; what is skipped has no faults.
-/

namespace LinearMemory.Json

/-! ### Numbers -/

namespace Numeral

/-- Whether a point may follow. -/
def Stage.IsWhole (s : Stage) : Prop :=
  s = .zero ∨ ∃ full, s = .whole full

/-- Whether the mark of a power may follow. -/
def Stage.TakesMark (s : Stage) : Prop :=
  s.IsWhole ∨ ∃ full, s = .fraction full

/-- Digits are read where one digit after the other may come. -/
theorem exists_reads_digits (P : Stage → Prop)
    (hstep : ∀ n : Numeral, P n.stage → ∀ b, (digit? b).isSome = true →
      ∃ m, n.next b = .more m ∧ P m.stage)
    {digits : List UInt8} (hdigits : ∀ b ∈ digits, (digit? b).isSome = true) {n : Numeral}
    (hn : P n.stage) : ∃ m, n.Reads digits m ∧ P m.stage := by
  induction digits generalizing n with
  | nil => exact ⟨n, .nil n, hn⟩
  | cons b rest ih =>
    obtain ⟨hb, hrest⟩ := List.forall_mem_cons.1 hdigits
    obtain ⟨m, hnext, hm⟩ := hstep n hn b hb
    obtain ⟨l, hreads, hl⟩ := ih hrest hm
    exact ⟨l, .cons hnext hreads, hl⟩

/-- Behind a first digit that is read, the others are read as well. -/
theorem exists_reads_isDigits (P : Stage → Prop)
    (hstep : ∀ n : Numeral, P n.stage → ∀ b, (digit? b).isSome = true →
      ∃ m, n.next b = .more m ∧ P m.stage)
    {digits : List UInt8} (hdigits : IsDigits digits) {n : Numeral}
    (hfirst : ∀ b, (digit? b).isSome = true → ∃ m, n.next b = .more m ∧ P m.stage) :
    ∃ m, n.Reads digits m ∧ P m.stage := by
  obtain ⟨hne, hall⟩ := hdigits
  obtain ⟨b, rest, rfl⟩ := List.exists_cons_of_ne_nil hne
  obtain ⟨hb, hrest⟩ := List.forall_mem_cons.1 hall
  obtain ⟨m, hnext, hm⟩ := hfirst b hb
  obtain ⟨l, hreads, hl⟩ := exists_reads_digits P hstep hrest hm
  exact ⟨l, .cons hnext hreads, hl⟩

theorem exists_stage_pushWhole (n : Numeral) (full : Bool) (d : Nat) :
    ∃ full', (n.pushWhole full d).stage = .whole full' := by
  unfold pushWhole
  split
  · exact ⟨_, rfl⟩
  · exact ⟨_, rfl⟩

theorem exists_stage_pushFraction (n : Numeral) (full : Bool) (d : Nat) :
    ∃ full', (n.pushFraction full d).stage = .fraction full' := by
  unfold pushFraction
  split
  · exact ⟨_, rfl⟩
  · exact ⟨_, rfl⟩

/-- A digit in front of the point is followed by any other. -/
theorem next_digit_of_whole (n : Numeral) (hn : ∃ full, n.stage = .whole full) (b : UInt8)
    (hb : (digit? b).isSome = true) :
    ∃ m, n.next b = .more m ∧ ∃ full, m.stage = .whole full := by
  obtain ⟨full, hstage⟩ := hn
  obtain ⟨d, hd⟩ := Option.isSome_iff_exists.1 hb
  exact ⟨_, by simp only [next, hstage, hd], exists_stage_pushWhole n full d⟩

/-- A digit behind the point is followed by any other. -/
theorem next_digit_of_fraction (n : Numeral) (hn : ∃ full, n.stage = .fraction full) (b : UInt8)
    (hb : (digit? b).isSome = true) :
    ∃ m, n.next b = .more m ∧ ∃ full, m.stage = .fraction full := by
  obtain ⟨full, hstage⟩ := hn
  obtain ⟨d, hd⟩ := Option.isSome_iff_exists.1 hb
  exact ⟨_, by simp only [next, hstage, hd], exists_stage_pushFraction n full d⟩

/-- The point itself is followed by any digit. -/
theorem next_digit_of_point {n : Numeral} (hn : n.stage = .point) (b : UInt8)
    (hb : (digit? b).isSome = true) :
    ∃ m, n.next b = .more m ∧ ∃ full, m.stage = .fraction full := by
  obtain ⟨d, hd⟩ := Option.isSome_iff_exists.1 hb
  exact ⟨_, by simp only [next, hn, hd], exists_stage_pushFraction n false d⟩

/-- A digit of a power may stand behind its mark, its sign or another digit. -/
theorem next_digit_of_power (n : Numeral)
    (hn : n.stage = .mark ∨ n.stage = .powerSign ∨ n.stage = .power) (b : UInt8)
    (hb : (digit? b).isSome = true) : ∃ m, n.next b = .more m ∧ m.stage = .power := by
  obtain ⟨d, hd⟩ := Option.isSome_iff_exists.1 hb
  refine ⟨n.pushPower d, ?_, rfl⟩
  rcases hn with hn | hn | hn
  · simp only [next, hn, hd]
  · simp only [next, hn, hd]
  · simp only [next, hn, hd]

/-- **The digits in front of the point** start a numeral, with a sign or without. -/
theorem exists_reads_whole {sign octets : List UInt8} (hsign : sign = [] ∨ sign = [octet '-'])
    (h : WholeForm octets) :
    ∃ b rest first m, sign ++ octets = b :: rest ∧ start? b = some first ∧ first.Reads rest m ∧
      m.stage.IsWhole := by
  cases h with
  | zero =>
    rcases hsign with rfl | rfl
    · exact ⟨_, _, _, _, rfl, rfl, .nil _, Or.inl rfl⟩
    · exact ⟨_, _, _, _, rfl, rfl, .cons rfl (.nil _), Or.inl rfl⟩
  | @positive b d rest hb hd hrest =>
    have hdigits {n : Numeral} (hn : n.stage = .whole false) :
        ∃ m, n.Reads rest m ∧ m.stage.IsWhole := by
      obtain ⟨m, hm, hstage⟩ := exists_reads_digits (fun s => ∃ full, s = .whole full)
        next_digit_of_whole hrest ⟨false, hn⟩
      exact ⟨m, hm, Or.inr hstage⟩
    rcases hsign with rfl | rfl
    · have hne : b ≠ octet '-' := by
        rintro rfl
        exact absurd hb (by nofun)
      obtain ⟨m, hm, hstage⟩ := @hdigits ⟨false, d, 0, false, 0, .whole false⟩ rfl
      refine ⟨_, _, _, m, rfl, ?_, hm, hstage⟩
      simp only [start?, if_neg hne, hb, Option.map_some, if_neg hd]
    · obtain ⟨m, hm, hstage⟩ := @hdigits ⟨true, d, 0, false, 0, .whole false⟩ rfl
      refine ⟨_, _, _, m, rfl, rfl, .cons ?_ hm, hstage⟩
      simp only [next, hb, if_neg hd]

/-- **A point and digits** are read behind the digits in front of it. -/
theorem exists_reads_fraction {octets : List UInt8} (h : FractionForm octets) {n : Numeral}
    (hn : n.stage.IsWhole) : ∃ m, n.Reads octets m ∧ m.stage.TakesMark := by
  cases h with
  | none => exact ⟨n, .nil n, Or.inl hn⟩
  | some hdigits =>
    have hpoint : n.next (octet '.') = .more { n with stage := .point } := by
      rcases hn with hn | ⟨full, hn⟩
      · simp only [next, hn]
        rfl
      · simp only [next, hn]
        rfl
    obtain ⟨m, hm, hstage⟩ := exists_reads_isDigits (fun s => ∃ full, s = .fraction full)
      next_digit_of_fraction hdigits (next_digit_of_point (n := { n with stage := .point }) rfl)
    exact ⟨m, .cons hpoint hm, Or.inr hstage⟩

theorem isComplete_of_takesMark {s : Stage} (h : s.TakesMark) : s.isComplete = true := by
  rcases h with (rfl | ⟨full, rfl⟩) | ⟨full, rfl⟩
  · rfl
  · rfl
  · rfl

/-- The mark of a power is read where one may follow. -/
theorem next_mark {n : Numeral} (hn : n.stage.TakesMark) {mark : UInt8}
    (hmark : mark = octet 'e' ∨ mark = octet 'E') :
    n.next mark = .more { n with stage := .mark } := by
  rcases hmark with rfl | rfl <;> rcases hn with (hn | ⟨full, hn⟩) | ⟨full, hn⟩ <;>
    (simp only [next, hn]; rfl)

/-- **A power of ten** is read behind the digits. -/
theorem exists_reads_power {octets : List UInt8} (h : PowerForm octets) {n : Numeral}
    (hn : n.stage.TakesMark) : ∃ m, n.Reads octets m ∧ m.stage.isComplete = true := by
  cases h with
  | none => exact ⟨n, .nil n, isComplete_of_takesMark hn⟩
  | @some mark sign digits hmark hsign hdigits =>
    have hbehind {n : Numeral} (hn : n.stage = .mark ∨ n.stage = .powerSign) :
        ∃ m, n.Reads digits m ∧ m.stage.isComplete = true := by
      obtain ⟨m, hm, hstage⟩ := exists_reads_isDigits (· = .power)
        (fun n hn => next_digit_of_power n (Or.inr (Or.inr hn))) hdigits
        (next_digit_of_power n (hn.imp_right Or.inl))
      exact ⟨m, hm, by rw [hstage]; rfl⟩
    have hfirst := next_mark hn hmark
    rcases hsign with rfl | rfl | rfl
    · obtain ⟨m, hm, hstage⟩ := @hbehind { n with stage := .mark } (Or.inl rfl)
      exact ⟨m, .cons hfirst hm, hstage⟩
    · obtain ⟨m, hm, hstage⟩ := @hbehind { n with stage := .powerSign } (Or.inr rfl)
      exact ⟨m, .cons hfirst (.cons rfl hm), hstage⟩
    · obtain ⟨m, hm, hstage⟩ :=
        @hbehind { n with stage := .powerSign, powerNegative := true } (Or.inr rfl)
      exact ⟨m, .cons hfirst (.cons rfl hm), hstage⟩

/-- The numeral of some octets, if all of them belong to one. -/
def read? : List UInt8 → Option Numeral
  | [] => none
  | b :: rest => do
    let first ← start? b
    rest.foldlM (fun n b => match n.next b with
      | .more m => some m
      | _ => none) first

theorem read?_of_reads {b : UInt8} {rest : List UInt8} {first m : Numeral}
    (hstart : start? b = some first) (h : first.Reads rest m) : read? (b :: rest) = some m := by
  simp only [read?, hstart, Option.bind_eq_bind, Option.bind_some]
  clear hstart
  induction h with
  | nil n => rfl
  | cons hnext _ ih =>
    rw [List.foldlM_cons, hnext]
    exact ih

end Numeral

/-- **The number that is written.** -/
def NumberText.value (n : NumberText) : Except Malformed Number :=
  match Numeral.read? n.octets with
  | some m => m.value
  | none => .error .badNumber

/-- **A number is read to its value**, in any form: all its octets belong to a numeral, which may
end behind them. -/
theorem NumberText.reads (n : NumberText) :
    ∃ b rest first m, n.octets = b :: rest ∧ Numeral.start? b = some first ∧
      first.Reads rest m ∧ m.stage.isComplete = true ∧ n.value = m.value := by
  obtain ⟨octets, hnumber⟩ := n
  obtain @⟨sign, whole, fraction, power, hsign, hwhole, hfraction, hpower⟩ := hnumber
  obtain ⟨b, rest, first, m, hoctets, hstart, hm, hstage⟩ := Numeral.exists_reads_whole hsign hwhole
  obtain ⟨l, hl, hmark⟩ := Numeral.exists_reads_fraction hfraction hstage
  obtain ⟨k, hk, hcomplete⟩ := Numeral.exists_reads_power hpower hmark
  have hall : sign ++ (whole ++ (fraction ++ power)) = b :: (rest ++ (fraction ++ power)) := by
    rw [← List.append_assoc, hoctets, List.cons_append]
  have hreads := hm.append (hl.append hk)
  refine ⟨b, _, first, k, hall, hstart, hreads, hcomplete, ?_⟩
  simp only [NumberText.value, hall, Numeral.read?_of_reads hstart hreads]

/-! ### Text literals -/

namespace Literal

variable {l : Literal} {octets : List UInt8}

/-- Behind a character or an escape, at most the first half of a surrogate pair is unfinished. -/
def IsSettled (l : Literal) : Prop :=
  l.pending = .nothing ∨ ∃ first, l.pending = .surrogate first

/-- A code unit leaves a settled literal, unless it is refused. -/
theorem isSettled_of_pushUnit {first : Option Nat} {unit : Nat} {m : Literal}
    (h : l.pushUnit first unit = .ok m) : m.IsSettled := by
  unfold pushUnit at h
  split at h
  · split at h
    · obtain rfl := Except.ok.inj h
      exact Or.inl rfl
    · exact absurd h (by nofun)
  · split at h
    · exact absurd h (by nofun)
    split at h
    · obtain rfl := Except.ok.inj h
      exact Or.inr ⟨_, rfl⟩
    · obtain rfl := Except.ok.inj h
      exact Or.inl rfl

/-- The four digits of a code unit are taken before they are judged. -/
theorem advances_next_unit (kept : List UInt8) (first : Option Nat) {n : Nat}
    {digits rest : List UInt8} (hunit : UnitForm n digits)
    (hrest : ∀ m : Literal, m.IsSettled →
      ∃ outcome, Advances next m rest outcome ∧ ∀ m', outcome = .ok m' → m'.IsSettled) :
    ∃ outcome, Advances next ⟨kept, .unit first []⟩ (digits ++ rest) outcome ∧
      ∀ m, outcome = .ok m → m.IsSettled := by
  have hopen : ∀ taken b, isClosedBy ⟨kept, .unit first taken⟩ b = false :=
    fun _ => isClosedBy_of_pending (by simp)
  obtain ⟨a, b, c, d, rfl, hvalue⟩ := exists_unit?_eq hunit
  have hlast : next ⟨kept, .unit first [c, b, a]⟩ d =
      pushUnit ⟨kept, .unit first [c, b, a]⟩ first n := by
    simp only [next, hvalue]
    rfl
  have htaken {outcome : Except Malformed Literal}
      (h : Advances next ⟨kept, .unit first [c, b, a]⟩ (d :: rest) outcome) :
      Advances next ⟨kept, .unit first []⟩ ([a, b, c, d] ++ rest) outcome :=
    .cons (hopen _ _) rfl <| .cons (hopen _ _) rfl <| .cons (hopen _ _) rfl h
  cases hpush : pushUnit ⟨kept, .unit first [c, b, a]⟩ first n with
  | error cause => exact ⟨_, htaken (.refused (hopen _ _) (hlast.trans hpush)), by simp⟩
  | ok m =>
    obtain ⟨outcome, hm, hsettled⟩ := hrest m (isSettled_of_pushUnit hpush)
    exact ⟨outcome, htaken (.cons (hopen _ _) (hlast.trans hpush) hm), hsettled⟩

/-- **A literal that is read** is not closed by what stands inside it. -/
theorem exists_advances_next (h : InsideForm octets) (hl : l.IsSettled) :
    ∃ outcome, Advances next l octets outcome ∧ ∀ m, outcome = .ok m → m.IsSettled := by
  induction h generalizing l with
  | nil => exact ⟨_, .nil l, fun m hm => by cases hm; exact hl⟩
  | @plain b rest hquote hslash hcontrol _ ih =>
    have hopen : l.isClosedBy b = false := by
      simp only [isClosedBy, decide_eq_false hquote, Bool.false_and]
    rcases hl with hl | ⟨first, hl⟩
    · obtain ⟨outcome, hm, hsettled⟩ := @ih (l.push b) (Or.inl rfl)
      refine ⟨outcome, .cons hopen ?_ hm, hsettled⟩
      simp only [next, hl, if_neg hslash, if_neg hcontrol]
    · have hnext : l.next b = .error .unfinishedSurrogate := by
        simp only [next, hl, if_neg hslash]
      exact ⟨_, .refused hopen hnext, by simp⟩
  | @short e c rest hescape _ ih =>
    obtain ⟨hnotUnit, hstands, -⟩ := shortEscape?_of_mem _ hescape
    obtain ⟨kept, pending⟩ := l
    rcases hl with rfl | ⟨first, rfl⟩
    · obtain ⟨outcome, hm, hsettled⟩ := @ih ⟨octet c :: kept, .nothing⟩ (Or.inl rfl)
      refine ⟨outcome, .cons rfl rfl (.cons (isClosedBy_of_pending (by simp) _) ?_ hm), hsettled⟩
      simp only [next, if_neg hnotUnit, hstands]
      rfl
    · -- the second half of the pair would have to start with another letter
      have hnext : next ⟨kept, .surrogateBackslash first⟩ (octet e) =
          .error .unfinishedSurrogate := by
        simp only [next, if_neg hnotUnit]
      exact ⟨_, .cons (isClosedBy_of_pending (by simp) _) rfl
        (.refused (isClosedBy_of_pending (by simp) _) hnext), by simp⟩
  | @unit n digits rest hunit _ ih =>
    obtain ⟨kept, pending⟩ := l
    rcases hl with rfl | ⟨first, rfl⟩
    · obtain ⟨outcome, hm, hsettled⟩ := advances_next_unit kept none hunit @ih
      exact ⟨outcome, .cons rfl rfl (.cons (isClosedBy_of_pending (by simp) _) rfl hm), hsettled⟩
    · obtain ⟨outcome, hm, hsettled⟩ :=
        advances_next_unit kept (some first) hunit @ih
      exact ⟨outcome, .cons (isClosedBy_of_pending (by simp) _) rfl
        (.cons (isClosedBy_of_pending (by simp) _) rfl hm), hsettled⟩

/-- **A literal that is skipped** is not closed by what stands inside it, and none of this is
refused. -/
theorem exists_advances_skip (h : InsideForm octets) (hl : l.pending = .nothing) :
    ∃ m, Advances skip l octets (.ok m) ∧ m.pending = .nothing := by
  induction h generalizing l with
  | nil => exact ⟨l, .nil l, hl⟩
  | @plain b rest hquote hslash hcontrol _ ih =>
    obtain ⟨m, hm, hpending⟩ := @ih start rfl
    have hopen : l.isClosedBy b = false := by
      simp only [isClosedBy, decide_eq_false hquote, Bool.false_and]
    refine ⟨m, .cons hopen ?_ hm, hpending⟩
    simp only [skip, hl, if_neg hslash, if_neg hcontrol]
  | @short e c rest hescape _ ih =>
    obtain ⟨hnotUnit, hstands, -⟩ := shortEscape?_of_mem _ hescape
    obtain ⟨kept, rfl⟩ : ∃ kept, l = ⟨kept, .nothing⟩ := ⟨l.reversed, by rw [← hl]⟩
    obtain ⟨m, hm, hpending⟩ := @ih start rfl
    refine ⟨m, .cons rfl rfl (.cons (isClosedBy_of_pending (by simp) _) ?_ hm), hpending⟩
    simp only [skip, if_neg hnotUnit, hstands, Option.isSome_some, if_true]
  | @unit n digits rest hunit _ ih =>
    obtain ⟨a, b, c, d, rfl, hvalue⟩ := exists_unit?_eq hunit
    obtain ⟨kept, rfl⟩ : ∃ kept, l = ⟨kept, .nothing⟩ := ⟨l.reversed, by rw [← hl]⟩
    obtain ⟨m, hm, hpending⟩ := @ih start rfl
    have hopen : ∀ taken b, isClosedBy ⟨kept, .unit none taken⟩ b = false :=
      fun _ => isClosedBy_of_pending (by simp)
    have hlast : skip ⟨kept, .unit none [c, b, a]⟩ d = .ok start := by
      simp only [skip, hvalue]
      rfl
    exact ⟨m, .cons rfl rfl <| .cons (isClosedBy_of_pending (by simp) _) rfl <|
      .cons (hopen _ _) rfl <| .cons (hopen _ _) rfl <| .cons (hopen _ _) rfl <|
      .cons (hopen _ _) hlast hm, hpending⟩

end Literal

/-- **The text between two quotes**, or its first fault. The closing quote is a fault itself behind
the first half of a surrogate pair. -/
def Quoted.text (q : Quoted) : Except Malformed String := do
  let l ← q.inside.foldlM Literal.next .start
  if l.pending = .nothing then l.text else .error .unfinishedSurrogate

/-- **A name in any spelling is read as the name.** -/
@[simp] theorem Member.text_key (m : Member) : m.key.text = .ok m.name := by
  obtain ⟨l, hreads, hclosed, htext⟩ := Literal.reads_text m.spells
  have hfold : m.key.inside.foldlM Literal.next .start = .ok l := hreads.advances.foldlM_eq
  have hpending : l.pending = .nothing := by
    simp only [Literal.isClosedBy, Bool.and_eq_true, decide_eq_true_eq] at hclosed
    exact hclosed.2
  rw [Quoted.text, hfold]
  change (if l.pending = .nothing then l.text else .error .unfinishedSurrogate) = _
  rw [if_pos hpending, htext]

end LinearMemory.Json
