import LinearMemory.Proofs.Json.Scalars

/-!
# What is read is in form

A literal and a number are read octet by octet, and what is remembered of them is little. Still all
that was read is in form, and nothing else gets to the end: what a literal goes over may stand
between two quotes (`Json.Literal.insideForm_of_advances`), and what a numeral reads up to where it
may end is a number (`Json.Numeral.numberForm_of_reads`).

Both are inductions from the last octet to the first. What is unfinished at some octet is in form
together with what stands behind it. For a literal the unfinished part are the octets of an escape,
`Json.Literal.Pending.octets`; for a numeral it is told by what may come behind each stage,
`Json.Numeral.Stage.Rest`. What an octet can do to a numeral is said once, by
`Json.Numeral.follows_of_next`.
-/

namespace LinearMemory.Json

/-! ### Text literals -/

namespace Literal

/-- **The octets of what is unfinished.** The first half of a surrogate pair is an escape of its own
as far as the grammar goes. -/
def Pending.octets : Pending → List UInt8
  | .nothing | .surrogate _ => []
  | .backslash | .surrogateBackslash _ => [octet '\\']
  | .unit _ digits => octet '\\' :: octet 'u' :: digits.reverse

/-- A code unit is finished with its fourth digit. -/
def Pending.IsShort : Pending → Prop
  | .unit _ digits => digits.length ≤ 3
  | _ => True

/-- Nothing but an escape is ever unfinished when a literal is skipped. -/
def Pending.IsPlain : Pending → Prop
  | .surrogate _ | .surrogateBackslash _ => False
  | _ => True

/-- Every octet that is a short escape stands in the list of these. -/
theorem exists_of_isSome_shortEscape? {b : UInt8} (h : (shortEscape? b).isSome = true) :
    ∃ e c, (e, c) ∈ shortEscapes ∧ b = octet e := by
  have hall : ∀ n < 256, (shortEscape? (UInt8.ofNat n)).isSome = true →
      ∃ p ∈ shortEscapes, UInt8.ofNat n = octet p.1 := by
    decide +kernel
  obtain ⟨⟨e, c⟩, hmem, heq⟩ := hall b.toNat b.toNat_lt (by rwa [UInt8.ofNat_toNat])
  exact ⟨e, c, hmem, by rwa [UInt8.ofNat_toNat] at heq⟩

/-- Four digits that spell a code unit are in form. -/
theorem unitForm_of_unit? {digits : List UInt8} (hlength : digits.length = 4) {n : Nat}
    (h : unit? digits = some n) : UnitForm n digits.reverse := by
  match digits, hlength with
  | [d, c, b, a], _ =>
    simp only [unit?, Option.bind_eq_bind, Option.pure_def, Option.bind_eq_some_iff,
      Option.some.injEq] at h
    obtain ⟨z, hd, _, ⟨y, hc, _, ⟨x, hb, _, ⟨w, ha, _, rfl, rfl⟩, rfl⟩, rfl⟩, rfl⟩ := h
    rw [Nat.mul_zero, Nat.zero_add]
    exact .mk ha hb hc hd

/-- A code unit is in form with its fourth digit. -/
theorem insideForm_of_unit {first : Option Nat} {digits inside : List UInt8} {b : UInt8} {n : Nat}
    (hshort : (Pending.unit first digits).IsShort) (hfull : ¬digits.length < 3)
    (h : unit? (b :: digits) = some n) (hinside : InsideForm inside) :
    InsideForm ((Pending.unit first digits).octets ++ b :: inside) := by
  have hfour : (b :: digits).length = 4 := by
    have hthree : digits.length ≤ 3 := hshort
    rw [List.length_cons]
    omega
  have hform := InsideForm.unit (unitForm_of_unit? hfour h) hinside
  rwa [List.reverse_cons, List.append_assoc] at hform

/-- **What an octet does to a literal that is read** can be undone: if the rest is in form behind
it, it is in form in front of it. -/
theorem insideForm_of_next {l m : Literal} {b : UInt8} (hl : l.pending.IsShort)
    (hopen : l.isClosedBy b = false) (h : l.next b = .ok m) :
    m.pending.IsShort ∧ ∀ inside, InsideForm (m.pending.octets ++ inside) →
      InsideForm (l.pending.octets ++ b :: inside) := by
  obtain ⟨kept, pending⟩ := l
  cases pending with
  | nothing =>
    have hquote : b ≠ octet '"' := by
      rintro rfl
      cases hopen
    simp only [next] at h
    split at h
    · next hslash =>
      cases h
      exact ⟨trivial, fun inside hinside => by rwa [hslash]⟩
    split at h
    · cases h
    · next hslash hcontrol =>
      cases h
      exact ⟨trivial, fun inside hinside => .plain hquote hslash hcontrol hinside⟩
  | backslash =>
    simp only [next] at h
    split at h
    · next hmark =>
      cases h
      exact ⟨Nat.zero_le _, fun inside hinside => by rwa [hmark]⟩
    split at h
    · next e he =>
      cases h
      obtain ⟨e', c, hmem, rfl⟩ := exists_of_isSome_shortEscape? (Option.isSome_of_eq_some he)
      exact ⟨trivial, fun inside hinside => .short hmem hinside⟩
    · cases h
  | unit first digits =>
    simp only [next] at h
    split at h
    · next hless =>
      cases h
      refine ⟨hless, fun inside hinside => ?_⟩
      rw [Pending.octets, List.reverse_cons, List.cons_append, List.cons_append,
        List.append_assoc] at hinside
      exact hinside
    split at h
    · next hfull _ n hunit =>
      have hsettled : m.pending.octets = [] ∧ m.pending.IsShort := by
        rcases isSettled_of_pushUnit h with hm | ⟨half, hm⟩
        · rw [hm]
          exact ⟨rfl, trivial⟩
        · rw [hm]
          exact ⟨rfl, trivial⟩
      refine ⟨hsettled.2, fun inside hinside => ?_⟩
      rw [hsettled.1, List.nil_append] at hinside
      exact insideForm_of_unit hl hfull hunit hinside
    · cases h
  | surrogate first =>
    simp only [next] at h
    split at h
    · next hslash =>
      cases h
      exact ⟨trivial, fun inside hinside => by rwa [hslash]⟩
    · cases h
  | surrogateBackslash first =>
    simp only [next] at h
    split at h
    · next hmark =>
      cases h
      exact ⟨Nat.zero_le _, fun inside hinside => by rwa [hmark]⟩
    · cases h

/-- **What an octet does to a literal that is skipped** can be undone in the same way. -/
theorem insideForm_of_skip {l m : Literal} {b : UInt8}
    (hl : l.pending.IsShort ∧ l.pending.IsPlain) (hopen : l.isClosedBy b = false)
    (h : l.skip b = .ok m) :
    (m.pending.IsShort ∧ m.pending.IsPlain) ∧ ∀ inside, InsideForm (m.pending.octets ++ inside) →
      InsideForm (l.pending.octets ++ b :: inside) := by
  obtain ⟨hshort, hplain⟩ := hl
  obtain ⟨kept, pending⟩ := l
  cases pending with
  | nothing =>
    have hquote : b ≠ octet '"' := by
      rintro rfl
      cases hopen
    simp only [skip] at h
    split at h
    · next hslash =>
      cases h
      exact ⟨⟨trivial, trivial⟩, fun inside hinside => by rwa [hslash]⟩
    split at h
    · cases h
    · next hslash hcontrol =>
      cases h
      exact ⟨⟨trivial, trivial⟩, fun inside hinside => .plain hquote hslash hcontrol hinside⟩
  | backslash =>
    simp only [skip] at h
    split at h
    · next hmark =>
      cases h
      exact ⟨⟨Nat.zero_le _, trivial⟩, fun inside hinside => by rwa [hmark]⟩
    split at h
    · next he =>
      cases h
      obtain ⟨e, c, hmem, rfl⟩ := exists_of_isSome_shortEscape? he
      exact ⟨⟨trivial, trivial⟩, fun inside hinside => .short hmem hinside⟩
    · cases h
  | unit first digits =>
    simp only [skip] at h
    split at h
    · next hless =>
      cases h
      refine ⟨⟨hless, trivial⟩, fun inside hinside => ?_⟩
      rw [Pending.octets, List.reverse_cons, List.cons_append, List.cons_append,
        List.append_assoc] at hinside
      exact hinside
    split at h
    · next hfull hunit =>
      cases h
      obtain ⟨n, hn⟩ := Option.isSome_iff_exists.1 hunit
      refine ⟨⟨trivial, trivial⟩, fun inside hinside => ?_⟩
      exact insideForm_of_unit hshort hfull hn hinside
    · cases h
  | surrogate first => exact hplain.elim
  | surrogateBackslash first => exact hplain.elim

/-- A literal takes one more octet, read or skipped. -/
def advance (skipped : Bool) (l : Literal) (b : UInt8) : Except Malformed Literal :=
  if skipped then l.skip b else l.next b

/-- What is unfinished stays within bounds, and can be undone octet by octet. -/
theorem insideForm_of_advances_of_isShort {skipped : Bool} {l m : Literal} {inside : List UInt8}
    (hshort : l.pending.IsShort) (hplain : skipped = true → l.pending.IsPlain)
    (h : Advances (advance skipped) l inside (.ok m)) (hm : m.pending = .nothing) :
    InsideForm (l.pending.octets ++ inside) := by
  generalize houtcome : Except.ok m = outcome at h
  induction h with
  | nil l =>
    cases houtcome
    rw [hm]
    exact .nil
  | refused => cases houtcome
  | cons hopen hnext _ ih =>
    cases skipped with
    | false =>
      obtain ⟨hkept, hback⟩ := insideForm_of_next hshort hopen hnext
      exact hback _ (ih hkept (by nofun) houtcome)
    | true =>
      obtain ⟨⟨hkept, hkept'⟩, hback⟩ := insideForm_of_skip ⟨hshort, hplain rfl⟩ hopen hnext
      exact hback _ (ih hkept (fun _ => hkept') houtcome)

/-- **What a literal goes over may stand between two quotes.** -/
theorem insideForm_of_advances {skipped : Bool} {m : Literal} {inside : List UInt8}
    (h : Advances (advance skipped) start inside (.ok m)) (hm : m.pending = .nothing) :
    InsideForm inside := by
  have hshort : start.pending.IsShort := trivial
  have hplain : start.pending.IsPlain := trivial
  exact insideForm_of_advances_of_isShort hshort (fun _ => hplain) h hm

end Literal

/-! ### Numbers -/

namespace Numeral

/-- **How one stage comes behind another**, with an octet between them. -/
inductive Stage.Follows (b : UInt8) : Stage → Stage → Prop
  /-- The first digit behind a minus sign. -/
  | first {d : Nat} (hb : digit? b = some d) :
      Follows b .sign (if d = 0 then .zero else .whole false)
  /-- A digit in front of the point. -/
  | whole {d : Nat} {full full' : Bool} (hb : digit? b = some d) :
      Follows b (.whole full) (.whole full')
  /-- A digit behind the point. -/
  | fraction {d : Nat} {s : Stage} {full : Bool} (hb : digit? b = some d)
      (hs : s = .point ∨ ∃ full, s = .fraction full) : Follows b s (.fraction full)
  /-- A digit of a power. -/
  | power {d : Nat} {s : Stage} (hb : digit? b = some d)
      (hs : s = .mark ∨ s = .powerSign ∨ s = .power) : Follows b s .power
  /-- The point. -/
  | point {s : Stage} (hb : b = octet '.') (hs : s.IsWhole) : Follows b s .point
  /-- The mark of a power. -/
  | mark {s : Stage} (hb : b = octet 'e' ∨ b = octet 'E') (hs : s.TakesMark) : Follows b s .mark
  /-- The sign of a power. -/
  | powerSign (hb : b = octet '+' ∨ b = octet '-') : Follows b .mark .powerSign

theorem follows_of_punctuate {n m : Numeral} {b : UInt8} {pointAllowed : Bool}
    (hpoint : pointAllowed = true → n.stage.IsWhole) (hmark : n.stage.TakesMark)
    (h : n.punctuate pointAllowed b = .more m) : n.stage.Follows b m.stage := by
  unfold punctuate at h
  split at h
  · next hb =>
    cases h
    exact .point hb.1 (hpoint hb.2)
  split at h
  · next hb =>
    cases h
    exact .mark hb hmark
  · cases h

/-- **All that an octet can do to a numeral** that it belongs to. -/
theorem follows_of_next {n m : Numeral} {b : UInt8} (h : n.next b = .more m) :
    n.stage.Follows b m.stage := by
  cases hstage : n.stage with
  | sign =>
    cases hb : digit? b with
    | none => simp only [next, hstage, hb, reduceCtorEq] at h
    | some d =>
      simp only [next, hstage, hb, Progress.more.injEq] at h
      rw [← h]
      exact .first hb
  | zero =>
    cases hb : digit? b with
    | some d => simp only [next, hstage, hb, reduceCtorEq] at h
    | none =>
      simp only [next, hstage, hb] at h
      rw [← hstage]
      exact follows_of_punctuate (fun _ => Or.inl hstage) (Or.inl (Or.inl hstage)) h
  | whole full =>
    cases hb : digit? b with
    | some d =>
      simp only [next, hstage, hb, Progress.more.injEq] at h
      obtain ⟨full', hwhole⟩ := exists_stage_pushWhole n full d
      rw [← h, hwhole]
      exact .whole hb
    | none =>
      simp only [next, hstage, hb] at h
      rw [← hstage]
      exact follows_of_punctuate (fun _ => Or.inr ⟨full, hstage⟩) (Or.inl (Or.inr ⟨full, hstage⟩)) h
  | point =>
    cases hb : digit? b with
    | none => simp only [next, hstage, hb, reduceCtorEq] at h
    | some d =>
      simp only [next, hstage, hb, Progress.more.injEq] at h
      obtain ⟨full', hfraction⟩ := exists_stage_pushFraction n false d
      rw [← h, hfraction]
      exact .fraction hb (Or.inl rfl)
  | fraction full =>
    cases hb : digit? b with
    | some d =>
      simp only [next, hstage, hb, Progress.more.injEq] at h
      obtain ⟨full', hfraction⟩ := exists_stage_pushFraction n full d
      rw [← h, hfraction]
      exact .fraction hb (Or.inr ⟨full, rfl⟩)
    | none =>
      simp only [next, hstage, hb] at h
      rw [← hstage]
      refine follows_of_punctuate (fun hpoint => ?_) (Or.inr ⟨full, hstage⟩) h
      cases hpoint
  | mark =>
    cases hb : digit? b with
    | some d =>
      simp only [next, hstage, hb, Progress.more.injEq] at h
      rw [← h]
      exact .power hb (Or.inl rfl)
    | none =>
      simp only [next, hstage, hb] at h
      split at h
      · next hplus =>
        cases h
        exact .powerSign (Or.inl hplus)
      split at h
      · next hminus =>
        cases h
        exact .powerSign (Or.inr hminus)
      · cases h
  | powerSign =>
    cases hb : digit? b with
    | none => simp only [next, hstage, hb, reduceCtorEq] at h
    | some d =>
      simp only [next, hstage, hb, Progress.more.injEq] at h
      rw [← h]
      exact .power hb (Or.inr (Or.inl rfl))
  | power =>
    cases hb : digit? b with
    | none => simp only [next, hstage, hb, reduceCtorEq] at h
    | some d =>
      simp only [next, hstage, hb, Progress.more.injEq] at h
      rw [← h]
      exact .power hb (Or.inr (Or.inr rfl))

/-- Decimal digits, or none at all. -/
def AllDigits (octets : List UInt8) : Prop :=
  ∀ b ∈ octets, (digit? b).isSome = true

/-- **What has to come behind a stage**, so that a number ends with it. -/
def Stage.Rest : Stage → List UInt8 → Prop
  | .sign, octets => ∃ whole fraction power, octets = whole ++ (fraction ++ power) ∧
      WholeForm whole ∧ FractionForm fraction ∧ PowerForm power
  | .zero, octets => ∃ fraction power, octets = fraction ++ power ∧ FractionForm fraction ∧
      PowerForm power
  | .whole _, octets => ∃ digits fraction power, octets = digits ++ (fraction ++ power) ∧
      AllDigits digits ∧ FractionForm fraction ∧ PowerForm power
  | .point, octets => ∃ digits power, octets = digits ++ power ∧ IsDigits digits ∧ PowerForm power
  | .fraction _, octets => ∃ digits power, octets = digits ++ power ∧ AllDigits digits ∧
      PowerForm power
  | .mark, octets => ∃ sign digits, octets = sign ++ digits ∧
      (sign = [] ∨ sign = [octet '+'] ∨ sign = [octet '-']) ∧ IsDigits digits
  | .powerSign, octets => IsDigits octets
  | .power, octets => AllDigits octets

theorem allDigits_nil : AllDigits [] := List.forall_mem_nil _

theorem allDigits_cons {b : UInt8} {d : Nat} {octets : List UInt8} (hb : digit? b = some d)
    (h : AllDigits octets) : AllDigits (b :: octets) :=
  List.forall_mem_cons.2 ⟨Option.isSome_of_eq_some hb, h⟩

theorem isDigits_cons {b : UInt8} {d : Nat} {octets : List UInt8} (hb : digit? b = some d)
    (h : AllDigits octets) : IsDigits (b :: octets) :=
  ⟨List.cons_ne_nil _ _, allDigits_cons hb h⟩

/-- Where a number may end, nothing has to come. -/
theorem rest_nil {s : Stage} (h : s.isComplete = true) : s.Rest [] := by
  cases s with
  | zero => exact ⟨[], [], rfl, .none, .none⟩
  | whole => exact ⟨[], [], [], rfl, allDigits_nil, .none, .none⟩
  | fraction => exact ⟨[], [], rfl, allDigits_nil, .none⟩
  | power => exact allDigits_nil
  | sign | point | mark | powerSign => cases h

/-- The digit zero has one octet. -/
theorem eq_of_digit?_zero {b : UInt8} (h : digit? b = some 0) : b = octet '0' := by
  unfold digit? at h
  split at h
  · next hrange =>
    have hlow : 0x30 ≤ b.toNat := UInt8.le_iff_toNat_le.1 hrange.1
    have hzero : b.toNat - 0x30 = 0 := Option.some.inj h
    have hvalue : b.toNat = (octet '0').toNat := by
      have hoctet : (octet '0').toNat = 0x30 := rfl
      omega
    exact UInt8.toNat_inj.1 hvalue
  · cases h

/-- The first digit of a number and what has to come behind it. -/
theorem exists_whole {b : UInt8} {d : Nat} {octets : List UInt8} (hb : digit? b = some d)
    (h : (if d = 0 then Stage.zero else .whole false).Rest octets) :
    ∃ whole fraction power, b :: octets = whole ++ (fraction ++ power) ∧ WholeForm whole ∧
      FractionForm fraction ∧ PowerForm power := by
  split at h
  · next hd =>
    obtain ⟨fraction, power, rfl, hfraction, hpower⟩ := h
    subst hd
    rw [eq_of_digit?_zero hb]
    exact ⟨_, fraction, power, rfl, .zero, hfraction, hpower⟩
  · next hd =>
    obtain ⟨digits, fraction, power, rfl, hdigits, hfraction, hpower⟩ := h
    exact ⟨b :: digits, fraction, power, rfl, .positive hb hd hdigits, hfraction, hpower⟩

/-- **What an octet does to a numeral** can be undone: if the rest is in form behind it, it is in
form in front of it. -/
theorem rest_of_follows {s t : Stage} {b : UInt8} (h : s.Follows b t) {octets : List UInt8}
    (hrest : t.Rest octets) : s.Rest (b :: octets) := by
  cases h with
  | first hb => exact exists_whole hb hrest
  | whole hb =>
    obtain ⟨digits, fraction, power, rfl, hdigits, hparts⟩ := hrest
    exact ⟨b :: digits, fraction, power, rfl, allDigits_cons hb hdigits, hparts⟩
  | fraction hb hs =>
    obtain ⟨digits, power, rfl, hdigits, hpower⟩ := hrest
    rcases hs with rfl | ⟨full, rfl⟩
    · exact ⟨b :: digits, power, rfl, isDigits_cons hb hdigits, hpower⟩
    · exact ⟨b :: digits, power, rfl, allDigits_cons hb hdigits, hpower⟩
  | power hb hs =>
    rcases hs with rfl | rfl | rfl
    · exact ⟨[], _, rfl, Or.inl rfl, isDigits_cons hb hrest⟩
    · exact isDigits_cons hb hrest
    · exact allDigits_cons hb hrest
  | point hb hs =>
    obtain ⟨digits, power, rfl, hdigits, hpower⟩ := hrest
    subst hb
    have hfraction : FractionForm (octet '.' :: digits) := .some hdigits
    rcases hs with rfl | ⟨full, rfl⟩
    · exact ⟨_, power, rfl, hfraction, hpower⟩
    · exact ⟨[], _, power, rfl, allDigits_nil, hfraction, hpower⟩
  | mark hb hs =>
    obtain ⟨sign, digits, rfl, hsign, hdigits⟩ := hrest
    have hpower : PowerForm (b :: (sign ++ digits)) := .some hb hsign hdigits
    rcases hs with (rfl | ⟨full, rfl⟩) | ⟨full, rfl⟩
    · exact ⟨[], _, rfl, .none, hpower⟩
    · exact ⟨[], [], _, rfl, allDigits_nil, .none, hpower⟩
    · exact ⟨[], _, rfl, allDigits_nil, hpower⟩
  | powerSign hb =>
    refine ⟨[b], octets, rfl, ?_, hrest⟩
    rcases hb with rfl | rfl
    · exact Or.inr (Or.inl rfl)
    · exact Or.inr (Or.inr rfl)

theorem rest_of_reads {n m : Numeral} {octets : List UInt8} (h : n.Reads octets m)
    (hm : m.stage.isComplete = true) : n.stage.Rest octets := by
  induction h with
  | nil n => exact rest_nil hm
  | cons hnext _ ih => exact rest_of_follows (follows_of_next hnext) (ih hm)

/-- **What a numeral reads up to where it may end is a number.** -/
theorem numberForm_of_reads {b : UInt8} {octets : List UInt8} {first m : Numeral}
    (hstart : start? b = some first) (h : first.Reads octets m)
    (hm : m.stage.isComplete = true) : NumberForm (b :: octets) := by
  have hrest := rest_of_reads h hm
  unfold start? at hstart
  split at hstart
  · next hsign =>
    cases hstart
    obtain ⟨whole, fraction, power, rfl, hwhole, hfraction, hpower⟩ := hrest
    rw [hsign]
    exact .mk (Or.inr rfl) hwhole hfraction hpower
  · obtain ⟨d, hb, rfl⟩ := Option.map_eq_some_iff.1 hstart
    obtain ⟨whole, fraction, power, heq, hwhole, hfraction, hpower⟩ := exists_whole hb hrest
    rw [heq]
    exact .mk (Or.inl rfl) hwhole hfraction hpower

end Numeral

end LinearMemory.Json
