import Mathlib.Algebra.Order.Ring.Int
import LinearMemory.Proofs.Fixture.Fields
import LinearMemory.Proofs.Fixture.Values

/-!
# What a field holds, and what is wrong with a value that it does not hold

The reader takes the content of a field out of a value or finds a fault. Here the two outcomes are
told apart from the reader: `Fixture.Field.Holds` lists the values of each type, and
`Fixture.Field.Unfit` says of every other value what is wrong with it, its type or its range. The
same is done for the name of a kind, by `Fixture.Field.NoKind`. The reader agrees with these lists
(`Fixture.Field.check_eq_ok_iff`, `Fixture.Field.check_eq_error_iff`,
`Fixture.Field.kind_eq_ok_iff`, `Fixture.Field.kind_eq_error_iff`), and from here on only the lists
are looked at.
-/

namespace LinearMemory.Fixture

open Json

/-! ### Values of a type -/

namespace Field

/-- **A value is of a type**, and in its range. -/
inductive Holds : Operation.FieldType → Value → Prop
  | word (w : UInt64) : Holds .word (wordValue w)
  | offset (o : Int64) : Holds .offset (offsetValue o)
  | text (s : String) : Holds .text (.text s)
  | someText (s : String) : Holds .optionalText (.text s)
  | noText : Holds .optionalText .null

/-- **What is wrong with a value** that a field does not hold. -/
inductive Unfit : Operation.FieldType → Value → Mistyped → Prop
  | wordRange {n : Int} (h : n < 0 ∨ 2 ^ 64 ≤ n) :
      Unfit .word (.number (.integer n)) (.outOfRange n .word)
  | word {v : Value} (h : ∀ n, v ≠ .number (.integer n)) : Unfit .word v (.wrongType v .word)
  | offsetRange {n : Int} (h : n < -2 ^ 63 ∨ 2 ^ 63 ≤ n) :
      Unfit .offset (.number (.integer n)) (.outOfRange n .offset)
  | offset {v : Value} (h : ∀ n, v ≠ .number (.integer n)) :
      Unfit .offset v (.wrongType v .offset)
  | text {v : Value} (h : ∀ s, v ≠ .text s) : Unfit .text v (.wrongType v .text)
  | optionalText {v : Value} (hnull : v ≠ .null) (h : ∀ s, v ≠ .text s) :
      Unfit .optionalText v (.wrongType v .text)

variable {type : Operation.FieldType} {v : Value} {cause : Mistyped}

@[simp] theorem check_of_holds (h : Holds type v) : check type v = .ok () := by
  cases h with
  | word w => exact discard_of_ok (word_wordValue .word w)
  | offset o => exact discard_of_ok (offset_offsetValue o)
  | text s => rfl
  | someText s => rfl
  | noText => rfl

@[simp]
theorem check_of_unfit (h : Unfit type v cause) : check type v = .error (.mistyped cause) := by
  have hword : Nat.pow 2 64 = 2 ^ 64 := rfl
  have hoffset : Nat.pow 2 63 = 2 ^ 63 := rfl
  cases h with
  | @wordRange n h =>
    have hrange : ¬(0 ≤ n ∧ n < Nat.pow 2 64) := by omega
    rw [check, Field.word, if_neg hrange]
    rfl
  | @offsetRange n h =>
    have hrange : ¬(-Nat.pow 2 63 ≤ n ∧ n < Nat.pow 2 63) := by omega
    rw [check, Field.offset, if_neg hrange]
    rfl
  | word h =>
    cases v with
    | number x =>
      cases x with
      | integer n => exact absurd rfl (h n)
      | real => rfl
    | _ => rfl
  | offset h =>
    cases v with
    | number x =>
      cases x with
      | integer n => exact absurd rfl (h n)
      | real => rfl
    | _ => rfl
  | text h =>
    cases v with
    | text s => exact absurd rfl (h s)
    | _ => rfl
  | optionalText hnull h =>
    cases v with
    | text s => exact absurd rfl (h s)
    | null => exact absurd rfl hnull
    | _ => rfl

/-- An integer is a word, or out of the range of one. -/
theorem word_holds_or (n : Int) :
    Holds .word (.number (.integer n)) ∨ n < 0 ∨ 2 ^ 64 ≤ n := by
  by_cases h : 0 ≤ n ∧ n < 2 ^ 64
  · left
    have hvalue : (Value.number (.integer n)) = wordValue (UInt64.ofNat n.toNat) := by
      rw [wordValue, UInt64.toNat_ofNat', Nat.mod_eq_of_lt (by omega), Int.toNat_of_nonneg h.1]
    rw [hvalue]
    exact .word _
  · right
    omega

/-- An integer is an offset, or out of the range of one. -/
theorem offset_holds_or (n : Int) :
    Holds .offset (.number (.integer n)) ∨ n < -2 ^ 63 ∨ 2 ^ 63 ≤ n := by
  by_cases h : -2 ^ 63 ≤ n ∧ n < 2 ^ 63
  · left
    have hvalue : (Value.number (.integer n)) = offsetValue (Int64.ofInt n) := by
      rw [offsetValue, Int64.toInt_ofInt_of_le h.1 h.2]
    rw [hvalue]
    exact .offset _
  · right
    omega

/-- **The lists are complete**: a value is of a type, or something is wrong with it. -/
theorem holds_or_unfit (type : Operation.FieldType) (v : Value) :
    Holds type v ∨ ∃ cause, Unfit type v cause := by
  cases type with
  | word =>
    match v with
    | .number (.integer n) => exact (word_holds_or n).imp_right fun h => ⟨_, .wordRange h⟩
    | .number (.real _ _) | .null | .boolean _ | .text _ | .array | .object =>
      exact Or.inr ⟨_, .word (by nofun)⟩
  | offset =>
    match v with
    | .number (.integer n) => exact (offset_holds_or n).imp_right fun h => ⟨_, .offsetRange h⟩
    | .number (.real _ _) | .null | .boolean _ | .text _ | .array | .object =>
      exact Or.inr ⟨_, .offset (by nofun)⟩
  | text =>
    match v with
    | .text s => exact Or.inl (.text s)
    | .number _ | .null | .boolean _ | .array | .object => exact Or.inr ⟨_, .text (by nofun)⟩
  | optionalText =>
    match v with
    | .text s => exact Or.inl (.someText s)
    | .null => exact Or.inl .noText
    | .number _ | .boolean _ | .array | .object =>
      exact Or.inr ⟨_, .optionalText (by nofun) (by nofun)⟩

/-- **A check passes** if the value is of the type. -/
theorem check_eq_ok_iff : check type v = .ok () ↔ Holds type v := by
  refine ⟨fun h => ?_, check_of_holds⟩
  rcases holds_or_unfit type v with hholds | ⟨cause, hunfit⟩
  · exact hholds
  · rw [check_of_unfit hunfit] at h
    cases h

/-- **A check fails** for what is wrong with the value. -/
theorem check_eq_error_iff {fault : Fault} :
    check type v = .error fault ↔ ∃ cause, fault = .mistyped cause ∧ Unfit type v cause := by
  constructor
  · intro h
    rcases holds_or_unfit type v with hholds | ⟨cause, hunfit⟩
    · rw [check_of_holds hholds] at h
      cases h
    · rw [check_of_unfit hunfit] at h
      exact ⟨cause, (Except.error.inj h).symm, hunfit⟩
  · rintro ⟨cause, rfl, hunfit⟩
    exact check_of_unfit hunfit

/-! ### Contents -/

theorem Holds.exists_word (h : Holds .word v) : ∃ w, v = wordValue w := by
  cases h with
  | word w => exact ⟨w, rfl⟩

theorem Holds.exists_offset (h : Holds .offset v) : ∃ o, v = offsetValue o := by
  cases h with
  | offset o => exact ⟨o, rfl⟩

theorem Holds.exists_text (h : Holds .text v) : ∃ s, v = .text s := by
  cases h with
  | text s => exact ⟨s, rfl⟩

theorem Holds.null_or_text (h : Holds .optionalText v) : v = .null ∨ ∃ s, v = .text s := by
  cases h with
  | someText s => exact Or.inr ⟨s, rfl⟩
  | noText => exact Or.inl rfl

theorem offset_eq_ok_iff {o : Int64} : offset v = .ok o ↔ v = offsetValue o := by
  constructor
  · intro h
    rcases holds_or_unfit .offset v with hholds | ⟨cause, hunfit⟩
    · obtain ⟨o', rfl⟩ := hholds.exists_offset
      rw [offset_offsetValue] at h
      rw [Except.ok.inj h]
    · have hcheck := check_of_unfit hunfit
      rw [check, h] at hcheck
      cases hcheck
  · rintro rfl
    exact offset_offsetValue o

theorem text_eq_ok_iff {s : String} : text v = .ok s ↔ v = .text s := by
  constructor
  · intro h
    match v with
    | .text s' => rw [Except.ok.inj h]
    | .number _ | .null | .boolean _ | .array | .object => exact absurd h (by nofun)
  · rintro rfl
    rfl

theorem optionalText_eq_ok_iff {expect : Option String} :
    optionalText v = .ok expect ↔
      v = .null ∧ expect = none ∨ ∃ s, v = .text s ∧ expect = some s := by
  constructor
  · intro h
    match v with
    | .text s => exact Or.inr ⟨s, rfl, (Except.ok.inj h).symm⟩
    | .null => exact Or.inl ⟨rfl, (Except.ok.inj h).symm⟩
    | .number _ | .boolean _ | .array | .object => exact absurd h (by nofun)
  · rintro (⟨rfl, rfl⟩ | ⟨s, rfl, rfl⟩)
    · rfl
    · rfl

/-! ### Names of kinds -/

/-- **What is wrong with a value** that names no kind. -/
inductive NoKind : Value → Mistyped → Prop
  | unknown {s : String} (h : ∀ kind : Operation.Kind, kind.name ≠ s) :
      NoKind (.text s) (.unknownKind s)
  | noText {v : Value} (h : ∀ s, v ≠ .text s) : NoKind v (.wrongType v .kind)

/-- A kind is found by its name, and by nothing else. -/
theorem ofName?_eq_some_iff {s : String} {kind : Operation.Kind} :
    Operation.Kind.ofName? s = some kind ↔ kind.name = s := by
  constructor
  · intro h
    exact of_decide_eq_true (List.find?_some h :)
  · rintro rfl
    cases kind <;> rfl

theorem kind_eq_ok_iff {kind : Operation.Kind} : Field.kind v = .ok kind ↔ v = .text kind.name := by
  constructor
  · intro h
    match v with
    | .text s =>
      rw [Field.kind] at h
      split at h
      · next kind' hname =>
        obtain rfl := Except.ok.inj h
        rw [ofName?_eq_some_iff.1 hname]
      · cases h
    | .number _ | .null | .boolean _ | .array | .object => exact absurd h (by nofun)
  · rintro rfl
    rw [Field.kind, ofName?_eq_some_iff.2 rfl]

theorem kind_eq_error_iff {fault : Fault} :
    Field.kind v = .error fault ↔ ∃ cause, fault = .mistyped cause ∧ NoKind v cause := by
  constructor
  · intro h
    match v with
    | .text s =>
      rw [Field.kind] at h
      split at h
      · cases h
      · next hname =>
        refine ⟨_, (Except.error.inj h).symm, .unknown fun kind hkind => ?_⟩
        rw [ofName?_eq_some_iff.2 hkind] at hname
        cases hname
    | .number _ | .null | .boolean _ | .array | .object =>
      exact ⟨_, (Except.error.inj h).symm, .noText (by nofun)⟩
  · rintro ⟨cause, rfl, hcause⟩
    cases hcause with
    | @unknown s h =>
      have hnone : Operation.Kind.ofName? s = none := by
        rw [Option.eq_none_iff_forall_ne_some]
        exact fun kind hkind => h kind (ofName?_eq_some_iff.1 hkind)
      rw [Field.kind, hnone]
    | noText h =>
      match v with
      | .text s => exact absurd rfl (h s)
      | .number _ | .null | .boolean _ | .array | .object => rfl

end Field

end LinearMemory.Fixture
