import LinearMemory.Proofs.Decimal.Rounding
import LinearMemory.Proofs.Json.Acceptance

/-!
# Integers of any size

An integer in plain decimal is a number, and `Json.integerNumber` is the way it is written. What it
stands for depends on its size only:

* from `-2 ^ 63` up to `2 ^ 64 - 1` it is the integer (`Json.value_integerNumber`);
* beyond that it is never an integer, and below `10 ^ 308` it is a double
  (`Json.value_integerNumber_beyond`): the significand refuses the last digits, which are counted as
  places, and neither the rounding of the significand nor that of the product takes it out of the
  doubles.

A number with a point or a power, and a negative zero, is not an integer either, whatever its value
(`Json.NumberText.value_ne_integer`). All that can be wrong with a number is that it is too large
(`Json.NumberText.value_eq_error`).
-/

namespace LinearMemory.Json

namespace Numeral

/-! ### Large numbers -/

/-- **A number below `10 ^ 308` is a double**, with its last digits counted as places. -/
theorem exists_magnitude? {significand k : Nat} (hpos : 0 < significand)
    (h : significand * 10 ^ k < 10 ^ 308) : ∃ x, magnitude? significand k = some x := by
  have hpow : 0 < 10 ^ k := Nat.pow_pos (by decide)
  have hk : k ≤ maxPower := by
    have hless : 10 ^ k < 10 ^ 308 := Nat.lt_of_le_of_lt (Nat.le_mul_of_pos_left _ hpos) h
    rw [pow_lt_pow_iff_right₀ (by decide : 1 < 10)] at hless
    exact Nat.le_of_lt hless
  -- as rational numbers, with the two roundings
  have hlimit := Double.ten_pow_lt_greatest
  have hproduct : (significand : ℚ) * (10 ^ k : Nat) < 10 ^ 308 := by
    rw [← Nat.cast_mul]
    exact_mod_cast h
  generalize (10 : ℚ) ^ 308 = limit at hlimit hproduct
  have hone : (1 : ℚ) ≤ significand := by exact_mod_cast hpos
  have hone' : (1 : ℚ) ≤ (10 ^ k : Nat) := by exact_mod_cast hpow
  have hfirst : (significand : ℚ) ≤ significand * (10 ^ k : Nat) := by nlinarith
  have hsecond : ((10 ^ k : Nat) : ℚ) ≤ significand * (10 ^ k : Nat) := by nlinarith
  obtain ⟨x, hx, hxLow, hxHigh⟩ := Double.exists_ofNat? hpos (by linarith)
  obtain ⟨y, hy, hyLow, hyHigh⟩ := Double.exists_ofNat? hpow (by linarith)
  generalize ((10 ^ k : Nat) : ℚ) = power at *
  have hpositive : 0 ≤ x.value := by linarith
  have hlow : 1 / 4 ≤ x.value * y.value := by
    calc (1 : ℚ) / 4 ≤ significand / 2 * (power / 2) := by nlinarith
      _ ≤ x.value * y.value := by gcongr
  have hhigh : x.value * y.value < Double.greatest := by
    calc x.value * y.value ≤ 5 / 4 * significand * (5 / 4 * power) := by gcongr; linarith
      _ = 25 / 16 * (significand * power) := by ring
      _ < Double.greatest := by linarith
  obtain ⟨z, hz⟩ := Double.exists_mul? hlow hhigh
  refine ⟨z, ?_⟩
  have hten : tenTo k = some y := hy
  simp only [magnitude?, hx, Option.bind_eq_bind, Option.bind_some, if_pos (Int.natCast_nonneg k),
    Int.toNat_natCast, multiplyByTenTo, if_pos hk, hten, hz]

/-! ### Reading an integer of any size -/

/-- A digit that the significand refuses is counted as a place. -/
theorem next_full {negative : Bool} {significand k d : Nat} (hd : d < 10) :
    next ⟨negative, significand, k, false, 0, .whole true⟩ (octet (Nat.digitChar d)) =
      .more ⟨negative, significand, (k + 1 : Nat), false, 0, .whole true⟩ := by
  simp only [next, digit?_octet_digitChar d hd, pushWhole]
  rfl

/-- The first digit that the significand refuses. -/
theorem next_refused {negative : Bool} {m d : Nat} (hm : m ≠ 0) (hd : d < 10)
    (hlimit : ¬10 * m + d < wordLimit) :
    next (whole negative m) (octet (Nat.digitChar d)) =
      .more ⟨negative, m, (1 : Nat), false, 0, .whole true⟩ := by
  simp only [whole, if_neg hm, next, digit?_octet_digitChar d hd, pushWhole, absorb?, if_neg hlimit]
  rfl

/-- **The digits of a large number** are read to its first digits, and the others are counted. -/
theorem reads_digits_full {m : Nat} (hm : wordLimit ≤ m) :
    ∃ d rest significand k, d < 10 ∧
      (Nat.toDigits 10 m).flatMap String.utf8EncodeChar = octet (Nat.digitChar d) :: rest ∧
      0 < significand ∧ significand * 10 ^ k ≤ m ∧
      ∀ negative, (whole negative d).Reads rest ⟨negative, significand, (k : Nat), false, 0,
        .whole true⟩ := by
  have hlimit : wordLimit = 18446744073709551616 := rfl
  induction m using Nat.strongRecOn with
  | ind m ih =>
    have hdigit : m % 10 < 10 := Nat.mod_lt m (by decide)
    have hvalue : 10 * (m / 10) + m % 10 = m := Nat.div_add_mod m 10
    -- all digits but the last are those of the tenth
    have hdigits : (Nat.toDigits 10 m).flatMap String.utf8EncodeChar =
        (Nat.toDigits 10 (m / 10)).flatMap String.utf8EncodeChar ++
          [octet (Nat.digitChar (m % 10))] := by
      rw [Nat.toDigits_of_base_le (by decide) (by omega), List.flatMap_append,
        List.flatMap_singleton, utf8EncodeChar_digitChar _ hdigit]
    rcases Nat.lt_or_ge (m / 10) wordLimit with hless | hge
    · obtain ⟨d, rest, hd, hoctets, hreads⟩ := reads_digits hless
      refine ⟨d, rest ++ [octet (Nat.digitChar (m % 10))], m / 10, 1, hd, ?_, by omega, by omega,
        fun negative => ?_⟩
      · rw [hdigits, hoctets, List.cons_append]
      · exact (hreads negative).append
          (.cons (next_refused (by omega) hdigit (by omega)) (.nil _))
    · obtain ⟨d, rest, significand, k, hd, hoctets, hpos, hle, hreads⟩ := ih (m / 10) (by omega) hge
      refine ⟨d, rest ++ [octet (Nat.digitChar (m % 10))], significand, k + 1, hd, ?_, hpos, ?_,
        fun negative => ?_⟩
      · rw [hdigits, hoctets, List.cons_append]
      · rw [Nat.pow_succ, ← Nat.mul_assoc]
        omega
      · exact (hreads negative).append (.cons (next_full hdigit) (.nil _))

/-- **How far an integer is read**: to the number itself, or to its first digits. -/
theorem reads_integerText (n : Int) :
    ∃ b rest first l, Text.utf8 (Number.integerText n) = b :: rest ∧ start? b = some first ∧
      first.Reads rest l ∧
      (n.natAbs < wordLimit ∧ l = whole (decide (n < 0)) n.natAbs ∨
        wordLimit ≤ n.natAbs ∧ ∃ significand k, 0 < significand ∧ significand * 10 ^ k ≤ n.natAbs ∧
          l = ⟨decide (n < 0), significand, (k : Nat), false, 0, .whole true⟩) := by
  rcases Nat.lt_or_ge n.natAbs wordLimit with hless | hge
  · obtain ⟨d, rest, hd, hoctets, hreads⟩ := reads_digits hless
    obtain ⟨b, behind, first, hall, hstart, hfirst⟩ := reads_signed hd hoctets hreads
    exact ⟨b, behind, first, _, hall, hstart, hfirst, Or.inl ⟨hless, rfl⟩⟩
  · obtain ⟨d, rest, significand, k, hd, hoctets, hpos, hle, hreads⟩ := reads_digits_full hge
    obtain ⟨b, behind, first, hall, hstart, hfirst⟩ := reads_signed hd hoctets hreads
    exact ⟨b, behind, first, _, hall, hstart, hfirst, Or.inr ⟨hge, significand, k, hpos, hle, rfl⟩⟩

theorem numberForm_integerText (n : Int) : NumberForm (Text.utf8 (Number.integerText n)) := by
  obtain ⟨b, rest, first, l, hoctets, hstart, hreads, hl⟩ := reads_integerText n
  rw [hoctets]
  refine numberForm_of_reads hstart hreads ?_
  rcases hl with ⟨-, rfl⟩ | ⟨-, significand, k, -, -, rfl⟩
  · exact isComplete_whole
  · rfl

/-! ### Numerals that are no integers -/

theorem value_ne_integer_of_none {l : Numeral} (h : l.integer? = none) (i : Int) :
    l.value ≠ .ok (.integer i) := by
  intro hi
  rw [value, h] at hi
  cases hmagnitude : magnitude? l.significand l.totalPower with
  | some x =>
    rw [hmagnitude] at hi
    cases hi
  | none =>
    rw [hmagnitude] at hi
    cases hi

/-- Whether a point or the mark of a power was read. -/
def Stage.HasMark : Stage → Prop
  | .sign | .zero | .whole _ => False
  | .point | .fraction _ | .mark | .powerSign | .power => True

theorem integer?_of_hasMark {l : Numeral} (h : l.stage.HasMark) : l.integer? = none := by
  unfold integer?
  split
  · next hstage => exact absurd h (by rw [hstage]; exact id)
  · next hstage => exact absurd h (by rw [hstage]; exact id)
  · rfl

/-- An octet that is no digit is a mark, and no mark is forgotten. -/
theorem hasMark_of_follows {s t : Stage} {b : UInt8} (h : s.Follows b t)
    (hmark : s.HasMark ∨ digit? b = none) : t.HasMark := by
  cases h with
  | first hb | whole hb =>
    rw [hb] at hmark
    exact hmark.elim False.elim fun hnone => absurd hnone (Option.some_ne_none _)
  | fraction | power | point | mark | powerSign => trivial

theorem hasMark_of_reads {l m : Numeral} {octets : List UInt8} (h : l.Reads octets m)
    (hmark : l.stage.HasMark ∨ ∃ b ∈ octets, digit? b = none) : m.stage.HasMark := by
  induction h with
  | nil l => exact hmark.elim id (by nofun)
  | cons hnext _ ih =>
    rcases hmark with hmark | ⟨b, hb, hdigit⟩
    · exact ih (Or.inl (hasMark_of_follows (follows_of_next hnext) (Or.inl hmark)))
    rcases List.mem_cons.1 hb with rfl | hb
    · exact ih (Or.inl (hasMark_of_follows (follows_of_next hnext) (Or.inr hdigit)))
    · exact ih (Or.inr ⟨b, hb, hdigit⟩)

end Numeral

/-! ### The number that is written -/

/-- **An integer as it is written**, in plain decimal. -/
def integerNumber (n : Int) : NumberText :=
  ⟨Text.utf8 (Number.integerText n), Numeral.numberForm_integerText n⟩

/-- **From `-2 ^ 63` up to `2 ^ 64 - 1` an integer is itself.** -/
theorem value_integerNumber {n : Int} (hlow : -2 ^ 63 ≤ n) (hhigh : n < 2 ^ 64) :
    (integerNumber n).value = .ok (.integer n) := by
  obtain ⟨b, rest, first, negative, m, hoctets, hstart, hreads, hvalue⟩ :=
    Numeral.reads_integer hlow hhigh
  simp only [NumberText.value, integerNumber, hoctets, Numeral.read?_of_reads hstart hreads, hvalue]

/-- **Beyond that an integer is a double**, if it is below `10 ^ 308`, and never an integer. -/
theorem value_integerNumber_beyond {n : Int} (h : n < -2 ^ 63 ∨ 2 ^ 64 ≤ n) :
    (∀ i, (integerNumber n).value ≠ .ok (.integer i)) ∧
      (n.natAbs < 10 ^ 308 → ∃ x, (integerNumber n).value = .ok (.real (decide (n < 0)) x)) := by
  obtain ⟨b, rest, first, l, hoctets, hstart, hreads, hl⟩ := Numeral.reads_integerText n
  have hvalue : (integerNumber n).value = l.value := by
    simp only [NumberText.value, integerNumber, hoctets, Numeral.read?_of_reads hstart hreads]
  -- it is no integer, since it is negative or has surplus digits
  have hnone : l.integer? = none := by
    rcases hl with ⟨hless, rfl⟩ | ⟨-, significand, k, -, -, rfl⟩
    · have hlimit : wordLimit = 2 ^ 64 := rfl
      have hneg : n < -2 ^ 63 := by omega
      have hbeyond : ¬(0 < n.natAbs ∧ n.natAbs ≤ Nat.pow 2 63) := by
        have hpow : Nat.pow 2 63 = 9223372036854775808 := rfl
        omega
      rw [Numeral.whole, if_neg (by omega : n.natAbs ≠ 0), decide_eq_true (by omega : n < 0)]
      simp only [Numeral.integer?, not_true_eq_false, if_false, if_neg hbeyond]
    · rfl
  refine ⟨fun i => by rw [hvalue]; exact Numeral.value_ne_integer_of_none hnone i, fun hless => ?_⟩
  have hmagnitude : ∃ x, Numeral.magnitude? l.significand l.totalPower = some x := by
    rcases hl with ⟨-, rfl⟩ | ⟨-, significand, k, hpos, hle, rfl⟩
    · refine Numeral.exists_magnitude? (k := 0) (by omega : 0 < n.natAbs) ?_
      rwa [Nat.pow_zero, Nat.mul_one]
    · have hpower : Numeral.totalPower ⟨decide (n < 0), significand, (k : Nat), false, 0,
          .whole true⟩ = (k : Nat) := Int.add_zero _
      rw [hpower]
      exact Numeral.exists_magnitude? hpos (Nat.lt_of_le_of_lt hle hless)
  obtain ⟨x, hx⟩ := hmagnitude
  refine ⟨x, ?_⟩
  have hsign : l.negative = decide (n < 0) := by
    rcases hl with ⟨-, rfl⟩ | ⟨-, significand, k, -, -, rfl⟩
    · rfl
    · rfl
  rw [hvalue, Numeral.value, hnone, hx, hsign]

/-- **A number is marked** as no integer: it is written with a point or with a power, or it is a
negative zero. -/
def NumberText.IsMarked (n : NumberText) : Prop :=
  octet '.' ∈ n.octets ∨ octet 'e' ∈ n.octets ∨ octet 'E' ∈ n.octets ∨
    n.octets = [octet '-', octet '0']

/-- **A point, a power or a negative zero** makes a number that is no integer, whatever its
value. -/
theorem NumberText.value_ne_integer {n : NumberText} (h : n.IsMarked) (i : Int) :
    n.value ≠ .ok (.integer i) := by
  obtain ⟨b, rest, first, m, hoctets, hstart, hreads, -, hvalue⟩ := n.reads
  -- no number starts with a mark
  have hmarked {c : UInt8} (hdigit : digit? c = none) (hsign : c ≠ octet '-')
      (hc : c ∈ n.octets) : n.value ≠ .ok (.integer i) := by
    rw [hoctets] at hc
    have hrest : c ∈ rest := by
      rcases List.mem_cons.1 hc with rfl | hc
      · rw [Numeral.start?, if_neg hsign, hdigit] at hstart
        cases hstart
      · exact hc
    rw [hvalue]
    exact Numeral.value_ne_integer_of_none
      (Numeral.integer?_of_hasMark (Numeral.hasMark_of_reads hreads (Or.inr ⟨c, hrest, hdigit⟩))) i
  rcases h with hc | hc | hc | hzero
  · exact hmarked rfl (by decide) hc
  · exact hmarked rfl (by decide) hc
  · exact hmarked rfl (by decide) hc
  · have hread : Numeral.read? n.octets = some (Numeral.whole true 0) := by
      rw [hzero]
      rfl
    rw [NumberText.value, hread]
    exact Numeral.value_ne_integer_of_none rfl i

/-- All that can be wrong with a number is that it is too large for a double. -/
theorem NumberText.value_eq_error {n : NumberText} {cause : Malformed}
    (h : n.value = .error cause) : cause = .numberOutOfRange := by
  obtain ⟨b, rest, first, m, -, -, -, -, hvalue⟩ := n.reads
  rw [hvalue, Numeral.value] at h
  split at h
  · cases h
  · split at h
    · cases h
    · exact (Except.error.inj h).symm

end LinearMemory.Json
