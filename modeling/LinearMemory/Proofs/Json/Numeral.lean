import LinearMemory.Json.Numeral

/-!
# Reading an integer

An integer that is written in decimal is read digit by digit. As long as it is below `2 ^ 64` the
significand takes up every digit, so part way through the numeral is the number that its digits
spell so far: `Json.Numeral.whole`. The digits of a number are those of its tenth and one more, and
the induction of `Json.Numeral.reads_digits` goes along that.

* `Json.Numeral.reads_integer` is the whole way, from the first octet to the value.
* `Json.Numeral.next_of_ends` says which octets end a number, once it may end.
* `Json.Numeral.exists_of_prefix_integer` says what is left of an integer that is cut short.
-/

namespace LinearMemory.Json

namespace Numeral

/-- **A numeral reads octets**, all of which belong to it. -/
inductive Reads : Numeral → List UInt8 → Numeral → Prop
  | nil (n : Numeral) : Reads n [] n
  | cons {n m l : Numeral} {b : UInt8} {rest : List UInt8} (hnext : n.next b = .more m)
      (hrest : Reads m rest l) : Reads n (b :: rest) l

theorem Reads.append {n m l : Numeral} {first second : List UInt8} (h : Reads n first m)
    (h' : Reads m second l) : Reads n (first ++ second) l := by
  induction h with
  | nil n => exact h'
  | cons hnext _ ih => exact .cons hnext (ih h')

/-- **The numeral of a number** without point and power: what is known behind its digits. -/
def whole (negative : Bool) (m : Nat) : Numeral :=
  ⟨negative, m, 0, false, 0, if m = 0 then .zero else .whole false⟩

/-- **An octet ends a number** if it neither goes on with it nor is a digit too many. -/
def Ends (b : UInt8) : Prop :=
  digit? b = none ∧ b ≠ octet '.' ∧ b ≠ octet 'e' ∧ b ≠ octet 'E'

instance : DecidablePred Ends := fun b =>
  inferInstanceAs (Decidable (digit? b = none ∧ b ≠ octet '.' ∧ b ≠ octet 'e' ∧ b ≠ octet 'E'))

variable {negative : Bool} {m : Nat}

/-! ### Digits -/

theorem digit?_octet_digitChar : ∀ d < 10, digit? (octet (Nat.digitChar d)) = some d := by
  decide

theorem utf8EncodeChar_digitChar :
    ∀ d < 10, String.utf8EncodeChar (Nat.digitChar d) = [octet (Nat.digitChar d)] := by
  decide

/-- The octet of a digit starts the number of this digit. -/
theorem start?_digitChar {d : Nat} (hd : d < 10) :
    start? (octet (Nat.digitChar d)) = some (whole false d) := by
  have hsign : ∀ d < 10, octet (Nat.digitChar d) ≠ octet '-' := by decide
  rw [start?, if_neg (hsign d hd), digit?_octet_digitChar d hd]
  rfl

/-- Behind a minus sign, it starts the negative one. -/
theorem next_sign {d : Nat} (hd : d < 10) :
    next ⟨true, 0, 0, false, 0, .sign⟩ (octet (Nat.digitChar d)) = .more (whole true d) := by
  simp only [next, digit?_octet_digitChar d hd]
  rfl

/-- Any further digit is taken up while the number stays below the limit. -/
theorem next_whole (hm : m ≠ 0) {d : Nat} (hd : d < 10) (hlimit : 10 * m + d < wordLimit) :
    next (whole negative m) (octet (Nat.digitChar d)) = .more (whole negative (10 * m + d)) := by
  have hmore : 10 * m + d ≠ 0 := by omega
  simp only [whole, if_neg hm, if_neg hmore, next, digit?_octet_digitChar d hd, pushWhole, absorb?,
    if_pos hlimit]

/-- **The digits of a number are read to the number**: the first of them starts it. -/
theorem reads_digits (hm : m < wordLimit) :
    ∃ d rest, d < 10 ∧
      (Nat.toDigits 10 m).flatMap String.utf8EncodeChar = octet (Nat.digitChar d) :: rest ∧
      ∀ negative, (whole negative d).Reads rest (whole negative m) := by
  induction m using Nat.strongRecOn with
  | ind m ih =>
    rcases Nat.lt_or_ge m 10 with hlt | hge
    · refine ⟨m, [], hlt, ?_, fun _ => .nil _⟩
      rw [Nat.toDigits_of_lt_base hlt, List.flatMap_singleton, utf8EncodeChar_digitChar m hlt]
    · -- all digits but the last are those of the tenth
      have hdigit : m % 10 < 10 := Nat.mod_lt m (by decide)
      have hvalue : 10 * (m / 10) + m % 10 = m := Nat.div_add_mod m 10
      obtain ⟨d, rest, hd, hoctets, hreads⟩ := ih (m / 10) (by omega) (by omega)
      refine ⟨d, rest ++ [octet (Nat.digitChar (m % 10))], hd, ?_, fun negative => ?_⟩
      · rw [Nat.toDigits_of_base_le (by decide) hge, List.flatMap_append, hoctets,
          List.flatMap_singleton, utf8EncodeChar_digitChar _ hdigit, List.cons_append]
      · have hnext : next (whole negative (m / 10)) (octet (Nat.digitChar (m % 10)))
            = .more (whole negative m) := by
          rw [next_whole (by omega) hdigit (by omega), hvalue]
        exact (hreads negative).append (.cons hnext (.nil _))

/-! ### Values and ends -/

theorem value_whole_false : (whole false m).value = .ok (.integer m) := by
  have hinteger : (whole false m).integer? = some (m : Int) := by
    simp only [integer?, whole]
    split <;> simp_all
  rw [value, hinteger]

theorem value_whole_true (hpos : 0 < m) (hle : m ≤ Nat.pow 2 63) :
    (whole true m).value = .ok (.integer (-m)) := by
  have hinteger : (whole true m).integer? = some (-(m : Int)) := by
    simp only [integer?, whole, if_neg (Nat.ne_of_gt hpos), not_true_eq_false, if_false,
      if_pos (And.intro hpos hle)]
  rw [value, hinteger]

theorem isComplete_whole : (whole negative m).stage.isComplete = true := by
  simp only [whole]
  split <;> rfl

/-- **An octet that ends numbers** ends every numeral that may end. -/
theorem next_of_ends {n : Numeral} (hn : n.stage.isComplete = true) {b : UInt8} (hb : Ends b) :
    n.next b = .over := by
  obtain ⟨hdigit, hpoint, hmark, hMark⟩ := hb
  cases hstage : n.stage with
  | zero | whole | fraction | power =>
    simp only [next, hstage, hdigit, punctuate, hpoint, hmark, hMark, false_and, or_self, if_false]
  | sign | point | mark | powerSign =>
    rw [hstage] at hn
    exact absurd hn (by decide)

/-- **The octets of an integer** are read as those of its digits, with its sign. -/
theorem reads_signed {n : Int} {d : Nat} {rest : List UInt8} {l : Bool → Numeral} (hd : d < 10)
    (hoctets : (Nat.toDigits 10 n.natAbs).flatMap String.utf8EncodeChar =
      octet (Nat.digitChar d) :: rest)
    (hreads : ∀ negative, (whole negative d).Reads rest (l negative)) :
    ∃ b behind first, Text.utf8 (Number.integerText n) = b :: behind ∧ start? b = some first ∧
      first.Reads behind (l (decide (n < 0))) := by
  rw [Text.utf8, Number.integerText, String.toList_ofList]
  rcases Int.lt_or_le n 0 with hneg | hpos
  · rw [if_pos hneg, decide_eq_true hneg, List.flatMap_append, hoctets]
    exact ⟨octet '-', octet (Nat.digitChar d) :: rest, _, rfl, rfl,
      .cons (next_sign hd) (hreads true)⟩
  · rw [if_neg (Int.not_lt.2 hpos), decide_eq_false (Int.not_lt.2 hpos), List.nil_append, hoctets]
    exact ⟨octet (Nat.digitChar d), rest, _, rfl, start?_digitChar hd, hreads false⟩

/-- **An integer is read to its value**, from `-2 ^ 63` up to `2 ^ 64 - 1`. -/
theorem reads_integer {n : Int} (hlow : -Nat.pow 2 63 ≤ n) (hhigh : n < Nat.pow 2 64) :
    ∃ b rest first negative m, Text.utf8 (Number.integerText n) = b :: rest ∧
      start? b = some first ∧ first.Reads rest (whole negative m) ∧
      (whole negative m).value = .ok (.integer n) := by
  have hlimit : n.natAbs < wordLimit := by
    have hpow : Nat.pow 2 63 < wordLimit ∧ wordLimit = Nat.pow 2 64 := ⟨by decide, rfl⟩
    omega
  obtain ⟨d, rest, hd, hoctets, hreads⟩ := reads_digits hlimit
  obtain ⟨b, behind, first, hall, hstart, hfirst⟩ := reads_signed hd hoctets hreads
  refine ⟨b, behind, first, _, _, hall, hstart, hfirst, ?_⟩
  rcases Int.lt_or_le n 0 with hneg | hpos
  · rw [decide_eq_true hneg, value_whole_true (by omega) (by omega),
      Int.ofNat_natAbs_of_nonpos (Int.le_of_lt hneg), Int.neg_neg]
  · rw [decide_eq_false (Int.not_lt.2 hpos), value_whole_false, Int.natAbs_of_nonneg hpos]

/-! ### Integers that are cut short -/

/-- What is cut off a sequence of octets has its last octet, if it has any. -/
theorem exists_of_append_last {init front behind : List UInt8} {b : UInt8}
    (h : init ++ [b] = front ++ behind) (hbehind : behind ≠ []) :
    ∃ rest, init = front ++ rest ∧ behind = rest ++ [b] := by
  rcases List.eq_nil_or_concat behind with hnil | ⟨rest, c, rfl⟩
  · exact absurd hnil hbehind
  rw [List.concat_eq_append, ← List.append_assoc] at h
  obtain ⟨hinit, hlast⟩ := List.append_inj' h rfl
  exact ⟨rest, hinit, by rw [List.concat_eq_append, hlast]⟩

/-- The first digits of a number are the digits of a number that is not greater, and of zero only if
it is zero. -/
theorem exists_of_prefix_digits {front behind : List UInt8}
    (h : (Nat.toDigits 10 m).flatMap String.utf8EncodeChar = front ++ behind)
    (hfront : front ≠ []) :
    ∃ k, k ≤ m ∧ (0 < m → 0 < k) ∧ front = (Nat.toDigits 10 k).flatMap String.utf8EncodeChar := by
  induction m using Nat.strongRecOn generalizing behind with
  | ind m ih =>
    by_cases hbehind : behind = []
    · rw [hbehind, List.append_nil] at h
      exact ⟨m, Nat.le_refl m, id, h.symm⟩
    rcases Nat.lt_or_ge m 10 with hlt | hge
    · -- a single digit has nothing behind it
      rw [Nat.toDigits_of_lt_base hlt, List.flatMap_singleton, utf8EncodeChar_digitChar m hlt] at h
      rcases List.singleton_eq_append_iff.1 h with ⟨hnil, -⟩ | ⟨-, hnil⟩
      · exact absurd hnil hfront
      · exact absurd hnil hbehind
    · -- the digits before the last one are those of the tenth
      rw [Nat.toDigits_of_base_le (by decide) hge, List.flatMap_append, List.flatMap_singleton,
        utf8EncodeChar_digitChar _ (Nat.mod_lt m (by decide))] at h
      obtain ⟨rest, htenth, -⟩ := exists_of_append_last h hbehind
      obtain ⟨k, hle, hpos, hk⟩ := ih (m / 10) (by omega) htenth
      exact ⟨k, by omega, fun _ => hpos (by omega), hk⟩

/-- **What is left of an integer** is a lone minus sign or another integer, one from the same side
of zero that is not farther from it. -/
theorem exists_of_prefix_integer {n : Int} {front behind : List UInt8}
    (h : Text.utf8 (Number.integerText n) = front ++ behind) (hfront : front ≠ []) :
    front = [octet '-'] ∨ ∃ k : Int, (0 ≤ n → 0 ≤ k ∧ k ≤ n) ∧ (n < 0 → n ≤ k ∧ k < 0) ∧
      front = Text.utf8 (Number.integerText k) := by
  rw [Text.utf8, Number.integerText, String.toList_ofList, List.flatMap_append] at h
  rcases Int.lt_or_le n 0 with hneg | hpos
  · rw [if_pos hneg] at h
    change octet '-' :: _ = _ at h
    rcases List.cons_eq_append_iff.1 h with ⟨hnil, -⟩ | ⟨digits, rfl, hdigits⟩
    · exact absurd hnil hfront
    by_cases hnone : digits = []
    · exact Or.inl (by rw [hnone])
    obtain ⟨k, hle, hkpos, rfl⟩ := exists_of_prefix_digits hdigits hnone
    refine Or.inr ⟨-k, fun _ => by omega, fun _ => by omega, ?_⟩
    rw [Text.utf8, Number.integerText, String.toList_ofList, if_pos (by omega), List.flatMap_append,
      Int.natAbs_neg, Int.natAbs_natCast]
    rfl
  · rw [if_neg (Int.not_lt.2 hpos)] at h
    obtain ⟨k, hle, -, rfl⟩ := exists_of_prefix_digits h hfront
    refine Or.inr ⟨k, fun _ => by omega, fun _ => by omega, ?_⟩
    rw [Text.utf8, Number.integerText, String.toList_ofList, if_neg (by omega), List.nil_append,
      Int.natAbs_natCast]

end Numeral

end LinearMemory.Json
