import LinearMemory.Json.Literal
import LinearMemory.Proofs.Json.Form
import LinearMemory.Proofs.Text.Octets

/-!
# Reading a text literal

A literal keeps the octets of the characters that it has read, in reverse. Reading one more
character, in whatever form, adds the octets of this character and leaves nothing unfinished:
`Json.Literal.reads_char` says this for each of the four forms, and `Json.Literal.reads_text` for
a whole text. No octet on the way closes the literal, so the quote behind the text does.

* `Json.Literal.Reads` says that a literal takes octets, one after the other.
* `Json.Literal.Advances` says the same of octets that may be refused, or that are only skipped.
-/

namespace LinearMemory.Json

namespace Literal

/-- **A literal reads octets**, none of which closes it. -/
inductive Reads : Literal → List UInt8 → Literal → Prop
  | nil (l : Literal) : Reads l [] l
  | cons {l m n : Literal} {b : UInt8} {rest : List UInt8} (hopen : l.isClosedBy b = false)
      (hnext : l.next b = .ok m) (hrest : Reads m rest n) : Reads l (b :: rest) n

theorem Reads.append {l m n : Literal} {first second : List UInt8} (h : Reads l first m)
    (h' : Reads m second n) : Reads l (first ++ second) n := by
  induction h with
  | nil l => exact h'
  | cons hopen hnext _ ih => exact .cons hopen hnext (ih h')

/-- What is read can be read up to any octet. -/
theorem Reads.exists_of_append {l n : Literal} {first second : List UInt8}
    (h : Reads l (first ++ second) n) : ∃ m, Reads l first m := by
  induction first generalizing l with
  | nil => exact ⟨l, .nil l⟩
  | cons b rest ih =>
    obtain _ | ⟨hopen, hnext, hrest⟩ := h
    obtain ⟨m, hm⟩ := ih hrest
    exact ⟨m, .cons hopen hnext hm⟩

theorem Reads.single {l m : Literal} {b : UInt8} (hopen : l.isClosedBy b = false)
    (hnext : l.next b = .ok m) : Reads l [b] m :=
  .cons hopen hnext (.nil m)

/-- **A literal goes over octets**, read or skipped one by one, and none of them closes it. At the
end it is what has become of it, or what the first refused octet was refused for. -/
inductive Advances (advance : Literal → UInt8 → Except Malformed Literal) :
    Literal → List UInt8 → Except Malformed Literal → Prop
  | nil (l : Literal) : Advances advance l [] (.ok l)
  | refused {l : Literal} {b : UInt8} {rest : List UInt8} {cause : Malformed}
      (hopen : l.isClosedBy b = false) (hnext : advance l b = .error cause) :
      Advances advance l (b :: rest) (.error cause)
  | cons {l m : Literal} {b : UInt8} {rest : List UInt8} {outcome : Except Malformed Literal}
      (hopen : l.isClosedBy b = false) (hnext : advance l b = .ok m)
      (hrest : Advances advance m rest outcome) : Advances advance l (b :: rest) outcome

/-- There is one outcome only. -/
theorem Advances.foldlM_eq {advance : Literal → UInt8 → Except Malformed Literal} {l : Literal}
    {octets : List UInt8} {outcome : Except Malformed Literal}
    (h : Advances advance l octets outcome) :
    octets.foldlM advance l = outcome := by
  induction h with
  | nil l => rfl
  | refused _ hnext =>
    rw [List.foldlM_cons, hnext]
    rfl
  | cons _ hnext _ ih =>
    rw [List.foldlM_cons, hnext]
    exact ih

/-- What is read is gone over. -/
theorem Reads.advances {l m : Literal} {octets : List UInt8} (h : Reads l octets m) :
    Advances next l octets (.ok m) := by
  induction h with
  | nil l => exact .nil l
  | cons hopen hnext _ ih => exact .cons hopen hnext ih

/-- Nothing closes a literal in the middle of an escape. -/
theorem isClosedBy_of_pending {kept : List UInt8} {pending : Pending} (h : pending ≠ .nothing)
    (b : UInt8) : isClosedBy ⟨kept, pending⟩ b = false := by
  have hpending : decide (pending = .nothing) = false := decide_eq_false h
  simp only [isClosedBy, hpending, Bool.and_false]

variable {kept : List UInt8}

/-! ### Plain characters -/

/-- Octets that have no meaning of their own are kept as they are. -/
theorem reads_plain {octets : List UInt8}
    (h : ∀ b ∈ octets, b ≠ octet '"' ∧ b ≠ octet '\\' ∧ ¬b < 0x20) :
    Reads ⟨kept, .nothing⟩ octets ⟨octets.reverse ++ kept, .nothing⟩ := by
  induction octets generalizing kept with
  | nil => exact .nil _
  | cons b rest ih =>
    obtain ⟨hquote, hslash, hcontrol⟩ := h b List.mem_cons_self
    have hopen : isClosedBy ⟨kept, .nothing⟩ b = false := by
      simp only [isClosedBy, decide_eq_false hquote, Bool.false_and]
    have hnext : next ⟨kept, .nothing⟩ b = .ok ⟨b :: kept, .nothing⟩ := by
      simp only [next, if_neg hslash, if_neg hcontrol]
      rfl
    rw [List.reverse_cons, List.append_assoc]
    exact .cons hopen hnext (ih fun b' hb' => h b' (List.mem_cons_of_mem _ hb'))

/-- Different ASCII characters have different octets. -/
theorem octet_ne_octet {c d : Char} (hc : c.toNat < 0x80) (hd : d.toNat < 0x80) (h : c ≠ d) :
    octet c ≠ octet d := by
  intro heq
  have hnat := congrArg UInt8.toNat heq
  rw [octet, octet, UInt8.toNat_ofNat', UInt8.toNat_ofNat', Nat.mod_eq_of_lt (by omega),
    Nat.mod_eq_of_lt (by omega)] at hnat
  exact h (Char.toNat_inj.1 hnat)

/-- A character that is no quote, no backslash and no control has octets of the same kind. -/
theorem plain_of_mem_utf8EncodeChar {c : Char} (hquote : c ≠ '"') (hslash : c ≠ '\\')
    (hcontrol : 0x20 ≤ c.toNat) :
    ∀ b ∈ String.utf8EncodeChar c, b ≠ octet '"' ∧ b ≠ octet '\\' ∧ ¬b < 0x20 := by
  intro b hb
  rcases Nat.lt_or_ge c.toNat 0x80 with hlt | hge
  · rw [Text.utf8EncodeChar_of_lt hlt, List.mem_singleton] at hb
    subst hb
    refine ⟨octet_ne_octet hlt (by decide) hquote, octet_ne_octet hlt (by decide) hslash, ?_⟩
    rw [UInt8.lt_iff_toNat_lt, UInt8.toNat_ofNat', Nat.mod_eq_of_lt (by omega)]
    exact Nat.not_lt_of_le hcontrol
  · have hbound : 0x80 ≤ b.toNat := Text.le_of_mem_utf8EncodeChar hge b hb
    refine ⟨fun h => ?_, fun h => ?_, fun h => ?_⟩
    · rw [h] at hbound
      exact absurd hbound (by decide)
    · rw [h] at hbound
      exact absurd hbound (by decide)
    · have hsmall : b.toNat < 0x20 := UInt8.lt_iff_toNat_lt.1 h
      omega

/-! ### Escapes -/

/-- Every short escape stands for one octet, that of its character. -/
theorem shortEscape?_of_mem : ∀ p ∈ shortEscapes, octet p.1 ≠ octet 'u' ∧
    shortEscape? (octet p.1) = some (octet p.2) ∧ String.utf8EncodeChar p.2 = [octet p.2] := by
  decide

theorem reads_backslash : Reads ⟨kept, .nothing⟩ [octet '\\'] ⟨kept, .backslash⟩ :=
  .single rfl rfl

/-- The value of the digits of a code unit. -/
theorem exists_unit?_eq {n : Nat} {digits : List UInt8} (h : UnitForm n digits) :
    ∃ a b c d, digits = [a, b, c, d] ∧ unit? [d, c, b, a] = some n := by
  obtain @⟨a, b, c, d, w, x, y, z, ha, hb, hc, hd⟩ := h
  refine ⟨a, b, c, d, rfl, ?_⟩
  simp only [unit?, ha, hb, hc, hd, Option.bind_eq_bind, Option.bind_some, Option.pure_def,
    Nat.mul_zero, Nat.zero_add]

/-- The digits of a code unit, taken one after the other and judged at the last one. -/
theorem reads_unit {first : Option Nat} {unit : Nat} {digits : List UInt8} {l : Literal}
    (hunit : UnitForm unit digits)
    (hpush : pushUnit ⟨kept, .unit first digits.dropLast.reverse⟩ first unit = .ok l) :
    Reads ⟨kept, .unit first []⟩ digits l := by
  have hopen : ∀ taken b, isClosedBy ⟨kept, .unit first taken⟩ b = false :=
    fun _ => isClosedBy_of_pending (by nofun)
  obtain ⟨a, b, c, d, rfl, hvalue⟩ := exists_unit?_eq hunit
  have hlast : next ⟨kept, .unit first [c, b, a]⟩ d = .ok l := by
    simp only [next, hvalue]
    exact hpush
  exact .cons (hopen _ _) rfl <| .cons (hopen _ _) rfl <| .cons (hopen _ _) rfl <|
    .single (hopen _ _) hlast

/-- No character is half a surrogate pair. -/
theorem not_surrogate (c : Char) : isFirstHalf c.toNat = false ∧ isSecondHalf c.toNat = false := by
  have hvalid : c.toNat < 0xd800 ∨ 0xdfff < c.toNat ∧ c.toNat < 0x110000 := c.valid
  simp only [isFirstHalf, isSecondHalf, Bool.and_eq_false_iff, decide_eq_false_iff_not]
  omega

/-! ### Characters and texts -/

/-- **A character is read in any form**, and its octets are kept. -/
theorem reads_char {c : Char} {form : List UInt8} (h : CharForm c form) :
    Reads ⟨kept, .nothing⟩ form ⟨(String.utf8EncodeChar c).reverse ++ kept, .nothing⟩ := by
  cases h with
  | plain hquote hslash hcontrol =>
    exact reads_plain (plain_of_mem_utf8EncodeChar hquote hslash hcontrol)
  | short hescape =>
    next e =>
    obtain ⟨hnotUnit, hstands, hoctets⟩ := shortEscape?_of_mem _ hescape
    have hnext : next ⟨kept, .backslash⟩ (octet e) = .ok ⟨octet c :: kept, .nothing⟩ := by
      simp only [next, if_neg hnotUnit, hstands]
      rfl
    rw [hoctets]
    exact reads_backslash.append (.single (isClosedBy_of_pending (by nofun) _) hnext)
  | unit hunit =>
    obtain ⟨hnotFirst, hnotSecond⟩ := not_surrogate c
    refine reads_backslash.append (.cons rfl rfl (reads_unit hunit ?_))
    simp only [pushUnit, pushCodePoint, hnotFirst, hnotSecond, Char.ofNat_toNat]
    rfl
  | pair hhigh hlow hfirst hsecond hpair =>
    next high low first second =>
    have hnotSecond : isSecondHalf high = false := by
      simp only [isSecondHalf, Bool.and_eq_false_iff, decide_eq_false_iff_not]
      omega
    have hisFirst : isFirstHalf high = true := by
      simp only [isFirstHalf, Bool.and_eq_true, decide_eq_true_eq]
      exact hfirst
    have hisSecond : isSecondHalf low = true := by
      simp only [isSecondHalf, Bool.and_eq_true, decide_eq_true_eq]
      exact hsecond
    -- the first half is remembered, the second one completes the character
    have hstart : Reads ⟨kept, .nothing⟩ (octet '\\' :: octet 'u' :: first)
        ⟨kept, .surrogate high⟩ := by
      refine reads_backslash.append (.cons rfl rfl (reads_unit hhigh ?_))
      simp only [pushUnit, hnotSecond, hisFirst]
      rfl
    have hend : Reads ⟨kept, .surrogate high⟩ (octet '\\' :: octet 'u' :: second)
        ⟨(String.utf8EncodeChar c).reverse ++ kept, .nothing⟩ := by
      have hslash : Reads ⟨kept, .surrogate high⟩ [octet '\\'] ⟨kept, .surrogateBackslash high⟩ :=
        .single (isClosedBy_of_pending (by nofun) _) rfl
      have hmark :
          Reads ⟨kept, .surrogateBackslash high⟩ [octet 'u'] ⟨kept, .unit (some high) []⟩ :=
        .single (isClosedBy_of_pending (by nofun) _) rfl
      refine hslash.append (hmark.append (reads_unit hlow ?_))
      have hcodePoint : pairCodePoint high low = c.toNat := hpair.symm
      simp only [pushUnit, pushCodePoint, hisSecond, hcodePoint, Char.ofNat_toNat, if_true]
    exact hstart.append hend

/-- **A text is read in any form**, and its octets are kept. -/
theorem reads_chars {cs : List Char} {form : List UInt8} (h : TextForm cs form) :
    Reads ⟨kept, .nothing⟩ form
      ⟨(cs.flatMap String.utf8EncodeChar).reverse ++ kept, .nothing⟩ := by
  induction h generalizing kept with
  | nil => exact .nil _
  | cons hc _ ih =>
    rw [List.flatMap_cons, List.reverse_append, List.append_assoc]
    exact (reads_char hc).append ih

/-- **What a literal reads is its text**, and a quote closes it. -/
theorem reads_text {s : String} {form : List UInt8} (h : TextForm s.toList form) :
    ∃ l, Reads start form l ∧ l.isClosedBy (octet '"') = true ∧ l.text = .ok s := by
  refine ⟨⟨(Text.utf8 s).reverse ++ [], .nothing⟩, reads_chars h, rfl, ?_⟩
  rw [text, List.append_nil, List.reverse_reverse, Text.ofUtf8?_utf8]

end Literal

end LinearMemory.Json
