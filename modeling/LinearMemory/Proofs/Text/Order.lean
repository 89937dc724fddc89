import LinearMemory.Text.Basic

/-!
# The order of texts and the order of their octets

Texts are ordered by their characters. The octets of UTF-8 keep this order. A character with fewer
octets has a smaller first octet, and among characters with as many octets, the octets are the
digits of the character to the base of 64, the highest one first. So it makes no difference whether
texts are sorted as such or by their octets: `Text.utf8_lt_utf8`.
-/

namespace LinearMemory.Text

/-! ### Octets that are digits -/

/-- Lists are ordered by their first octets. -/
theorem cons_lt_cons_of_lt {a b : Nat} (h : a < b) (hb : b < 256) (s t : List UInt8) :
    UInt8.ofNat a :: s < UInt8.ofNat b :: t := by
  rw [List.cons_lt_cons_iff, UInt8.lt_iff_toNat_lt, UInt8.toNat_ofNat', UInt8.toNat_ofNat',
    Nat.mod_eq_of_lt hb, Nat.mod_eq_of_lt (Nat.lt_trans h hb)]
  exact Or.inl h

/-- **Numbers below a bound are written in order**, whatever stands behind them. -/
def InOrder (write : Nat → List UInt8) (bound : Nat) : Prop :=
  ∀ v w, v < w → w < bound → ∀ s t, write v ++ s < write w ++ t

/-- A single octet with a mark in front of its digits. -/
theorem inOrder_lead (base mark : Nat) (h : base + mark ≤ 256) :
    InOrder (fun v => [UInt8.ofNat (v % base + mark)]) base := by
  intro v w hvw hw s t
  simp only [Nat.mod_eq_of_lt hw, Nat.mod_eq_of_lt (Nat.lt_trans hvw hw)]
  exact cons_lt_cons_of_lt (by omega) (by omega) s t

/-- **One more octet** takes up one more digit. -/
theorem InOrder.digit {write : Nat → List UInt8} {bound : Nat} (h : InOrder write bound) :
    InOrder (fun v => write (v / 64) ++ [UInt8.ofNat (v % 64 + 128)]) (64 * bound) := by
  intro v w hvw hw s t
  simp only [List.append_assoc]
  -- the higher digits decide, or else they are the same and the last one does
  rcases Nat.lt_or_ge (v / 64) (w / 64) with hlt | hge
  · exact h (v / 64) (w / 64) hlt (by omega) _ _
  · have heq : v / 64 = w / 64 := by omega
    have hdigit : v % 64 < w % 64 := by omega
    rw [heq]
    exact List.append_left_lt (cons_lt_cons_of_lt (by omega) (by omega) s t)

/-! ### Characters and texts -/

/-- **A smaller character has smaller octets**, whatever stands behind them. -/
theorem utf8EncodeChar_append_lt {c d : Char} (h : c < d) (s t : List UInt8) :
    String.utf8EncodeChar c ++ s < String.utf8EncodeChar d ++ t := by
  have hvw : c.val.toNat < d.val.toNat := h
  have hw : d.val.toNat < 0x110000 := by
    have hvalid := d.valid
    simp only [UInt32.isValidChar, Nat.isValidChar] at hvalid
    omega
  have htwo := (inOrder_lead 32 192 (by decide)).digit
  have hthree := (inOrder_lead 16 224 (by decide)).digit.digit
  have hfour := (inOrder_lead 8 240 (by decide)).digit.digit.digit
  simp only [InOrder, Nat.div_div_eq_div_mul, List.cons_append, List.nil_append]
    at htwo hthree hfour
  unfold String.utf8EncodeChar
  generalize c.val.toNat = v at hvw
  generalize d.val.toNat = w at hvw hw
  -- the smaller character has no more octets; if it has fewer of them, the first one decides
  simp only
  split
  · split
    · exact cons_lt_cons_of_lt hvw (by omega) _ _
    split
    · exact cons_lt_cons_of_lt (by omega) (by omega) _ _
    split <;> exact cons_lt_cons_of_lt (by omega) (by omega) _ _
  split
  · split
    · omega
    split
    · exact htwo v w hvw (by omega) s t
    split <;> exact cons_lt_cons_of_lt (by omega) (by omega) _ _
  split
  · split
    · omega
    split
    · omega
    split
    · exact hthree v w hvw (by omega) s t
    · exact cons_lt_cons_of_lt (by omega) (by omega) _ _
  · split
    · omega
    split
    · omega
    split
    · omega
    · exact hfour v w hvw (by omega) s t

/-- **The octets of a text are ordered as the text is.** -/
theorem utf8_lt_utf8 {s t : String} (h : s < t) : utf8 s < utf8 t := by
  have hlt : List.Lex (· < ·) s.toList t.toList := String.lt_iff.1 h
  unfold utf8
  generalize s.toList = cs at hlt
  generalize t.toList = ds at hlt
  induction hlt with
  | @nil d ds =>
    obtain ⟨b, rest, hoctets⟩ := List.exists_cons_of_ne_nil (@String.utf8EncodeChar_ne_nil d)
    rw [List.flatMap_nil, List.flatMap_cons, hoctets, List.cons_append]
    exact List.nil_lt_cons b _
  | rel hcd =>
    rw [List.flatMap_cons, List.flatMap_cons]
    exact utf8EncodeChar_append_lt hcd _ _
  | cons _ ih =>
    rw [List.flatMap_cons, List.flatMap_cons]
    exact List.append_left_lt ih

end LinearMemory.Text
