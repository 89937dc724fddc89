import LinearMemory.Hex

/-!
# Hex digits

Hex text is read digit by digit: if every octet of it is a digit and their number is even, the bytes
are the values of the digits taken two by two. `Hex.ofOctets_of_digits` says this without the search
for a fault, and `Hex.decode_encode` is what it comes to for text that was written from bytes.
-/

namespace LinearMemory.Hex

/-- The two halves of a byte, the high one first. -/
def halves (b : UInt8) : List Nat := [b.toNat / 16, b.toNat % 16]

/-- **Octets that are digits**, an even number of them, spell the bytes of their values. -/
theorem ofOctets_of_digits {octets : List UInt8} {digits : List Nat}
    (hdigits : octets.map digit? = digits.map some) (heven : digits.length % 2 = 0) :
    ofOctets octets = .ok (join digits) := by
  have hlength : octets.length = digits.length := by
    simpa using congrArg List.length hdigits
  have hsome : ∀ octet ∈ octets, (digit? octet).isNone = false := by
    intro octet hmem
    have hval : digit? octet ∈ digits.map some := hdigits ▸ List.mem_map_of_mem hmem
    obtain ⟨d, -, hd⟩ := List.mem_map.mp hval
    rw [← hd]
    rfl
  have hvalues : octets.filterMap digit? = digits := by
    have hid := congrArg (List.filterMap id) hdigits
    simpa [List.filterMap_map] using hid
  rw [ofOctets, if_neg (by omega), List.find?_eq_none.mpr, hvalues]
  -- no octet is found that is not a digit
  rintro ⟨octet, i⟩ hmem
  change ¬(digit? octet).isNone = true
  rw [hsome octet (List.fst_mem_of_mem_zipIdx hmem)]
  exact Bool.false_ne_true

/-- The halves of bytes, taken two by two, are the bytes. -/
@[simp] theorem join_flatMap_halves (bytes : List UInt8) : join (bytes.flatMap halves) = bytes := by
  induction bytes with
  | nil => rfl
  | cons b rest ih =>
    have hb : 16 * (b.toNat / 16) + b.toNat % 16 = b.toNat := Nat.div_add_mod ..
    rw [List.flatMap_cons, halves, List.cons_append, List.cons_append, List.nil_append, join, ih,
      hb, UInt8.ofNat_toNat]

/-- A digit that is written is one octet, and is read as its value. -/
@[simp] theorem digit?_digitChar :
    ∀ n < 16, (String.utf8EncodeChar (Nat.digitChar n)).map digit? = [some n] := by
  decide

theorem digits_pair (b : UInt8) :
    ((pair b).flatMap String.utf8EncodeChar).map digit? = (halves b).map some := by
  have hlt : b.toNat < 256 := b.toNat_lt
  rw [pair, halves, List.flatMap_cons, List.flatMap_cons, List.flatMap_nil, List.append_nil,
    List.map_append, digit?_digitChar _ (by omega), digit?_digitChar _ (by omega)]
  rfl

/-- The digits of written bytes are their halves. -/
theorem digits_encode (bytes : List UInt8) :
    (Text.utf8 (encode bytes)).map digit? = (bytes.flatMap halves).map some := by
  rw [Text.utf8, encode, String.toList_ofList]
  induction bytes with
  | nil => rfl
  | cons b rest ih =>
    rw [List.flatMap_cons, List.flatMap_append, List.map_append, digits_pair, ih, List.flatMap_cons,
      List.map_append]

/-- Written bytes do not start with the marker: `x` is no digit. -/
@[simp]
theorem dropMarker_encode (bytes : List UInt8) : dropMarker (encode bytes) = encode bytes := by
  have hdigit : ∀ n < 16, Nat.digitChar n ≠ 'x' := by decide
  unfold dropMarker
  split
  · next rest hmarker =>
    rw [encode, String.toList_ofList] at hmarker
    cases bytes with
    | nil => cases hmarker
    | cons b _ =>
      rw [List.flatMap_cons, pair, List.cons_append, List.cons_append, List.cons.injEq,
        List.cons.injEq] at hmarker
      exact absurd hmarker.2.1 (hdigit _ (Nat.mod_lt _ (by decide)))
  · rfl

/-- Bytes have an even number of halves. -/
@[simp]
theorem length_flatMap_halves (bytes : List UInt8) : (bytes.flatMap halves).length % 2 = 0 := by
  induction bytes with
  | nil => rfl
  | cons b rest ih =>
    rw [List.flatMap_cons, List.length_append, halves]
    simpa using ih

/-- Written bytes have an even number of digits, so they are read back. -/
@[simp] theorem ofDigits_encode (bytes : List UInt8) : ofDigits (encode bytes) = .ok bytes := by
  rw [ofDigits, ofOctets_of_digits (digits_encode bytes) (length_flatMap_halves bytes),
    join_flatMap_halves]

/-- **What is written is read back.** -/
@[simp] theorem decode_encode (bytes : List UInt8) : decode (encode bytes) = .ok bytes := by
  rw [decode, dropMarker_encode, ofDigits_encode]

/-! ### Pairs with a blank between them -/

/-- The byte that a text spells, if it spells one byte and no more. -/
def ofPair? (pair : List Char) : Option UInt8 :=
  match ofDigits (String.ofList pair) with
  | .ok [b] => some b
  | _ => none

/-- The bytes that a text spells pair by pair, where exactly one blank stands between two pairs. -/
def ofSpaced? (text : List Char) : Option (List UInt8) :=
  (text.splitOn ' ').mapM ofPair?

theorem ofPair?_pair (b : UInt8) : ofPair? (pair b) = some b := by
  have hread : ofDigits (String.ofList (pair b)) = .ok [b] := by
    have h := ofDigits_encode [b]
    rwa [encode, List.flatMap_singleton] at h
  rw [ofPair?, hread]

theorem forall_mem_pair {p : Char → Prop} (hp : ∀ n < 16, p (Nat.digitChar n)) (b : UInt8) :
    ∀ c ∈ pair b, p c := by
  have hlt : b.toNat < 256 := b.toNat_lt
  intro c hc
  rw [pair, List.mem_cons, List.mem_singleton] at hc
  rcases hc with rfl | rfl
  · exact hp _ (by omega)
  · exact hp _ (by omega)

/-- A character of spaced pairs is a blank or a digit. -/
theorem forall_mem_spaced {p : Char → Prop} (hblank : p ' ') (hp : ∀ n < 16, p (Nat.digitChar n))
    (bytes : List UInt8) : ∀ c ∈ (spaced bytes).toList, p c := by
  rw [spaced, String.toList_ofList]
  induction bytes with
  | nil =>
    intro c hc
    exact absurd hc List.not_mem_nil
  | cons b rest ih =>
    intro c hc
    by_cases hrest : rest = []
    · rw [hrest, List.map_singleton, List.intercalate_singleton] at hc
      exact forall_mem_pair hp b c hc
    · rw [List.map_cons, List.intercalate_cons_of_ne_nil (by simpa using hrest), List.append_assoc,
        List.mem_append, List.mem_append, List.mem_singleton] at hc
      rcases hc with hpair | rfl | hc
      · exact forall_mem_pair hp b c hpair
      · exact hblank
      · exact ih c hc

/-- **Pairs are read back**, as long as there is one: between no pairs there is no blank. -/
theorem ofSpaced?_spaced {bytes : List UInt8} (hbytes : bytes ≠ []) :
    ofSpaced? (spaced bytes).toList = some bytes := by
  have hdigits : ∀ l ∈ bytes.map pair, ' ' ∉ l := by
    intro l hl hblank
    obtain ⟨b, -, rfl⟩ := List.mem_map.mp hl
    exact forall_mem_pair (p := (· ≠ ' ')) (by decide) b ' ' hblank rfl
  have hsplit : (spaced bytes).toList.splitOn ' ' = bytes.map pair := by
    rw [spaced, String.toList_ofList, List.splitOn_intercalate ' ' hdigits (by simpa using hbytes)]
  have hpair : ofPair? ∘ pair = fun b => pure b := by
    funext b
    rw [Function.comp_apply, ofPair?_pair]
    rfl
  rw [ofSpaced?, hsplit, List.mapM_map, hpair, List.mapM_pure, List.map_id']
  rfl

end LinearMemory.Hex
