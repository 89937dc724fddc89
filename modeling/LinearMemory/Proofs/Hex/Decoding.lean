import LinearMemory.Proofs.Hex.Digits
import LinearMemory.Proofs.Text.Octets

/-!
# Which texts are hex

A text is hex if, without its marker, it is an even number of digits. Digits come in two cases, and
that is all the freedom there is: in lower case, the text is what its bytes are written as
(`Hex.decode_iff_encode`). The characters of the text and its octets tell the same story, since an
octet that is a digit is a character of its own (`Hex.map_digit?_iff`).

Any other text is refused for the first cause that is found: an odd number of octets, whatever they
are, and then the first octet that is no digit (`Hex.decode_first_fault`). Octets are counted, not
characters, so a character beyond ASCII is named by the first of its octets.
-/

namespace LinearMemory.Hex

/-! ### Values and halves -/

/-- A digit has a value below sixteen. -/
theorem lt_of_digit? {b : UInt8} {d : Nat} (h : digit? b = some d) : d < 16 := by
  simp only [digit?, UInt8.le_iff_toNat_le, UInt8.reduceToNat] at h
  grind

/-- Octets that are all digits have all their values. -/
theorem map_digit?_of_forall {octets : List UInt8} (h : ∀ b ∈ octets, (digit? b).isSome = true) :
    octets.map digit? = (octets.filterMap digit?).map some := by
  induction octets with
  | nil => rfl
  | cons b rest ih =>
    obtain ⟨hb, hrest⟩ := List.forall_mem_cons.1 h
    obtain ⟨d, hd⟩ := Option.isSome_iff_exists.1 hb
    rw [List.map_cons, List.filterMap_cons_some hd, List.map_cons, ih hrest, hd]

/-- An even number of values, taken two by two, are the halves of the bytes that they make. -/
theorem flatMap_halves_join :
    ∀ {values : List Nat}, (∀ d ∈ values, d < 16) → values.length % 2 = 0 →
      (join values).flatMap halves = values
  | [], _, _ => rfl
  | [_], _, heven => nomatch heven
  | high :: low :: rest, hlt, heven => by
    obtain ⟨hhigh, hlow, hrest⟩ : high < 16 ∧ low < 16 ∧ ∀ d ∈ rest, d < 16 := by
      simpa only [List.forall_mem_cons] using hlt
    have hbyte : (UInt8.ofNat (16 * high + low)).toNat = 16 * high + low := by
      rw [UInt8.toNat_ofNat', Nat.mod_eq_of_lt (by omega)]
    have hhalves : halves (UInt8.ofNat (16 * high + low)) = [high, low] := by
      rw [halves, hbyte, show (16 * high + low) / 16 = high by omega,
        show (16 * high + low) % 16 = low by omega]
    have heven' : rest.length % 2 = 0 := by
      simpa only [List.length_cons, Nat.add_assoc, Nat.add_mod_right] using heven
    rw [join, List.flatMap_cons, hhalves, flatMap_halves_join hrest heven']
    rfl

/-- **Octets spell bytes** if and only if they are digits whose values are the halves of the
bytes. -/
theorem ofOctets_eq_ok_iff {octets bytes : List UInt8} :
    ofOctets octets = .ok bytes ↔ octets.map digit? = (bytes.flatMap halves).map some := by
  constructor
  · intro h
    rw [ofOctets] at h
    split at h
    · cases h
    next heven =>
    split at h
    · cases h
    next hnone =>
    have hall : ∀ b ∈ octets, (digit? b).isSome = true := by
      intro b hb
      obtain ⟨i, hi⟩ := List.mem_iff_getElem?.1 hb
      have hdigit := List.find?_eq_none.1 hnone (b, i) (List.mk_mem_zipIdx_iff_getElem?.2 hi)
      simpa only [Option.isNone_iff_eq_none, Option.isSome_iff_ne_none] using hdigit
    have hvalues := map_digit?_of_forall hall
    have hlt : ∀ d ∈ octets.filterMap digit?, d < 16 := by
      intro d hd
      obtain ⟨b, -, hb⟩ := List.mem_filterMap.1 hd
      exact lt_of_digit? hb
    have hlength : (octets.filterMap digit?).length % 2 = 0 := by
      have hsame := congrArg List.length hvalues
      rw [List.length_map, List.length_map] at hsame
      omega
    obtain rfl := Except.ok.inj h
    rw [flatMap_halves_join hlt hlength, hvalues]
  · intro h
    rw [ofOctets_of_digits h (length_flatMap_halves bytes), join_flatMap_halves]

/-! ### Digits in both cases -/

/-- **A digit in lower case**: `A` to `F` are turned into `a` to `f`. Any other character stays as
it is. -/
def lowerDigit (c : Char) : Char :=
  if 'A' ≤ c ∧ c ≤ 'F' then Char.ofNat (c.toNat + 32) else c

/-- **A text with its digits in lower case.** -/
def lower (s : String) : String :=
  String.ofList (s.toList.map lowerDigit)

/-- A character of ASCII is a digit of some value if it is written as this value in lower case. -/
theorem digit?_ascii_iff :
    ∀ n < 0x80, ∀ d < 16,
      digit? (UInt8.ofNat n) = some d ↔ lowerDigit (Char.ofNat n) = Nat.digitChar d := by
  decide +kernel

/-- Beyond ASCII there are no digits. -/
theorem digit?_of_le {b : UInt8} (hb : 0x80 ≤ b.toNat) : digit? b = none := by
  simp only [digit?, UInt8.le_iff_toNat_le, UInt8.reduceToNat]
  grind

theorem lowerDigit_ne_of_le {c : Char} (hc : 0x80 ≤ c.toNat) {d : Nat} (hd : d < 16) :
    lowerDigit c ≠ Nat.digitChar d := by
  have hascii : ∀ d < 16, (Nat.digitChar d).toNat < 0x80 := by decide
  have hsame : lowerDigit c = c := by
    refine if_neg fun h => ?_
    have hle : c.toNat ≤ 'F'.toNat := Char.le_def.1 h.2
    exact absurd (Nat.le_trans hc hle) (by decide)
  intro h
  have hlt := hascii d hd
  rw [← h, hsame] at hlt
  omega

/-- **Digits are found in the octets as they are in the characters.** The octets of a text have
some values if and only if the text, in lower case, is written with these values. -/
theorem map_digit?_iff {cs : List Char} {values : List Nat} (hvalues : ∀ d ∈ values, d < 16) :
    (cs.flatMap String.utf8EncodeChar).map digit? = values.map some ↔
      cs.map lowerDigit = values.map Nat.digitChar := by
  induction cs generalizing values with
  | nil =>
    cases values with
    | nil => exact iff_of_true rfl rfl
    | cons d values => exact iff_of_false nofun nofun
  | cons c cs ih =>
    rcases Nat.lt_or_ge c.toNat 0x80 with hlt | hge
    · rw [List.flatMap_cons, Text.utf8EncodeChar_of_lt hlt, List.singleton_append, List.map_cons,
        List.map_cons]
      cases values with
      | nil => exact iff_of_false nofun nofun
      | cons d values =>
        obtain ⟨hd, hrest⟩ := List.forall_mem_cons.1 hvalues
        have hfirst := digit?_ascii_iff c.toNat hlt d hd
        rw [Char.ofNat_toNat] at hfirst
        rw [List.map_cons, List.map_cons, List.cons.injEq, List.cons.injEq, hfirst, ih hrest]
    · -- the first octet of the character is no digit, and neither is the character
      obtain ⟨b, rest, hoctets⟩ := List.exists_cons_of_ne_nil (@String.utf8EncodeChar_ne_nil c)
      have hb : digit? b = none :=
        digit?_of_le (Text.le_of_mem_utf8EncodeChar hge b (hoctets ▸ List.mem_cons_self))
      rw [List.flatMap_cons, hoctets, List.cons_append, List.map_cons, List.map_cons, hb]
      cases values with
      | nil => exact iff_of_false nofun nofun
      | cons d values =>
        refine iff_of_false nofun fun h => ?_
        exact lowerDigit_ne_of_le hge (hvalues d List.mem_cons_self) (List.cons.inj h).1

/-- The digits of bytes are those of their halves. -/
theorem flatMap_pair (bytes : List UInt8) :
    bytes.flatMap pair = (bytes.flatMap halves).map Nat.digitChar := by
  rw [List.map_flatMap]
  rfl

theorem forall_mem_flatMap_halves (bytes : List UInt8) : ∀ d ∈ bytes.flatMap halves, d < 16 := by
  intro d hd
  obtain ⟨b, -, hb⟩ := List.mem_flatMap.1 hd
  have hlt : b.toNat < 256 := b.toNat_lt
  rw [halves, List.mem_cons, List.mem_singleton] at hb
  omega

/-- **A text without marker spells bytes** if and only if, in lower case, it is what the bytes are
written as. -/
theorem ofDigits_eq_ok_iff {s : String} {bytes : List UInt8} :
    ofDigits s = .ok bytes ↔ lower s = encode bytes := by
  rw [ofDigits, ofOctets_eq_ok_iff, Text.utf8, map_digit?_iff (forall_mem_flatMap_halves bytes),
    ← flatMap_pair, lower, encode, String.ofList_inj]

/-- The marker is dropped, once. -/
@[simp] theorem dropMarker_marked (s : String) : dropMarker ("0x" ++ s) = s := by
  rw [dropMarker, String.toList_append]
  exact String.ofList_toList

/-- Nothing else is dropped. -/
theorem dropMarker_of_ne {s : String} (h : ∀ rest, s ≠ "0x" ++ rest) : dropMarker s = s := by
  unfold dropMarker
  split
  · next rest hmarked =>
    have hsame : s = "0x" ++ String.ofList rest := by
      rw [← String.toList_inj, hmarked, String.toList_append]
      exact congrArg ('0' :: 'x' :: ·) String.toList_ofList.symm
    exact absurd hsame (h _)
  · rfl

/-- **Reading undoes writing, up to case and one marker.**

* A text is read as some bytes if and only if, without its marker and in lower case, it is what the
  bytes are written as.
* So what bytes are written as is read as these bytes, with a marker or without. It never starts
  with a marker itself, and nothing of it is dropped.
* What is read is written again as the text in lower case, without its marker. -/
theorem decode_iff_encode :
    (∀ s bytes, decode s = .ok bytes ↔ lower (dropMarker s) = encode bytes) ∧
    (∀ bytes, decode (encode bytes) = .ok bytes ∧ decode ("0x" ++ encode bytes) = .ok bytes ∧
      (∀ rest, encode bytes ≠ "0x" ++ rest) ∧ dropMarker (encode bytes) = encode bytes) ∧
    ∀ s bytes, decode s = .ok bytes → encode bytes = lower (dropMarker s) := by
  have hread (s : String) (bytes : List UInt8) :
      decode s = .ok bytes ↔ lower (dropMarker s) = encode bytes := ofDigits_eq_ok_iff
  refine ⟨hread, fun bytes => ⟨decode_encode bytes, ?_, fun rest hmarked => ?_,
    dropMarker_encode bytes⟩, fun s bytes h => ((hread s bytes).1 h).symm⟩
  · rw [decode, dropMarker_marked, ofDigits_encode]
  · -- a marker in front would be dropped, and less would be left
    have hsame := dropMarker_encode bytes
    rw [hmarked, dropMarker_marked] at hsame
    have hlength := congrArg String.length hsame
    rw [String.length_append] at hlength
    exact absurd hlength (by simp)

/-- Both cases and a marker: the letters are read as they are written in lower case. -/
theorem decode_iff_encode_mixedCase :
    decode "0xaBCd" = .ok [0xab, 0xcd] ∧ encode [0xab, 0xcd] = "abcd" := by
  obtain ⟨hread, -, hwrite⟩ := decode_iff_encode
  have hdecode : decode "0xaBCd" = .ok [0xab, 0xcd] := (hread _ _).2 (by decide +kernel)
  exact ⟨hdecode, (hwrite _ _ hdecode).trans (by decide +kernel)⟩

/-! ### The first fault -/

/-- The characters that are digits, in both cases. -/
def digitChars : List Char :=
  ['0', '1', '2', '3', '4', '5', '6', '7', '8', '9', 'a', 'b', 'c', 'd', 'e', 'f',
    'A', 'B', 'C', 'D', 'E', 'F']

/-- **An octet is a digit**: it is the code point of a character that is one. -/
def IsDigit (b : UInt8) : Prop :=
  ∃ c ∈ digitChars, c.toNat = b.toNat

instance : DecidablePred IsDigit := fun b =>
  decidable_of_iff (digitChars.any fun c => c.toNat = b.toNat)
    (by simp only [IsDigit, List.any_eq_true, decide_eq_true_eq])

/-- Digits have a value, and other octets have none. -/
theorem isDigit_iff {b : UInt8} : IsDigit b ↔ (digit? b).isSome = true := by
  have hall : ∀ n < 256, IsDigit (UInt8.ofNat n) ↔ (digit? (UInt8.ofNat n)).isSome = true := by
    decide +kernel
  have hb := hall b.toNat b.toNat_lt
  rwa [UInt8.ofNat_toNat] at hb

theorem not_isDigit_iff {b : UInt8} : ¬IsDigit b ↔ (digit? b).isNone = true := by
  rw [isDigit_iff, Option.not_isSome_iff_eq_none, Option.isNone_iff_eq_none]

variable {octets : List UInt8}

/-- **An odd number of octets is refused** before any of them is looked at. -/
theorem ofOctets_eq_oddLength_iff :
    ofOctets octets = .error .oddLength ↔ octets.length % 2 = 1 := by
  rw [ofOctets]
  split
  · next hodd => exact iff_of_true rfl hodd
  · next heven =>
    refine iff_of_false (fun h => ?_) heven
    split at h
    · cases h
    · cases h

/-- The first octet that is no digit, with its position. -/
theorem find?_zipIdx_eq_some_iff {b : UInt8} {i : Nat} :
    (octets.zipIdx.find? fun (b, _) => (digit? b).isNone) = some (b, i) ↔
      octets[i]? = some b ∧ ¬IsDigit b ∧ ∀ j < i, ∀ x, octets[j]? = some x → IsDigit x := by
  rw [List.find?_eq_some_iff_getElem, not_isDigit_iff]
  constructor
  · rintro ⟨hb, k, hk, heq, hbefore⟩
    rw [List.length_zipIdx] at hk
    simp only [List.getElem_zipIdx, Nat.zero_add, Prod.mk.injEq] at heq
    obtain ⟨rfl, rfl⟩ := heq
    refine ⟨List.getElem?_eq_getElem hk, hb, fun j hj x hx => ?_⟩
    obtain ⟨hlt, rfl⟩ := List.getElem?_eq_some_iff.1 hx
    have hdigit := hbefore j hj
    simp only [List.getElem_zipIdx, Option.not_isNone] at hdigit
    exact isDigit_iff.2 hdigit
  · rintro ⟨hi, hb, hbefore⟩
    obtain ⟨hlt, heq⟩ := List.getElem?_eq_some_iff.1 hi
    refine ⟨hb, i, by rwa [List.length_zipIdx], ?_, fun j hj => ?_⟩
    · rw [List.getElem_zipIdx, heq, Nat.zero_add]
    · have hjlt : j < octets.length := Nat.lt_trans hj hlt
      simp only [List.getElem_zipIdx, Option.not_isNone]
      exact isDigit_iff.1 (hbefore j hj _ (List.getElem?_eq_getElem hjlt))

/-- **An even number of octets is refused** for the first one that is no digit. -/
theorem ofOctets_eq_invalidCharacter_iff {c : Char} {i : Nat} :
    ofOctets octets = .error (.invalidCharacter c i) ↔
      octets.length % 2 = 0 ∧ ∃ b, octets[i]? = some b ∧ ¬IsDigit b ∧ c.toNat = b.toNat ∧
        ∀ j < i, ∀ x, octets[j]? = some x → IsDigit x := by
  have hvalid (b : UInt8) : (Char.ofNat b.toNat).toNat = b.toNat := by
    rw [Char.ofNat, dif_pos (Or.inl (Nat.lt_trans b.toNat_lt (by decide)))]
    exact UInt32.toNat_ofNatLT ..
  rw [ofOctets]
  split
  · next hodd => exact iff_of_false (fun h => by cases h) fun h => by omega
  · next heven =>
    have heven' : octets.length % 2 = 0 := by omega
    cases hfind : octets.zipIdx.find? fun (b, _) => (digit? b).isNone with
    | none =>
      refine iff_of_false (fun h => by cases h) ?_
      rintro ⟨-, b, hi, hb, -, hbefore⟩
      rw [find?_zipIdx_eq_some_iff.2 ⟨hi, hb, hbefore⟩] at hfind
      cases hfind
    | some found =>
      obtain ⟨b, k⟩ := found
      obtain ⟨hk, hb, hbefore⟩ := find?_zipIdx_eq_some_iff.1 hfind
      simp only [Except.error.injEq, Fault.invalidCharacter.injEq]
      constructor
      · rintro ⟨rfl, rfl⟩
        exact ⟨heven', b, hk, hb, hvalid b, hbefore⟩
      · rintro ⟨-, b', hi, hb', hc, hbefore'⟩
        -- the least position is found by whoever looks for it
        have hsame := find?_zipIdx_eq_some_iff.2 ⟨hi, hb', hbefore'⟩
        rw [hfind] at hsame
        obtain ⟨rfl, rfl⟩ := Prod.mk.inj (Option.some.inj hsame)
        exact ⟨Char.toNat_inj.1 ((hvalid b).trans hc.symm), rfl⟩

/-- An even number of octets is refused if one of them is no digit. -/
theorem exists_fault_iff (heven : octets.length % 2 = 0) :
    (∃ fault, ofOctets octets = .error fault) ↔ ∃ b ∈ octets, ¬IsDigit b := by
  constructor
  · rintro ⟨fault, h⟩
    cases fault with
    | oddLength =>
      have hodd := ofOctets_eq_oddLength_iff.1 h
      omega
    | invalidCharacter c i =>
      obtain ⟨-, b, hi, hb, -⟩ := ofOctets_eq_invalidCharacter_iff.1 h
      exact ⟨b, List.mem_of_getElem? hi, hb⟩
  · rintro ⟨b, hb, hdigit⟩
    cases hread : ofOctets octets with
    | error fault => exact ⟨fault, rfl⟩
    | ok bytes =>
      -- octets that spell bytes are all digits
      have hvalue : digit? b ∈ (bytes.flatMap halves).map some :=
        ofOctets_eq_ok_iff.1 hread ▸ List.mem_map_of_mem hb
      obtain ⟨d, -, hd⟩ := List.mem_map.1 hvalue
      exact absurd (isDigit_iff.2 (by rw [← hd]; rfl)) hdigit

/-- **The first fault of a text** is told by its octets without the marker:

* One marker in front is dropped, and a text that has none is looked at as it is.
* There is an odd number of them if and only if this is the fault, whatever they are.
* If their number is even, the text is refused if and only if one of them is no digit.
* The fault is then the first octet that is no digit, at its position, together with the character
  that has it as its code point. All octets in front of it are digits.
* Of two markers the second one is left. Its `x` is no digit, at the position behind the zero. -/
theorem decode_first_fault (s : String) :
    (∀ rest, s = "0x" ++ rest → dropMarker s = rest) ∧
    ((∀ rest, s ≠ "0x" ++ rest) → dropMarker s = s) ∧
    (decode s = .error .oddLength ↔ (Text.utf8 (dropMarker s)).length % 2 = 1) ∧
    ((Text.utf8 (dropMarker s)).length % 2 = 0 →
      ((∃ fault, decode s = .error fault) ↔ ∃ b ∈ Text.utf8 (dropMarker s), ¬IsDigit b)) ∧
    (∀ c i, decode s = .error (.invalidCharacter c i) ↔
      (Text.utf8 (dropMarker s)).length % 2 = 0 ∧
        ∃ b, (Text.utf8 (dropMarker s))[i]? = some b ∧ ¬IsDigit b ∧ c.toNat = b.toNat ∧
          ∀ j < i, ∀ x, (Text.utf8 (dropMarker s))[j]? = some x → IsDigit x) ∧
    ∀ rest, s = "0x" ++ ("0x" ++ rest) → (Text.utf8 rest).length % 2 = 0 →
      decode s = .error (.invalidCharacter 'x' 1) := by
  refine ⟨?_, dropMarker_of_ne, ofOctets_eq_oddLength_iff, exists_fault_iff,
    fun c i => ofOctets_eq_invalidCharacter_iff, ?_⟩
  · rintro rest rfl
    exact dropMarker_marked rest
  rintro rest rfl heven
  have hoctets : Text.utf8 ("0x" ++ rest) = 0x30 :: 0x78 :: Text.utf8 rest := by
    rw [Text.utf8, String.toList_append, List.flatMap_append]
    rfl
  rw [decode, dropMarker_marked, ofDigits, hoctets, ofOctets_eq_invalidCharacter_iff]
  refine ⟨by simpa only [List.length_cons, Nat.add_assoc, Nat.add_mod_right] using heven,
    0x78, rfl, by decide, rfl, fun j hj x hx => ?_⟩
  obtain rfl : j = 0 := by omega
  obtain rfl := Option.some.inj hx
  decide

/-- A character of two octets is named by the first of them, and what is odd is not looked at. -/
theorem decode_first_fault_accented :
    dropMarker "0x0xé" = "0xé" ∧ decode "0xa1é" = .error (.invalidCharacter 'Ã' 2) ∧
      decode "0x0xé1" = .error .oddLength ∧
      decode "0x0xé" = .error (.invalidCharacter 'x' 1) := by
  obtain ⟨-, -, -, -, hfirst, -⟩ := decode_first_fault "0xa1é"
  obtain ⟨-, -, hodd, -⟩ := decode_first_fault "0x0xé1"
  obtain ⟨hmarker, -, -, -, -, hmarkers⟩ := decode_first_fault "0x0xé"
  refine ⟨hmarker "0xé" (by decide +kernel),
    (hfirst _ _).2 ⟨by decide +kernel, 0xc3, by decide +kernel, by decide, by decide, ?_⟩,
    hodd.2 (by decide +kernel), hmarkers "é" (by decide +kernel) (by decide +kernel)⟩
  intro j hj
  have hdigits : ∀ j < 2, ∀ x ∈ (Text.utf8 (dropMarker "0xa1é"))[j]?, IsDigit x := by
    decide +kernel
  exact hdigits j hj

end LinearMemory.Hex
