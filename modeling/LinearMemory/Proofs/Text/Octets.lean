import LinearMemory.Text.Basic

/-!
# The octets of a character

A character of ASCII has one octet, its code point. Any other has two octets or more, and none of
them is in ASCII (`Text.le_of_mem_utf8EncodeChar`). So an ASCII octet in a text always stands for a
character of its own, and texts may be read octet by octet wherever only ASCII has a meaning: hex
digits, quotes and escapes are found in this way.
-/

namespace LinearMemory.Text

/-- An octet that is made by adding to a remainder is at least what was added. -/
theorem le_toNat_mod_add {r k : Nat} (hr : 0 < r) (hk : 0x80 ≤ k) (hsum : r + k ≤ 256) (n : Nat) :
    0x80 ≤ (UInt8.ofNat (n % r + k)).toNat := by
  have hlt : n % r < r := Nat.mod_lt n hr
  rw [UInt8.toNat_ofNat']
  omega

/-- A character beyond ASCII has no octets in ASCII. -/
theorem le_of_mem_utf8EncodeChar {c : Char} (hc : 0x80 ≤ c.toNat) :
    ∀ b ∈ String.utf8EncodeChar c, 0x80 ≤ b.toNat := by
  have htail := @le_toNat_mod_add 64 0x80 (by decide) (by decide) (by decide)
  have hnot : ¬c.val.toNat ≤ 0x7f := Nat.not_le_of_lt hc
  intro b hb
  unfold String.utf8EncodeChar at hb
  simp only at hb
  rw [if_neg hnot] at hb
  -- two, three or four octets, of which all but the first are made in the same way
  split at hb
  · simp only [List.mem_cons, List.not_mem_nil, or_false] at hb
    rcases hb with rfl | rfl
    · exact le_toNat_mod_add (by decide) (by decide) (by decide) _
    · exact htail _
  split at hb
  · simp only [List.mem_cons, List.not_mem_nil, or_false] at hb
    rcases hb with rfl | rfl | rfl
    · exact le_toNat_mod_add (by decide) (by decide) (by decide) _
    · exact htail _
    · exact htail _
  · simp only [List.mem_cons, List.not_mem_nil, or_false] at hb
    rcases hb with rfl | rfl | rfl | rfl
    · exact le_toNat_mod_add (by decide) (by decide) (by decide) _
    · exact htail _
    · exact htail _
    · exact htail _

/-- An ASCII character has one octet. -/
@[simp] theorem utf8EncodeChar_of_lt {c : Char} (hc : c.toNat < 0x80) :
    String.utf8EncodeChar c = [UInt8.ofNat c.toNat] :=
  if_pos (Nat.le_of_lt_succ hc)

end LinearMemory.Text
