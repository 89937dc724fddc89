import LinearMemory.Proofs.Memory.Run

/-!
# What an offset means to a read

A read looks at the low 32 bits of its offset and takes them as a signed number. There are three
cases, and here they are told in unbounded numbers:

* from zero on, the number is the key that the value is looked up under;
* a negative number counts back from the end of the store, and lands on a key within it;
* a negative number may count back further than the store is long. The sum is then still negative,
  so as a word it is a key of `2 ^ 31` or more.

The last case is the one to watch. Writes are recorded under whole offsets, so something may well be
recorded under such a key. But a value there would have to start behind the end of every store that
the 32 bit arithmetic is made for, so there is nothing to read whatever was recorded.

* `Memory.PointsTo` is the first two cases, `Memory.PointsBelow` the third.
* `Memory.read_by_address` is the law of reads.
-/

namespace LinearMemory.Memory

variable {m : Memory}

/-! ### The sum that a read takes -/

/-- A word of 32 bits as a signed number. -/
theorem toInt_toInt32 (x : UInt32) :
    x.toInt32.toInt = if x.toNat < 2 ^ 31 then (x.toNat : Int) else x.toNat - 2 ^ 32 := by
  change x.toBitVec.toInt = _
  rw [BitVec.toInt_eq_toNat_cond]
  change (if 2 * x.toNat < 2 ^ 32 then (x.toNat : Int) else x.toNat - (2 ^ 32 : Nat)) = _
  split <;> split <;> omega

theorem normalize_of_lt {x : UInt32} (hx : x.toNat < 2 ^ 31) : m.normalize x = x :=
  if_pos (UInt32.lt_iff_toNat_lt.mpr hx)

/-- A negative offset is added to the length of the store. -/
theorem toNat_normalize_of_le (hsize : m.size < 2 ^ 31) {x : UInt32} (hx : 2 ^ 31 ≤ x.toNat) :
    (m.normalize x).toNat =
      if 2 ^ 32 ≤ m.size + x.toNat then m.size + x.toNat - 2 ^ 32 else m.size + x.toNat := by
  have hneg : ¬x < 0x80000000 := by
    intro hc
    exact absurd (UInt32.lt_iff_toNat_lt.mp hc) (Nat.not_lt_of_le hx)
  have hlt : x.toNat < 2 ^ 32 := x.toNat_lt
  have hsum : (m.normalize x).toNat = (m.size % 2 ^ 32 + x.toNat) % 2 ^ 32 := by
    rw [normalize, if_neg hneg, UInt32.toNat_add, UInt32.toNat_ofNat']
    rfl
  rw [hsum]
  split <;> omega

/-- **The sum does not wrap**: of a negative offset it is the length of the store plus the signed
number, whether that is still negative or not. -/
theorem toInt_normalize_of_le (hsize : m.size < 2 ^ 31) {x : UInt32} (hx : 2 ^ 31 ≤ x.toNat) :
    (m.normalize x).toInt32.toInt = m.size + x.toInt32.toInt := by
  have hlt : x.toNat < 2 ^ 32 := x.toNat_lt
  rw [toInt_toInt32, toInt_toInt32, toNat_normalize_of_le hsize hx]
  split <;> split <;> split <;> omega

/-! ### The three cases -/

/-- **An offset points to a key**: its low half is the key, or counts back to it from the end of the
store. -/
def PointsTo (m : Memory) (offset key : UInt64) : Prop :=
  (offset.toNat % 2 ^ 32 < 2 ^ 31 ∧ key.toNat = offset.toNat % 2 ^ 32) ∨
    ∃ k, 1 ≤ k ∧ k ≤ m.size ∧ offset.toNat % 2 ^ 32 = 2 ^ 32 - k ∧ key.toNat = m.size - k

/-- **An offset points below the store**: its low half counts back by more than the store is
long. -/
def PointsBelow (m : Memory) (offset : UInt64) (k : Nat) : Prop :=
  m.size < k ∧ k ≤ 2 ^ 31 ∧ offset.toNat % 2 ^ 32 = 2 ^ 32 - k

/-- An offset that points to a key is normalized to this key. -/
theorem PointsTo.normalize (hsize : m.size < 2 ^ 31) {offset key : UInt64}
    (h : m.PointsTo offset key) : (m.normalize offset.toUInt32).toUInt64 = key := by
  refine UInt64.toNat_inj.mp ?_
  rw [UInt32.toNat_toUInt64]
  have hlow : offset.toUInt32.toNat = offset.toNat % 2 ^ 32 := UInt64.toNat_toUInt32 offset
  rcases h with ⟨hlt, hkey⟩ | ⟨k, hpos, hle, heq, hkey⟩
  · rw [normalize_of_lt (hlow ▸ hlt), hlow, hkey]
  · rw [toNat_normalize_of_le hsize (by omega)]
    split <;> omega

theorem PointsTo.toNat_lt (hsize : m.size < 2 ^ 31) {offset key : UInt64}
    (h : m.PointsTo offset key) : key.toNat < 2 ^ 31 := by
  rcases h with ⟨hlt, hkey⟩ | ⟨k, hpos, hle, -, hkey⟩
  · omega
  · omega

theorem PointsBelow.toNat_normalize (hsize : m.size < 2 ^ 31) {offset : UInt64} {k : Nat}
    (h : m.PointsBelow offset k) :
    (m.normalize offset.toUInt32).toNat = 2 ^ 32 + m.size - k := by
  obtain ⟨hlt, hle, heq⟩ := h
  have hlow : offset.toUInt32.toNat = offset.toNat % 2 ^ 32 := UInt64.toNat_toUInt32 offset
  rw [toNat_normalize_of_le hsize (by omega)]
  split <;> omega

/-- An offset that does not count back by more than the store is long points to a key. -/
theorem exists_pointsTo {offset : UInt64}
    (h : -(m.size : Int) ≤ offset.toUInt32.toInt32.toInt) : ∃ key, m.PointsTo offset key := by
  have hlow : offset.toUInt32.toNat = offset.toNat % 2 ^ 32 := UInt64.toNat_toUInt32 offset
  have hcap : m.size < 2 ^ 63 := m.size_lt
  rw [toInt_toInt32, hlow] at h
  rcases Nat.lt_or_ge (offset.toNat % 2 ^ 32) (2 ^ 31) with hlt | hge
  · refine ⟨UInt64.ofNat (offset.toNat % 2 ^ 32), Or.inl ⟨hlt, ?_⟩⟩
    rw [UInt64.toNat_ofNat']
    omega
  · rw [if_neg (Nat.not_lt_of_le hge)] at h
    refine ⟨UInt64.ofNat (m.size - (2 ^ 32 - offset.toNat % 2 ^ 32)),
      Or.inr ⟨2 ^ 32 - offset.toNat % 2 ^ 32, ?_, ?_, ?_, ?_⟩⟩
    · omega
    · omega
    · omega
    · rw [UInt64.toNat_ofNat']
      omega

/-! ### Reading -/

@[simp] theorem length_bytes (m : Memory) (start stop : Nat) :
    (m.bytes start stop).length = min stop m.size - start := by
  rw [bytes, Array.length_toList, Array.size_extract]
  rfl

theorem getElem?_bytes (m : Memory) (start stop i : Nat) :
    (m.bytes start stop)[i]? = if start + i < stop then m.store[start + i]? else none := by
  rw [bytes, Array.getElem?_toList, Array.getElem?_extract]
  split
  · rw [if_pos (by omega)]
  · split
    · rw [Array.getElem?_eq_none (by omega)]
    · rfl

/-- A read finds what is recorded under the key that its offset points to. -/
theorem PointsTo.read?_eq_some_iff (hsize : m.size < 2 ^ 31) {offset key : UInt64}
    (h : m.PointsTo offset key) (value : List UInt8) :
    m.read? offset = some value ↔
      ∃ n, m.written? key = some n ∧ 0 < n ∧ key.toNat + n ≤ m.size ∧
        value = m.bytes key.toNat (key.toNat + n) := by
  have hnat : (m.normalize offset.toUInt32).toNat = key.toNat := by
    rw [← UInt32.toNat_toUInt64, h.normalize hsize]
  rw [Memory.read?_eq_some_iff, h.normalize hsize, hnat]
  rfl

/-- Where an offset points below the store there is nothing to read, whatever is recorded. -/
theorem PointsBelow.read?_eq_none (hsize : m.size < 2 ^ 31) {offset : UInt64} {k : Nat}
    (h : m.PointsBelow offset k) : m.read? offset = none := by
  rw [Option.eq_none_iff_forall_ne_some]
  intro value hvalue
  -- A value that is read stands within the store, and this key lies behind its end.
  obtain ⟨n, -, hpos, hle, -⟩ := (Memory.read?_eq_some_iff _ _ _).mp hvalue
  rw [h.toNat_normalize hsize] at hle
  have hlt : k ≤ 2 ^ 31 := h.2.1
  change _ ≤ m.size at hle
  omega

/-- **The law of reads.** On a store of less than `2 ^ 31` bytes, for every offset:

* if it points to a key, there is a value to read if and only if a positive length is recorded
  under the key and the store holds as many bytes from there on. The value is these bytes, so it is
  never empty, and the key is what the offset is normalized to;
* if it points below the store, there is nothing to read, and the offset is normalized to a word
  that is still negative;
* looking at a value finds what reading it finds;
* normalizing a negative offset adds it to the length of the store without wrapping;
* so normalizing an offset first makes no difference, as long as it does not point below the
  store. -/
theorem read_by_address (m : Memory) (hsize : m.size < 2 ^ 31) (offset : UInt64) :
    (∀ key, m.PointsTo offset key →
      (∀ value, m.read? offset = some value ↔
        ∃ n, m.written? key = some n ∧ 0 < n ∧ key.toNat + n ≤ m.size ∧
          value = m.bytes key.toNat (key.toNat + n)) ∧
      (∀ value, m.read? offset = some value → value ≠ []) ∧
      (m.normalize offset.toUInt32).toNat = key.toNat) ∧
    (∀ k, m.PointsBelow offset k →
      m.read? offset = none ∧
      (m.normalize offset.toUInt32).toNat = 2 ^ 32 + m.size - k ∧
      2 ^ 31 ≤ (m.normalize offset.toUInt32).toNat) ∧
    m.view? offset = m.read? offset ∧
    (2 ^ 31 ≤ offset.toNat % 2 ^ 32 →
      (m.normalize offset.toUInt32).toInt32.toInt = m.size + offset.toUInt32.toInt32.toInt) ∧
    (-(m.size : Int) ≤ offset.toUInt32.toInt32.toInt →
      m.read? offset = m.read? (m.normalize offset.toUInt32).toUInt64) := by
  refine ⟨?_, ?_, rfl, ?_, ?_⟩
  · intro key hkey
    refine ⟨hkey.read?_eq_some_iff hsize, ?_, ?_⟩
    · intro value hvalue
      obtain ⟨n, -, hpos, hle, rfl⟩ := (hkey.read?_eq_some_iff hsize value).mp hvalue
      refine List.ne_nil_of_length_pos ?_
      rw [length_bytes]
      omega
    · rw [← UInt32.toNat_toUInt64, hkey.normalize hsize]
  · intro k hk
    have hnorm := hk.toNat_normalize hsize
    have hlt : k ≤ 2 ^ 31 := hk.2.1
    exact ⟨hk.read?_eq_none hsize, hnorm, by omega⟩
  · intro hneg
    exact toInt_normalize_of_le hsize (by rwa [UInt64.toNat_toUInt32])
  · -- The normalized offset is a key below `2 ^ 31`, and such a key points to itself.
    intro hle
    obtain ⟨key, hkey⟩ := exists_pointsTo hle
    have hlt : key.toNat < 2 ^ 31 := hkey.toNat_lt hsize
    have hself : m.PointsTo key key := Or.inl ⟨by omega, by omega⟩
    rw [hkey.normalize hsize]
    ext value
    rw [hkey.read?_eq_some_iff hsize, hself.read?_eq_some_iff hsize]

/-- A store of four bytes, and a value recorded under the key `2 ^ 32 - 1`. -/
def Call.recordBeyond : List Call :=
  [.resize 4, .write 0 4 [1, 2, 3, 4], .write 0xffffffff 1 [7]]

/-- The law at work: counting back by four lands on the start of the store, also from a word with a
high half, and counting back by five lands on the key of the last record and finds nothing. -/
theorem read_by_address_recordBeyond :
    (Call.run .empty Call.recordBeyond).size < 2 ^ 31 ∧
      (Call.run .empty Call.recordBeyond).written? 0xffffffff = some 1 ∧
      (Call.run .empty Call.recordBeyond).read? 0x1fffffffc = some [1, 2, 3, 4] ∧
      ((Call.run .empty Call.recordBeyond).normalize 0xfffffffb).toNat = 0xffffffff ∧
      (Call.run .empty Call.recordBeyond).read? 0xfffffffb = none := by
  have hsize : (Call.run .empty Call.recordBeyond).size < 2 ^ 31 := by decide
  have hto : (Call.run .empty Call.recordBeyond).PointsTo 0x1fffffffc 0 :=
    Or.inr ⟨4, by decide, by decide, by decide, by decide⟩
  have hbelow : (Call.run .empty Call.recordBeyond).PointsBelow 0xfffffffb 5 :=
    ⟨by decide, by decide, by decide⟩
  have hread := ((read_by_address _ hsize 0x1fffffffc).1 0 hto).1 [1, 2, 3, 4]
  obtain ⟨hnone, hnorm, -⟩ := (read_by_address _ hsize 0xfffffffb).2.1 5 hbelow
  exact ⟨hsize, by decide, hread.mpr ⟨4, by decide, by decide, by decide, by decide⟩, hnorm, hnone⟩

end LinearMemory.Memory
