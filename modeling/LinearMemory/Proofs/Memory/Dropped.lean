import LinearMemory.Proofs.Memory.Stability

/-!
# Bytes that were dropped

A write is accepted on its size alone, so its value may reach past the end of the store. The bytes
that there is no room for are dropped, and yet the whole length is recorded. Nothing is read of such
a value as long as the store does not hold as many bytes. Growth may change that, and what it puts
in the place of the dropped bytes are zeros.

So a value that was cut is not always read as it was written, `Memory.not_read_as_written`. It is
read as it was kept, `Memory.Entry.kept`, or not at all, whatever happens elsewhere in the store:
`Memory.read_as_kept`. Whoever grows the store before a write, as is asked of every caller, has the
value kept as it is.
-/

namespace LinearMemory.Memory

variable {m : Memory} {key : UInt64} {value : List UInt8}

/-- A kept value is not read while the store does not hold all of it. -/
theorem Keeps.read?_eq_none_of_lt (hk : m.Keeps key value) (hsize : m.size < 2 ^ 31)
    (hend : m.size < key.toNat + value.length) {offset : UInt64} (hto : m.PointsTo offset key) :
    m.read? offset = none := by
  rw [Option.eq_none_iff_forall_ne_some]
  intro found hfound
  obtain ⟨n, hn, -, hle, -⟩ := (hto.read?_eq_some_iff hsize found).mp hfound
  rw [hk.1] at hn
  cases hn
  exact absurd hend (Nat.not_lt_of_le hle)

/-- **A kept value is read, or nothing is**, according to whether the store holds all of it. -/
theorem Keeps.read?_eq (hk : m.Keeps key value) (hsize : m.size < 2 ^ 31)
    (hpos : 0 < value.length) {offset : UInt64} (hto : m.PointsTo offset key) :
    m.read? offset = if key.toNat + value.length ≤ m.size then some value else none := by
  split
  · next hroom => exact hk.read?_eq_some hsize hpos hroom hto
  · next hroom => exact hk.read?_eq_none_of_lt hsize (Nat.lt_of_not_le hroom) hto

/-- **A value may be read back other than it was written.** Four bytes go to offset 2 of a store of
four, which keeps two of them; once the store has eight, these two are read with two zeros. -/
theorem not_read_as_written :
    ¬∀ (before later : List Call) (m : Memory) (offset size : UInt64) (value : List UInt8),
      (Call.run .empty before).tryWrite offset size value = .ok m →
      0 < value.length → value.length ≤ size.toNat → offset.toNat < 2 ^ 31 →
      (∀ e ∈ Call.accepted m later, e.Apart offset value.length) →
      (Call.run m later).size < 2 ^ 31 →
      (Call.run m later).read? offset = none ∨ (Call.run m later).read? offset = some value := by
  intro h
  have hread := h [.resize 4] [.resize 8] (Call.run .empty [.resize 4, .write 2 4 [1, 2, 3, 4]])
    2 4 [1, 2, 3, 4] rfl (by decide) (by decide) (by decide) (by decide) (by decide)
  revert hread
  decide

/-- **A value is read as it was kept, or not at all.** Let a memory accept a write of a whole value
that is not empty, at an offset that is not negative, and let any run of calls follow in which no
accepted write is made at the same offset or reaches a byte of the value. As long as the store stays
below `2 ^ 31` bytes:

* what is read at the offset is nothing, or it is the value with zeros for the bytes that the store
  had no room for at the time of the write;
* it is the latter once the store has grown to hold as many bytes, and not before;
* if there was room for the whole value, it is nothing or the value itself. -/
theorem read_as_kept (start m : Memory) (offset size : UInt64) (value : List UInt8)
    (later : List Call) (hwrite : start.tryWrite offset size value = .ok m)
    (hpos : 0 < value.length) (hwhole : value.length ≤ size.toNat)
    (hlow : offset.toNat < 2 ^ 31)
    (hapart : ∀ e ∈ Call.accepted m later, e.Apart offset value.length)
    (hsize : (Call.run m later).size < 2 ^ 31) :
    ((Call.run m later).read? offset = none ∨
      (Call.run m later).read? offset =
        some (value.take (start.size - offset.toNat) ++
          List.replicate (value.length - (start.size - offset.toNat)) 0)) ∧
    ((Call.run m later).read? offset = none ↔
      (Call.run m later).size < offset.toNat + value.length) ∧
    (offset.toNat + value.length ≤ start.size →
      (Call.run m later).read? offset = none ∨ (Call.run m later).read? offset = some value) ∧
    (Call.run m later).view? offset = (Call.run m later).read? offset := by
  have hne : size ≠ 0 := by
    rintro rfl
    rw [UInt64.toNat_zero] at hwhole
    omega
  -- The value is kept with zeros from the write on, and still is at the end of the run.
  have hkept := Entry.keeps (e := ⟨⟨offset, size, value⟩, start.size⟩) hwrite rfl hne hwhole
  have hlength : (Entry.kept ⟨⟨offset, size, value⟩, start.size⟩).length = value.length :=
    Entry.length_kept _
  have hkeeps : (Call.run m later).Keeps offset
      (Entry.kept ⟨⟨offset, size, value⟩, start.size⟩) := by
    refine hkept.run later ?_
    rwa [hlength]
  have hto : (Call.run m later).PointsTo offset offset := Or.inl ⟨by omega, by omega⟩
  have hread := hkeeps.read?_eq hsize (by rwa [hlength]) hto
  rw [hlength] at hread
  have hcases : (Call.run m later).read? offset = none ∨
      (Call.run m later).read? offset =
        some (Entry.kept ⟨⟨offset, size, value⟩, start.size⟩) := by
    rw [hread]
    split
    · exact Or.inr rfl
    · exact Or.inl rfl
  refine ⟨hcases, ?_, fun hroom => ?_, rfl⟩
  · rw [hread, ite_eq_right_iff]
    simp only [reduceCtorEq, imp_false, Nat.not_le]
  · rwa [Entry.kept_eq_value hroom] at hcases

/-- A write behind the end of the store, an empty one within the range of four bytes at offset 2,
and growth that makes room for these. -/
def Call.roomForFour : List Call := [.tryWrite 20 1 [9], .write 4 0 [], .resize 8]

/-- The law at work on a value that was cut in its middle. -/
theorem read_as_kept_roomForFour :
    (Call.run .empty [.resize 4]).tryWrite 2 4 [1, 2, 3, 4] =
        .ok (Call.run .empty [.resize 4, .write 2 4 [1, 2, 3, 4]]) ∧
      (∀ e ∈ Call.accepted (Call.run .empty [.resize 4, .write 2 4 [1, 2, 3, 4]])
        Call.roomForFour, e.Apart 2 4) ∧
      (Call.run (Call.run .empty [.resize 4, .write 2 4 [1, 2, 3, 4]]) Call.roomForFour).size = 8 ∧
      (Call.run (Call.run .empty [.resize 4, .write 2 4 [1, 2, 3, 4]]) Call.roomForFour).read? 2 =
        some [1, 2, 0, 0] := by
  have hwrite : (Call.run .empty [.resize 4]).tryWrite 2 4 [1, 2, 3, 4] =
      .ok (Call.run .empty [.resize 4, .write 2 4 [1, 2, 3, 4]]) := rfl
  have hapart : ∀ e ∈ Call.accepted (Call.run .empty [.resize 4, .write 2 4 [1, 2, 3, 4]])
      Call.roomForFour, e.Apart 2 4 := by decide
  have hsize : (Call.run (Call.run .empty [.resize 4, .write 2 4 [1, 2, 3, 4]])
      Call.roomForFour).size = 8 := by decide
  obtain ⟨hread, hnone, -⟩ := read_as_kept _ _ 2 4 [1, 2, 3, 4] Call.roomForFour hwrite (by decide)
    (by decide) (by decide) hapart (by rw [hsize]; decide)
  refine ⟨hwrite, hapart, hsize, hread.resolve_left ?_⟩
  rw [hnone, hsize]
  decide

end LinearMemory.Memory
