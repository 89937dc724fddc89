import LinearMemory.Proofs.Memory.Address
import LinearMemory.Proofs.Memory.Run

/-!
# A stored value stays

What a memory keeps under a key is a length in the index and as many bytes in the store, and no
operation but a write can change either. `Memory.Keeps` ties the two together. Bytes that the store
does not reach yet are taken for zeros, which is what growth will put there: so growth changes
nothing, and the same invariant speaks of values that were cut at the end of the store.

* `Memory.Entry.keeps` says what an accepted write of a whole value leaves behind.
* `Memory.Keeps.step` and `Memory.Keeps.run` say that it stays through all calls whose accepted
  writes keep apart from it, that is, neither have its key nor reach one of its bytes.
* `Memory.Keeps.read?_eq_some` says which offsets find it, at the size that the store has by then.
* `Memory.read_stable` is the three put together.
-/

namespace LinearMemory.Memory

/-! ### What a memory keeps -/

/-- **A memory keeps a value under a key**: it recorded the length, and the bytes stand from the key
on, zeros where the store does not reach. -/
def Keeps (m : Memory) (key : UInt64) (value : List UInt8) : Prop :=
  m.written? key = some value.length ∧
    ∀ j, j < value.length → value[j]? = some (m.byteAt (key.toNat + j))

/-- A write keeps apart from the `n` bytes under a key: it is not made there, and its range meets
none of them. -/
def Write.Apart (w : Write) (key : UInt64) (n : Nat) : Prop :=
  w.offset ≠ key ∧ ∀ j, j < n → ¬w.Spans (key.toNat + j)

instance (w : Write) (key : UInt64) (n : Nat) : Decidable (w.Apart key n) :=
  inferInstanceAs (Decidable (_ ∧ _))

/-- The value of an accepted write as it stands in the store: the bytes that the store of that time
had no room for are zeros. -/
def Entry.kept (e : Entry) : List UInt8 :=
  e.value.take (e.room - e.offset.toNat) ++
    List.replicate (e.value.length - (e.room - e.offset.toNat)) 0

variable {m next : Memory}

@[simp] theorem Entry.length_kept (e : Entry) : e.kept.length = e.value.length := by
  rw [kept, List.length_append, List.length_take, List.length_replicate]
  omega

/-- A value that the store had room for is kept as it is. -/
theorem Entry.kept_eq_value {e : Entry} (h : e.offset.toNat + e.value.length ≤ e.room) :
    e.kept = e.value := by
  have hle : e.value.length ≤ e.room - e.offset.toNat := by omega
  rw [kept, List.take_of_length_le hle, Nat.sub_eq_zero_of_le hle, List.replicate_zero,
    List.append_nil]

/-! ### Coming to be kept -/

/-- **An accepted write of a whole value** leaves the value kept, but for the bytes that there was
no room for. -/
theorem Entry.keeps {e : Entry} (hok : m.put e.toWrite = .ok next) (hroom : e.room = m.size)
    (hpos : e.size ≠ 0) (hwhole : e.value.length ≤ e.size.toNat) :
    next.Keeps e.offset e.kept := by
  have he : Entry.mk e.toWrite m.size = e := by rw [← hroom]
  have hspan : e.span = e.value.length := Nat.min_eq_right hwhole
  refine ⟨?_, ?_⟩
  · rw [written?_of_put hok, he, e.recordedAt?_self, e.length_kept, Write.recorded, if_neg hpos]
    rfl
  · intro j hj
    rw [e.length_kept] at hj
    rw [byteAt_of_put hok, he, kept, List.getElem?_append, List.length_take]
    rcases Nat.lt_or_ge (e.offset.toNat + j) e.room with hlt | hge
    · -- Within the store of that time the byte is the one that was put down.
      obtain ⟨b, hval, hb⟩ := exists_byte?_of_covers (e := e)
        ⟨⟨Nat.le_add_right e.offset.toNat j, by omega⟩, hlt⟩
      rw [Nat.add_sub_cancel_left] at hval
      rw [if_pos (by omega), List.getElem?_take_of_lt (by omega), hval, hb]
      rfl
    · -- Behind its end nothing was put down, and nothing had been there before.
      have hnot : ¬e.Covers (e.offset.toNat + j) := by
        intro hc
        exact absurd hc.2 (Nat.not_lt_of_le hge)
      rw [if_neg (by omega), List.getElem?_replicate, if_pos (by omega),
        byte?_of_not_covers hnot, byteAt_of_le (hroom ▸ hge)]
      rfl

/-- A write of size zero leaves the empty value kept. -/
theorem keeps_nil_of_put {w : Write} (hok : m.put w = .ok next) (hzero : w.size = 0) :
    next.Keeps w.offset [] := by
  refine ⟨?_, fun j hj => absurd hj (Nat.not_lt_zero j)⟩
  rw [written?_of_put hok, Entry.recordedAt?_self, Write.recorded, if_pos hzero]
  rfl

namespace Keeps

variable {key : UInt64} {value : List UInt8}

/-! ### Staying kept -/

/-- **One call**: what is kept stays kept, if the write that the call makes keeps apart from it. -/
theorem step (hk : m.Keeps key value) (call : Call)
    (hapart : ∀ e ∈ Call.accepted? m call, e.Apart key value.length) :
    (Call.perform m call).memory.Keeps key value := by
  obtain ⟨hlength, hbyte⟩ := hk
  rcases Call.perform_cases m call with ⟨size, hok, -⟩ | ⟨w, -, hok, hacc⟩ | ⟨hkeep, -⟩
  · -- Growth changes no byte, nor does it touch the index.
    constructor
    · rw [written?_of_resize hok, hlength]
    · intro j hj
      rw [byteAt_of_resize hok, hbyte j hj]
  · -- The write is neither made at the key nor does it put down a byte of the value.
    obtain ⟨hne, hspan⟩ := hapart _ hacc
    constructor
    · rw [written?_of_put hok, Entry.recordedAt?_of_ne hne, hlength]
      rfl
    · intro j hj
      rw [byteAt_of_put hok, Entry.byte?_of_not_spans (hspan j hj), hbyte j hj]
      rfl
  · rw [hkeep]
    exact ⟨hlength, hbyte⟩

/-- **Any run**: what is kept stays kept, if all the writes that the run makes keep apart from
it. -/
theorem run (hk : m.Keeps key value) (calls : List Call)
    (hapart : ∀ e ∈ Call.accepted m calls, e.Apart key value.length) :
    (Call.run m calls).Keeps key value := by
  induction calls generalizing m with
  | nil => exact hk
  | cons call rest ih =>
    rw [Call.accepted_cons] at hapart
    have hcall : (Call.perform m call).memory.Keeps key value := by
      refine hk.step call ?_
      intro e he
      exact hapart e (List.mem_append_left _ (Option.mem_toList.mpr he))
    refine ih hcall ?_
    intro e he
    exact hapart e (List.mem_append_right _ he)

/-! ### Being found -/

/-- **A kept value is read** through every offset that points to its key, once the store holds all
of it. -/
theorem read?_eq_some (hk : m.Keeps key value) (hsize : m.size < 2 ^ 31) (hpos : 0 < value.length)
    (hroom : key.toNat + value.length ≤ m.size) {offset : UInt64} (hto : m.PointsTo offset key) :
    m.read? offset = some value := by
  obtain ⟨hlength, hbyte⟩ := hk
  refine (hto.read?_eq_some_iff hsize value).mpr ⟨_, hlength, hpos, hroom, ?_⟩
  ext1 j
  rw [getElem?_bytes]
  rcases Nat.lt_or_ge j value.length with hj | hj
  · rw [if_pos (Nat.add_lt_add_left hj _), getElem?_store (by omega), hbyte j hj]
  · rw [if_neg (by omega), List.getElem?_eq_none hj]

/-- Where the empty value is kept there is nothing to read. -/
theorem read?_eq_none (hk : m.Keeps key []) (hsize : m.size < 2 ^ 31) {offset : UInt64}
    (hto : m.PointsTo offset key) : m.read? offset = none := by
  rw [Option.eq_none_iff_forall_ne_some]
  intro value hvalue
  obtain ⟨n, hn, hpos, -⟩ := (hto.read?_eq_some_iff hsize value).mp hvalue
  rw [hk.1] at hn
  cases hn
  exact absurd hpos (Nat.lt_irrefl 0)

end Keeps

/-- **A stored value stays.** Let a memory accept a write of a whole value that is not empty and
that its store has room for, and let any run of calls follow in which no accepted write is made at
the same offset or reaches a byte of the value. As long as the store stays below `2 ^ 31` bytes, the
value is read back as it was written: at its offset, at every offset with the same low half, and at
the negative offset that counts back to it from the end that the store has by then. -/
theorem read_stable (start m : Memory) (offset size : UInt64) (value : List UInt8)
    (later : List Call) (hwrite : start.tryWrite offset size value = .ok m)
    (hpos : 0 < value.length) (hwhole : value.length ≤ size.toNat)
    (hroom : offset.toNat + value.length ≤ start.size)
    (hapart : ∀ e ∈ Call.accepted m later, e.Apart offset value.length)
    (hsize : (Call.run m later).size < 2 ^ 31) :
    ∀ x : UInt64,
      x = offset ∨ (∃ j : Nat, x = UInt64.ofNat (offset.toNat + j * 2 ^ 32)) ∨
        x = UInt64.ofNat (2 ^ 32 - ((Call.run m later).size - offset.toNat)) →
      (Call.run m later).read? x = some value ∧ (Call.run m later).view? x = some value := by
  have hgrown : start.size ≤ (Call.run m later).size := by
    have hsame : m.size = start.size := size_of_put (w := ⟨offset, size, value⟩) hwrite
    exact hsame ▸ Call.size_le_run m later
  -- The value was kept as it is, and still is at the end of the run.
  have hkeeps : (Call.run m later).Keeps offset value := by
    have hne : size ≠ 0 := by
      rintro rfl
      rw [UInt64.toNat_zero] at hwhole
      omega
    have hkept := Entry.keeps (e := ⟨⟨offset, size, value⟩, start.size⟩) hwrite rfl hne hwhole
    rw [Entry.kept_eq_value hroom] at hkept
    exact hkept.run later hapart
  have hread : ∀ x, (Call.run m later).PointsTo x offset →
      (Call.run m later).read? x = some value ∧ (Call.run m later).view? x = some value := by
    intro x hto
    have hx := hkeeps.read?_eq_some hsize hpos (Nat.le_trans hroom hgrown) hto
    exact ⟨hx, hx⟩
  -- It remains to see that each of the offsets points to the key.
  rintro x (rfl | ⟨j, rfl⟩ | rfl)
  · exact hread _ (Or.inl ⟨by omega, by omega⟩)
  · refine hread _ (Or.inl ?_)
    rw [UInt64.toNat_ofNat']
    exact ⟨by omega, by omega⟩
  · refine hread _ (Or.inr ⟨(Call.run m later).size - offset.toNat, by omega, by omega, ?_, ?_⟩)
    · rw [UInt64.toNat_ofNat']
      omega
    · omega

/-- Growth, a rejected write at offset 4, and accepted writes right before and behind two bytes
there. -/
def Call.besideFour : List Call :=
  [.resize 16, .tryWrite 4 99 [3], .append [4, 5], .tryWrite 6 1 [6], .write 5 0 [7]]

/-- The law at work: through all this a value of two bytes at offset 4 stays, and is found from the
end of a store that doubled since. -/
theorem read_stable_besideFour :
    (Call.run .empty [.resize 8]).tryWrite 4 2 [1, 2] =
        .ok (Call.run .empty [.resize 8, .write 4 2 [1, 2]]) ∧
      (∀ e ∈ Call.accepted (Call.run .empty [.resize 8, .write 4 2 [1, 2]]) Call.besideFour,
        e.Apart 4 2) ∧
      (Call.run (Call.run .empty [.resize 8, .write 4 2 [1, 2]]) Call.besideFour).size = 16 ∧
      (Call.run (Call.run .empty [.resize 8, .write 4 2 [1, 2]]) Call.besideFour).read?
        0xfffffff4 = some [1, 2] := by
  have hwrite : (Call.run .empty [.resize 8]).tryWrite 4 2 [1, 2] =
      .ok (Call.run .empty [.resize 8, .write 4 2 [1, 2]]) := rfl
  have hapart : ∀ e ∈ Call.accepted (Call.run .empty [.resize 8, .write 4 2 [1, 2]])
      Call.besideFour, e.Apart 4 2 := by decide
  have hsize : (Call.run (Call.run .empty [.resize 8, .write 4 2 [1, 2]])
      Call.besideFour).size = 16 := by decide
  have hread := read_stable _ _ 4 2 [1, 2] Call.besideFour hwrite (by decide) (by decide)
    (by decide) hapart (by rw [hsize]; decide) 0xfffffff4
    (Or.inr (Or.inr (by rw [hsize]; decide)))
  exact ⟨hwrite, hapart, hsize, hread.1⟩

end LinearMemory.Memory
