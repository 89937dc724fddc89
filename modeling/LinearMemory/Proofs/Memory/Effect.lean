import LinearMemory.Proofs.Memory.Address

/-!
# What a write does to reads

A read resolves its offset to a key, and the key is all that the read depends on. A write leaves the
length of the store alone and with it the key of every offset, so it is told key by key what a write
does to reads:

* under the key of the write there is a value to read afterwards if the write recorded a length and
  the store holds as many bytes from there on. The value begins with what the write put down, and
  goes on with what stood there before, for the recorded length is that of the whole value;
* under any other key the recorded length stays, and so does whether there is a value to read. The
  value may lie in the range of the write, in part or as a whole, and is then overwritten there.

A key has 32 bits. A write at an offset beyond is recorded where no read looks, and puts down
nothing either on a store that ends below its offset.

* `Memory.lookup?` is what a read finds under a key.
* `Memory.lookup?_of_put_self` and `Memory.lookup?_of_put_of_ne` are the two cases.
* `Memory.read_after_write` is the law, `Memory.read_after_append` what it means for appends.
-/

namespace LinearMemory.Memory

/-! ### What is found under a key -/

/-- **The key that a read resolves an offset to**: its normalized low half. -/
def keyOf (m : Memory) (offset : UInt64) : UInt64 :=
  (m.normalize offset.toUInt32).toUInt64

/-- **What is found under a key**: as many bytes as were recorded, if there are any and the store
holds them all. -/
def lookup? (m : Memory) (key : UInt64) : Option (List UInt8) :=
  (m.written? key).bind fun n =>
    if 0 < n ∧ key.toNat + n ≤ m.size then some (m.bytes key.toNat (key.toNat + n)) else none

variable {m next : Memory} {key : UInt64}

/-- A read finds what is found under its key. -/
theorem read?_eq_lookup? (m : Memory) (offset : UInt64) :
    m.read? offset = m.lookup? (m.keyOf offset) := by
  ext value
  rw [Memory.read?_eq_some_iff, lookup?, Option.bind_eq_some_iff]
  refine exists_congr fun n => and_congr_right fun _ => ?_
  rw [keyOf, UInt32.toNat_toUInt64, Option.ite_none_right_eq_some, Option.some.injEq, and_assoc,
    eq_comm (a := value)]
  rfl

theorem toNat_keyOf_lt (m : Memory) (offset : UInt64) : (m.keyOf offset).toNat < 2 ^ 32 := by
  rw [keyOf, UInt32.toNat_toUInt64]
  exact UInt32.toNat_lt _

/-- An offset that is not negative is its own key. -/
theorem keyOf_of_lt (m : Memory) {offset : UInt64} (hlow : offset.toNat < 2 ^ 31) :
    m.keyOf offset = offset := by
  have hlow32 : offset.toUInt32.toNat = offset.toNat % 2 ^ 32 := UInt64.toNat_toUInt32 offset
  refine UInt64.toNat_inj.mp ?_
  rw [keyOf, UInt32.toNat_toUInt64, normalize_of_lt (by omega)]
  omega

/-- The key of an offset depends on the length of the store alone. -/
theorem keyOf_of_size_eq (hsize : next.size = m.size) (offset : UInt64) :
    next.keyOf offset = m.keyOf offset := by
  have hstore : next.store.size = m.store.size := hsize
  rw [keyOf, keyOf, normalize, normalize, hstore]

theorem lookup?_of_none (h : m.written? key = none) : m.lookup? key = none := by
  rw [lookup?, h, Option.bind_none]

theorem lookup?_of_some {n : Nat} (h : m.written? key = some n) :
    m.lookup? key =
      if 0 < n ∧ key.toNat + n ≤ m.size then some (m.bytes key.toNat (key.toNat + n))
      else none := by
  rw [lookup?, h, Option.bind_some]

/-- Under a key behind the end of the store nothing is found, whatever is recorded. -/
theorem lookup?_of_size_le (h : m.size ≤ key.toNat) : m.lookup? key = none := by
  rcases hn : m.written? key with _ | n
  · exact lookup?_of_none hn
  · rw [lookup?_of_some hn, if_neg (by omega)]

/-- What is found under a key depends on the store and on what is recorded under this key. -/
theorem lookup?_congr (hstore : next.store = m.store)
    (hwritten : next.written? key = m.written? key) : next.lookup? key = m.lookup? key := by
  unfold lookup? Memory.size bytes
  rw [hstore, hwritten]

/-! ### The bytes under a write -/

/-- **Bytes with a write laid over them**, which stand in the store from a position on. -/
def Write.overlay (w : Write) (start : Nat) (old : List UInt8) : List UInt8 :=
  old.mapIdx fun j b =>
    if w.Spans (start + j) then (w.value[start + j - w.offset.toNat]?).getD b else b

section Put

variable {w : Write}

@[simp] theorem Write.length_overlay (w : Write) (start : Nat) (old : List UInt8) :
    (w.overlay start old).length = old.length :=
  List.length_mapIdx

/-- Within the range of the write stand its bytes, elsewhere the old ones. -/
theorem Write.getElem?_overlay (w : Write) (start : Nat) (old : List UInt8) {j : Nat}
    (hj : j < old.length) :
    (w.overlay start old)[j]? =
      if w.Spans (start + j) then w.value[start + j - w.offset.toNat]? else old[j]? := by
  rw [overlay, List.getElem?_mapIdx, List.getElem?_eq_getElem hj, Option.map_some]
  split
  · next hs =>
    obtain ⟨hle, hlt⟩ := hs
    have hspan : w.span ≤ w.value.length := Nat.min_le_right ..
    rw [List.getElem?_eq_getElem (by omega), Option.getD_some]
  · rfl

theorem getElem?_bytes_of_le {start n i : Nat} (hn : start + n ≤ m.size) (hi : i < n) :
    (m.bytes start (start + n))[i]? = some (m.byteAt (start + i)) := by
  rw [getElem?_bytes, if_pos (by omega), getElem?_store (by omega)]

@[simp] theorem length_bytes_of_le {start n : Nat} (hn : start + n ≤ m.size) :
    (m.bytes start (start + n)).length = n := by
  rw [length_bytes]
  omega

/-- The byte at a position of the store, in the range of the write or not. -/
theorem some_byteAt_of_put (hok : m.put w = .ok next) {i : Nat} (hi : i < m.size) :
    some (next.byteAt i) =
      if w.Spans i then w.value[i - w.offset.toNat]? else some (m.byteAt i) := by
  rw [byteAt_of_put hok]
  split
  · next hs =>
    obtain ⟨b, hval, hb⟩ := Entry.exists_byte?_of_covers (e := ⟨w, m.size⟩) ⟨hs, hi⟩
    rw [hb, hval, Option.getD_some]
  · next hs => rw [Entry.byte?_of_not_spans hs, Option.getD_none]

/-- **The bytes of a range after a write** are the old ones with the write laid over them. -/
theorem bytes_of_put (hok : m.put w = .ok next) {start n : Nat} (hn : start + n ≤ m.size) :
    next.bytes start (start + n) = w.overlay start (m.bytes start (start + n)) := by
  have hn' : start + n ≤ next.size := by rwa [size_of_put hok]
  refine List.ext_getElem? fun j => ?_
  rcases Nat.lt_or_ge j n with hj | hj
  · rw [getElem?_bytes_of_le hn' hj, w.getElem?_overlay _ _ (by rwa [length_bytes_of_le hn]),
      getElem?_bytes_of_le hn hj, some_byteAt_of_put hok (by omega)]
  · rw [List.getElem?_eq_none (by rwa [length_bytes_of_le hn']),
      List.getElem?_eq_none (by rwa [w.length_overlay, length_bytes_of_le hn])]

/-- **The bytes from the offset of a write on**: what was put down comes first, and behind it what
stood there before. -/
theorem bytes_of_put_self (hok : m.put w = .ok next)
    (hroom : w.offset.toNat + w.value.length ≤ m.size) :
    next.bytes w.offset.toNat (w.offset.toNat + w.value.length) =
      w.value.take w.span ++
        m.bytes (w.offset.toNat + w.span) (w.offset.toNat + w.value.length) := by
  have hspan : w.span ≤ w.value.length := Nat.min_le_right ..
  have htake : (w.value.take w.span).length = w.span := by
    rw [List.length_take, Nat.min_eq_left hspan]
  rw [bytes_of_put hok hroom]
  refine List.ext_getElem? fun j => ?_
  rcases Nat.lt_or_ge j w.value.length with hj | hj
  · rw [w.getElem?_overlay _ _ (by rwa [length_bytes_of_le hroom]), getElem?_bytes_of_le hroom hj]
    rcases Nat.lt_or_ge j w.span with hlt | hge
    · rw [if_pos ⟨by omega, by omega⟩, Nat.add_sub_cancel_left,
        List.getElem?_append_left (by rwa [htake]), List.getElem?_take_of_lt hlt]
    · have hnot : ¬w.Spans (w.offset.toNat + j) := fun hs => by
        have := hs.2
        omega
      rw [if_neg hnot, List.getElem?_append_right (by rwa [htake]), htake, getElem?_bytes,
        if_pos (by omega), getElem?_store (by omega)]
      congr 2
      omega
  · rw [List.getElem?_eq_none (by rwa [w.length_overlay, length_bytes_of_le hroom]),
      List.getElem?_eq_none]
    rw [List.length_append, htake, length_bytes]
    omega

/-! ### One write, key by key -/

/-- **Under its own key** a write is found with as many bytes as its value has, if it recorded any
and the store holds as many. -/
theorem lookup?_of_put_self (hok : m.put w = .ok next) :
    next.lookup? w.offset =
      if w.size ≠ 0 ∧ w.value ≠ [] ∧ w.offset.toNat + w.value.length ≤ m.size then
        some (w.value.take w.span ++
          m.bytes (w.offset.toNat + w.span) (w.offset.toNat + w.value.length))
      else none := by
  have hwritten : next.written? w.offset = some w.recorded := by
    rw [written?_of_put hok]
    exact congrArg (Option.or · _) (Entry.recordedAt?_self ⟨w, m.size⟩)
  rw [lookup?_of_some hwritten, Write.recorded, size_of_put hok]
  rcases eq_or_ne w.size 0 with hzero | hpos
  · rw [if_pos hzero, if_neg (fun h => Nat.lt_irrefl 0 h.1), if_neg (fun h => h.1 hzero)]
  · rw [if_neg hpos]
    split
    · next h =>
      rw [if_pos ⟨hpos, List.length_pos_iff.mp h.1, h.2⟩, bytes_of_put_self hok h.2]
    · next h =>
      rw [if_neg]
      rintro ⟨-, hvalue, hroom⟩
      exact h ⟨List.length_pos_iff.mpr hvalue, hroom⟩

/-- Under any other key the same length is recorded. -/
theorem written?_of_put_of_ne (hok : m.put w = .ok next) (hne : key ≠ w.offset) :
    next.written? key = m.written? key := by
  rw [written?_of_put hok, Entry.recordedAt?_of_ne (Ne.symm hne), Option.none_or]

/-- **Under any other key** whatever was found is found again, with the write laid over it. -/
theorem lookup?_of_put_of_ne (hok : m.put w = .ok next) (hne : key ≠ w.offset) :
    next.lookup? key = (m.lookup? key).map (w.overlay key.toNat) := by
  have hwritten := written?_of_put_of_ne hok hne
  rcases hn : m.written? key with _ | n
  · rw [lookup?_of_none hn, lookup?_of_none (hwritten.trans hn), Option.map_none]
  · rw [lookup?_of_some hn, lookup?_of_some (hwritten.trans hn), size_of_put hok]
    split
    · next h => rw [bytes_of_put hok h.2, Option.map_some]
    · rfl

/-- Where the range of a write starts behind the end, nothing is put down. -/
theorem store_of_put_of_size_le (hok : m.put w = .ok next) (hend : m.size ≤ w.offset.toNat) :
    next.store = m.store := by
  refine Array.ext_getElem? fun i => ?_
  rcases Nat.lt_or_ge i m.size with hi | hi
  · have hnot : ¬w.Spans i := fun hs => by
      have := hs.1
      omega
    have hbyte := some_byteAt_of_put hok hi
    rw [if_neg hnot] at hbyte
    rw [getElem?_store (by rwa [size_of_put hok]), getElem?_store hi, hbyte]
  · have hi' : next.size ≤ i := by rwa [size_of_put hok]
    rw [Array.getElem?_eq_none hi, Array.getElem?_eq_none hi']

end Put

/-! ### The laws -/

/-- **What one write does to every read.** After a write that was accepted, on any memory:

* an offset whose key is the offset of the write finds the first bytes of the value, as many as the
  size allows, and behind them what stood there before, up to the length of the value. It finds
  nothing if the size is zero, if the value is empty, or if the store does not hold as many bytes;
* an offset with another key finds something if and only if it did before, and then as many bytes.
  They are the old ones, but for the positions that the write put a byte at;
* no key is `2 ^ 32` or more, so a write at such an offset is under the key of no read;
* no length is recorded but at the offset of the write, and neither the length of the store nor the
  key of any offset changes. -/
theorem read_after_write (m next : Memory) (offset size : UInt64) (value : List UInt8)
    (hwrite : m.tryWrite offset size value = .ok next) :
    (∀ x, m.keyOf x = offset →
      next.read? x =
        if size ≠ 0 ∧ value ≠ [] ∧ offset.toNat + value.length ≤ m.size then
          some (value.take (min size.toNat value.length) ++
            m.bytes (offset.toNat + min size.toNat value.length) (offset.toNat + value.length))
        else none) ∧
    (∀ x, m.keyOf x ≠ offset →
      (next.read? x = none ↔ m.read? x = none) ∧
      ∀ old, m.read? x = some old → ∃ new, next.read? x = some new ∧ new.length = old.length ∧
        ∀ j, j < old.length →
          new[j]? =
            if offset.toNat ≤ (m.keyOf x).toNat + j ∧
                (m.keyOf x).toNat + j < offset.toNat + min size.toNat value.length
            then value[(m.keyOf x).toNat + j - offset.toNat]? else old[j]?) ∧
    (2 ^ 32 ≤ offset.toNat → ∀ x, m.keyOf x ≠ offset) ∧
    (∀ o, o ≠ offset → next.written? o = m.written? o) ∧
    next.size = m.size ∧ ∀ x, next.keyOf x = m.keyOf x := by
  have hok : m.put ⟨offset, size, value⟩ = .ok next := hwrite
  have hkey := keyOf_of_size_eq (size_of_put hok)
  refine ⟨fun x hx => ?_, fun x hx => ?_, fun hhigh x hx => ?_,
    fun o ho => written?_of_put_of_ne hok ho, size_of_put hok, hkey⟩
  · rw [read?_eq_lookup?, hkey, hx]
    exact lookup?_of_put_self hok
  · have hread : next.read? x =
        (m.read? x).map (Write.overlay ⟨offset, size, value⟩ (m.keyOf x).toNat) := by
      rw [read?_eq_lookup?, read?_eq_lookup?, hkey]
      exact lookup?_of_put_of_ne hok hx
    rw [hread, Option.map_eq_none_iff]
    refine ⟨Iff.rfl, ?_⟩
    rintro old hold
    rw [hold]
    exact ⟨_, rfl, Write.length_overlay .., fun j hj => Write.getElem?_overlay _ _ _ hj⟩
  · have hlt := m.toNat_keyOf_lt x
    rw [hx] at hlt
    omega

/-- A store of eight bytes with a value of four bytes at offset 2. -/
def Call.fourAtTwo : List Call := [.resize 8, .write 2 4 [1, 2, 3, 4]]

/-- The law at work: a write at offset 4 whose size is less than the length of its value. Read back
it goes on with a byte that stood there before, and the value at offset 2 is overwritten in its
second half, also when it is read from the end of the store. -/
theorem read_after_write_fourAtTwo :
    (Call.run .empty Call.fourAtTwo).tryWrite 4 1 [8, 9] =
        .ok (Call.run .empty (Call.fourAtTwo ++ [.write 4 1 [8, 9]])) ∧
      (Call.run .empty (Call.fourAtTwo ++ [.write 4 1 [8, 9]])).read? 4 = some [8, 4] ∧
      (Call.run .empty (Call.fourAtTwo ++ [.write 4 1 [8, 9]])).read? 0xfffffffa =
        some [1, 2, 8, 4] := by
  have hwrite : (Call.run .empty Call.fourAtTwo).tryWrite 4 1 [8, 9] =
      .ok (Call.run .empty (Call.fourAtTwo ++ [.write 4 1 [8, 9]])) := rfl
  obtain ⟨hself, hother, -⟩ := read_after_write _ _ 4 1 [8, 9] hwrite
  refine ⟨hwrite, (hself 4 (by decide)).trans (by decide), ?_⟩
  obtain ⟨-, hold⟩ := hother 0xfffffffa (by decide)
  obtain ⟨new, hnew, hlength, hbyte⟩ := hold [1, 2, 3, 4] (by decide)
  rw [hnew]
  refine congrArg some (List.ext_getElem? fun j => ?_)
  rcases Nat.lt_or_ge j 4 with hj | hj
  · rw [hbyte j hj]
    revert j
    decide
  · rw [List.getElem?_eq_none (hlength ▸ hj), List.getElem?_eq_none hj]

/-- An append is accepted as a write of the whole value at the logical length, whichever of the two
calls makes it. -/
theorem put_of_append {value : List UInt8} {offset : UInt64}
    (h : m.tryAppend value = .ok (offset, next) ∨ m.append value = .ok (offset, next)) :
    offset = m.length ∧ m.put ⟨m.length, UInt64.ofNat value.length, value⟩ = .ok next := by
  refine (tryAppend_eq_ok_iff m next value offset).mp ?_
  rcases h with h | h
  · exact h
  · exact (append_eq_ok_iff m value _).mp h

/-- **Where an append is read back.** An append that is accepted on a store of less than `2 ^ 31`
bytes goes to the logical length, and this is not tied to the store. For a value that is not empty
there are three regions:

* within the store, the value is read back as it is;
* past the end of the store, but at an offset that is not negative, there is nothing to read;
* from `2 ^ 31` on, no read finds the append: the store is as it was, and every read of any offset
  finds what it found before, the offset of the append among them. -/
theorem read_after_append (m next : Memory) (value : List UInt8) (offset : UInt64)
    (happend : m.tryAppend value = .ok (offset, next) ∨ m.append value = .ok (offset, next))
    (hvalue : value ≠ []) (hsize : m.size < 2 ^ 31) :
    (offset.toNat + value.length ≤ m.size → next.read? offset = some value) ∧
    (offset.toNat < 2 ^ 31 → m.size < offset.toNat + value.length →
      next.read? offset = none) ∧
    (2 ^ 31 ≤ offset.toNat →
      next.store = m.store ∧ next.read? offset = m.read? offset ∧
        ∀ x, next.read? x = m.read? x) := by
  obtain ⟨rfl, hok⟩ := put_of_append happend
  have hkey := keyOf_of_size_eq (size_of_put hok)
  refine ⟨fun hroom => ?_, fun hlow hend => ?_, fun hhigh => ?_⟩
  · have hpos : 0 < value.length := List.length_pos_iff.mpr hvalue
    have hnat : (UInt64.ofNat value.length).toNat = value.length := by
      rw [UInt64.toNat_ofNat', Nat.mod_eq_of_lt (by omega)]
    have hne : UInt64.ofNat value.length ≠ 0 := by
      intro hzero
      rw [hzero, UInt64.toNat_zero] at hnat
      omega
    -- The size of the write is the length of the value, so nothing of what stood there is left.
    have hspan : Write.span ⟨m.length, UInt64.ofNat value.length, value⟩ = value.length := by
      rw [Write.span, hnat, Nat.min_self]
    rw [read?_eq_lookup?, keyOf_of_lt _ (by omega)]
    refine (lookup?_of_put_self hok).trans ?_
    have hrest : m.bytes (m.length.toNat + value.length) (m.length.toNat + value.length) = [] := by
      refine List.eq_nil_of_length_eq_zero ?_
      rw [length_bytes]
      omega
    rw [if_pos ⟨hne, hvalue, hroom⟩, hspan, List.take_length, hrest, List.append_nil]
  · rw [read?_eq_lookup?, keyOf_of_lt _ hlow]
    refine (lookup?_of_put_self hok).trans (if_neg ?_)
    rintro ⟨-, -, hroom⟩
    exact absurd hend (Nat.not_lt_of_le hroom)
  · have hstore := store_of_put_of_size_le hok (Nat.le_trans (Nat.le_of_lt hsize) hhigh)
    have hall : ∀ x, next.read? x = m.read? x := by
      intro x
      rw [read?_eq_lookup?, read?_eq_lookup?, hkey]
      rcases eq_or_ne (m.keyOf x) m.length with heq | hne
      · -- Under the key of the append nothing is found: it lies behind the end of the store.
        rw [heq, lookup?_of_size_le (by rw [size_of_put hok]; omega), lookup?_of_size_le (by omega)]
      · exact lookup?_congr hstore (written?_of_put_of_ne hok hne)
    exact ⟨hstore, hall _, hall⟩

/-- A memory of four bytes with a value at offset 0, its logical length at `2 ^ 32`. -/
def wrapped : Memory :=
  { Call.run .empty [.resize 4, .write 0 2 [5, 6]] with length := 0x100000000 }

/-- The law at work in the last of the three regions: what is read at the offset of the append is
the value at offset 0, as it was before. -/
theorem read_after_append_wrapped :
    wrapped.tryAppend [7] =
        .ok (0x100000000, (Call.perform wrapped (.tryAppend [7])).memory) ∧
      wrapped.size < 2 ^ 31 ∧
      (Call.perform wrapped (.tryAppend [7])).memory.store = #[5, 6, 0, 0] ∧
      (Call.perform wrapped (.tryAppend [7])).memory.read? 0x100000000 = some [5, 6] := by
  have happend : wrapped.tryAppend [7] =
      .ok (0x100000000, (Call.perform wrapped (.tryAppend [7])).memory) := rfl
  have hsize : wrapped.size < 2 ^ 31 := by decide
  obtain ⟨-, -, hfar⟩ := read_after_append _ _ [7] 0x100000000 (Or.inl happend) (by decide) hsize
  obtain ⟨hstore, hread, -⟩ := hfar (by decide)
  exact ⟨happend, hsize, hstore.trans (by decide), hread.trans (by decide)⟩

end LinearMemory.Memory
