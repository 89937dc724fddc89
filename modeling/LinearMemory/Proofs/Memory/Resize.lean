import LinearMemory.Proofs.Memory.Effect
import LinearMemory.Proofs.Memory.Growth

/-!
# What growth does to reads

Growth puts zeros behind the store and touches nothing else, and yet it changes what is read. A read
is answered from three things, the recorded length, the end of the store and the bytes, and growth
moves the second of them. So a read may fare in three ways:

* it found a value, and finds it again;
* it found nothing because the value reaches past the end, and now the store is long enough. What
  it finds is what there is of the value, with the zeros that growth put behind it;
* its offset counts back from the end, so it looks under another key than before.

A run of requests to grow is no more than one request for the greatest of the sizes
(`Memory.foldlM_resize_eq`), so it is enough to know what one does:
`Memory.Grown.lookup?_eq_some_iff` is about any two memories of which one is the other grown. The
result is `Memory.resizes_and_reads`.
-/

namespace LinearMemory.Memory

variable {m n l : Memory} {key : UInt64}

/-! ### A memory that is grown again -/

namespace Grown

theorem refl (m : Memory) : Grown m m :=
  ⟨Nat.le_refl _, rfl, fun _ => rfl, fun _ => rfl⟩

theorem trans (h : Grown m n) (h' : Grown n l) : Grown m l where
  size_le := Nat.le_trans h.size_le h'.size_le
  length := h.length.trans h'.length
  byte i := (h.byte i).trans (h'.byte i)
  written offset := (h.written offset).trans (h'.written offset)

/-- **A memory can be grown to a size in one way only.** -/
theorem unique (h : Grown m n) (h' : Grown m l) (hsize : n.size = l.size) : n = l :=
  eq_of_views hsize (h.length.symm.trans h'.length) (fun i => (h.byte i).symm.trans (h'.byte i))
    fun offset => (h.written offset).symm.trans (h'.written offset)

end Grown

/-- **One request to grow** below the capacity is granted. -/
theorem exists_resize_eq_ok (m : Memory) {size : UInt64} (hlt : size.toNat < capacity) :
    ∃ next, m.resize size = .ok next ∧ Grown m next ∧ next.size = max m.size size.toNat := by
  cases hr : m.resize size with
  | ok next => exact ⟨next, rfl, .of_resize hr, size_of_resize hr⟩
  | error cause => exact absurd hlt (Nat.not_lt_of_le ((resize_eq_error_iff _ _ _).mp hr).1)

/-- **A run of requests to grow** is granted, and the store gets the greatest of the sizes. -/
theorem exists_foldlM_resize {sizes : List UInt64} (hlt : ∀ size ∈ sizes, size.toNat < capacity)
    (m : Memory) :
    ∃ next, sizes.foldlM resize m = .ok next ∧ Grown m next ∧
      next.size = (sizes.map UInt64.toNat).foldl max m.size := by
  induction sizes generalizing m with
  | nil => exact ⟨m, rfl, .refl m, rfl⟩
  | cons size sizes ih =>
    obtain ⟨hsize, hsizes⟩ := List.forall_mem_cons.1 hlt
    obtain ⟨first, hfirst, hgrown, hfirstSize⟩ := m.exists_resize_eq_ok hsize
    obtain ⟨next, hnext, hgrown', hnextSize⟩ := ih hsizes first
    refine ⟨next, ?_, hgrown.trans hgrown', ?_⟩
    · rw [List.foldlM_cons, hfirst]
      exact hnext
    · rw [List.map_cons, List.foldl_cons, hnextSize, hfirstSize]

/-- **A run of requests to grow is one request** for the greatest of the sizes. -/
theorem foldlM_resize_eq {sizes : List UInt64} {most : UInt64} (hlt : most.toNat < capacity)
    (hmem : most ∈ sizes) (hmost : ∀ size ∈ sizes, size ≤ most) (m : Memory) :
    sizes.foldlM resize m = m.resize most := by
  have hle : ∀ size ∈ sizes, size.toNat ≤ most.toNat := fun size hsize =>
    UInt64.le_iff_toNat_le.mp (hmost size hsize)
  obtain ⟨next, hnext, hgrown, hsize⟩ :=
    exists_foldlM_resize (fun size hs => Nat.lt_of_le_of_lt (hle size hs) hlt) m
  obtain ⟨once, honce, hgrown', hsize'⟩ := m.exists_resize_eq_ok hlt
  obtain ⟨hfound, hbound⟩ := foldl_max_spec (sizes.map UInt64.toNat) m.size
  rw [← hsize] at hfound hbound
  have hsame : next.size = once.size := by
    have hstart : m.size ≤ next.size := hbound _ List.mem_cons_self
    have hgreatest : most.toNat ≤ next.size :=
      hbound _ (List.mem_cons_of_mem _ (List.mem_map_of_mem hmem))
    rw [hsize']
    rcases List.mem_cons.mp hfound with heq | hfound
    · omega
    · obtain ⟨size, hs, heq⟩ := List.mem_map.mp hfound
      have := hle size hs
      omega
  rw [hnext, honce, hgrown.unique hgrown' hsame]

/-! ### What is found in a memory that is grown -/

/-- The bytes of a range in a memory that is grown: those that were there, and zeros. -/
theorem Grown.bytes_eq (h : Grown m n) {start k : Nat} (hk : start + k ≤ n.size) :
    n.bytes start (start + k) =
      m.bytes start (start + k) ++ List.replicate (k - (m.size - start)) 0 := by
  refine List.ext_getElem? fun j => ?_
  rcases Nat.lt_or_ge j k with hj | hj
  · rw [getElem?_bytes_of_le hk hj, ← h.byte]
    rcases Nat.lt_or_ge (start + j) m.size with hlt | hge
    · have hold : j < (m.bytes start (start + k)).length := by
        rw [length_bytes]
        omega
      rw [List.getElem?_append_left hold, getElem?_bytes, if_pos (by omega), getElem?_store hlt]
    · -- behind the end of the old store
      have hold : (m.bytes start (start + k)).length ≤ j := by
        rw [length_bytes]
        omega
      rw [List.getElem?_append_right hold, byteAt_of_le hge, List.getElem?_replicate, if_pos]
      rw [length_bytes]
      omega
  · rw [List.getElem?_eq_none (by rwa [length_bytes_of_le hk]), List.getElem?_eq_none]
    rw [List.length_append, length_bytes, List.length_replicate]
    omega

/-- A range that reaches past the end of the store has the bytes up to the end. -/
theorem bytes_of_size_le {start stop : Nat} (hstop : m.size ≤ stop) :
    m.bytes start stop = m.bytes start m.size := by
  refine List.ext_getElem? fun j => ?_
  rw [getElem?_bytes, getElem?_bytes]
  rcases Nat.lt_or_ge (start + j) m.size with hlt | hge
  · rw [if_pos hlt, if_pos (by omega)]
  · rw [if_neg (Nat.not_lt_of_le hge), Array.getElem?_eq_none hge, ite_self]

/-- **What is found under a key in a memory that is grown**, told by the memory before it. -/
theorem Grown.lookup?_eq_some_iff (h : Grown m n) (value : List UInt8) :
    n.lookup? key = some value ↔
      ∃ k, m.written? key = some k ∧ 0 < k ∧ key.toNat + k ≤ n.size ∧
        value = m.bytes key.toNat (key.toNat + k) ++
          List.replicate (k - (m.size - key.toNat)) 0 := by
  rw [lookup?, ← h.written, Option.bind_eq_some_iff]
  refine exists_congr fun k => and_congr_right fun _ => ?_
  rw [Option.ite_none_right_eq_some, Option.some.injEq, and_assoc, eq_comm (b := value)]
  exact and_congr_right fun _ => and_congr_right fun hle => by rw [h.bytes_eq hle]

/-- What was found is found again. -/
theorem Grown.lookup?_of_some (h : Grown m n) {value : List UInt8}
    (hfound : m.lookup? key = some value) : n.lookup? key = some value := by
  obtain ⟨k, hk, hpos, hle, hvalue⟩ := ((Grown.refl m).lookup?_eq_some_iff value).mp hfound
  exact (h.lookup?_eq_some_iff value).mpr ⟨k, hk, hpos, Nat.le_trans hle h.size_le, hvalue⟩

/-- **What was not found is found** if it reached past the end and no longer does. -/
theorem Grown.lookup?_of_none (h : Grown m n) (hnone : m.lookup? key = none) (value : List UInt8) :
    n.lookup? key = some value ↔
      ∃ k, m.written? key = some k ∧ 0 < k ∧ m.size < key.toNat + k ∧ key.toNat + k ≤ n.size ∧
        value = m.bytes key.toNat m.size ++ List.replicate (k - (m.size - key.toNat)) 0 := by
  rw [h.lookup?_eq_some_iff]
  refine exists_congr fun k => and_congr_right fun hk => and_congr_right fun hpos => ?_
  have hend : m.size < key.toNat + k := by
    by_contra hle
    rw [Memory.lookup?_of_some hk, if_pos ⟨hpos, Nat.le_of_not_lt hle⟩] at hnone
    cases hnone
  rw [bytes_of_size_le (Nat.le_of_lt hend)]
  exact (and_iff_right hend).symm

/-- An offset that points to a key is read where the key is looked up. -/
theorem PointsTo.read?_eq (hsize : m.size < 2 ^ 31) {offset : UInt64} (h : m.PointsTo offset key) :
    m.read? offset = m.lookup? key := by
  rw [read?_eq_lookup?, keyOf, h.normalize hsize]

/-! ### The law -/

/-- **What growth does to reads.** Take a store of less than `2 ^ 31` bytes and any sizes below
that, at least one of them. Growing to one after the other, in any order, is growing once to the
greatest. Afterwards:

* the store is the old one, with as many zeros behind it as it was short of, and neither the logical
  length nor any recorded length has changed;
* at an offset that is not negative, a value that was read is read again. Where nothing was read
  there is a value if and only if a recorded length reached past the old end and does not reach past
  the new one. It has the old bytes up to the old end, and zeros behind them;
* an offset that counts back from the end, by no more than the old store was long, reads what stands
  by as much in front of the new end;
* looking at a value finds what reading it finds. -/
theorem resizes_and_reads (m : Memory) (sizes : List UInt64) (most : UInt64)
    (hsize : m.size < 2 ^ 31) (hsizes : ∀ size ∈ sizes, size.toNat < 2 ^ 31)
    (hmem : most ∈ sizes) (hmost : ∀ size ∈ sizes, size ≤ most) :
    ∃ next, m.resize most = .ok next ∧
      (∀ order : List UInt64, order.Perm sizes → order.foldlM resize m = .ok next) ∧
      next.store = m.store ++ Array.replicate (most.toNat - m.size) 0 ∧
      next.length = m.length ∧ (∀ offset, next.written? offset = m.written? offset) ∧
      (∀ offset key : UInt64, key.toNat < 2 ^ 31 → offset.toNat % 2 ^ 32 = key.toNat →
        (∀ value, m.read? offset = some value → next.read? offset = some value) ∧
        (m.read? offset = none → ∀ value, next.read? offset = some value ↔
          ∃ k, m.written? key = some k ∧ 0 < k ∧ m.size < key.toNat + k ∧
            key.toNat + k ≤ max m.size most.toNat ∧
            value = m.bytes key.toNat m.size ++ List.replicate (k - (m.size - key.toNat)) 0)) ∧
      (∀ (offset other : UInt64) (k : Nat), 1 ≤ k → k ≤ m.size →
        offset.toNat % 2 ^ 32 = 2 ^ 32 - k → other.toNat = max m.size most.toNat - k →
        next.read? offset = next.read? other) ∧
      ∀ offset, next.view? offset = next.read? offset := by
  have hlt : most.toNat < 2 ^ 31 := hsizes most hmem
  have hcap : most.toNat < capacity := Nat.lt_trans hlt (by decide)
  obtain ⟨next, hok, hgrown, hnext⟩ := m.exists_resize_eq_ok hcap
  have hnextLt : next.size < 2 ^ 31 := by omega
  refine ⟨next, hok, fun order horder => ?_, (resize_ok hok).1, length_of_resize hok,
    written?_of_resize hok, fun offset key hkey hoffset => ?_,
    fun offset other k hpos hk hoffset hother => ?_, fun _ => rfl⟩
  · rw [foldlM_resize_eq hcap (horder.mem_iff.mpr hmem)
      (fun size hs => hmost size (horder.mem_iff.mp hs)), hok]
  · -- Such an offset points to the same key before and after.
    have hold : m.PointsTo offset key := Or.inl ⟨by omega, hoffset.symm⟩
    have hnew : next.PointsTo offset key := Or.inl ⟨by omega, hoffset.symm⟩
    rw [hold.read?_eq hsize, hnew.read?_eq hnextLt, ← hnext]
    exact ⟨fun value => hgrown.lookup?_of_some, hgrown.lookup?_of_none⟩
  · have hback : next.PointsTo offset other :=
      Or.inr ⟨k, hpos, Nat.le_trans hk hgrown.size_le, hoffset, by rw [hother, hnext]⟩
    have hself : next.PointsTo other other := Or.inl ⟨by omega, by omega⟩
    rw [hback.read?_eq hnextLt, hself.read?_eq hnextLt]

/-- A store of four bytes with a value at its start, one that was cut in its middle, and one behind
the end. -/
def Call.threeValues : List Call :=
  [.resize 4, .write 0 1 [7], .write 2 4 [1, 2, 3, 4], .write 5 1 [9]]

/-- The law at work: the first value is kept, the second comes with two zeros, and counting back by
three now leads to the third, of which nothing was kept but its length. -/
theorem resizes_and_reads_threeValues :
    (Call.run .empty Call.threeValues).size = 4 ∧
      (Call.run .empty Call.threeValues).read? 2 = none ∧
      ∃ next, [6, 8, 3].foldlM resize (Call.run .empty Call.threeValues) = .ok next ∧
        next.read? 0 = some [7] ∧ next.read? 2 = some [1, 2, 0, 0] ∧
        next.read? 0xfffffffd = some [0] := by
  have hsize : (Call.run .empty Call.threeValues).size = 4 := by decide
  have hnone : (Call.run .empty Call.threeValues).read? 2 = none := by decide
  obtain ⟨next, -, hany, -, -, -, hread, hback, -⟩ :=
    resizes_and_reads (Call.run .empty Call.threeValues) [8, 6, 3] 8 (by rw [hsize]; decide)
      (by simp only [List.forall_mem_cons]; exact ⟨by decide, by decide, by decide, nofun⟩)
      (by decide)
      (by simp only [List.forall_mem_cons]; exact ⟨by decide, by decide, by decide, nofun⟩)
  have hat (key : UInt64) (hkey : key.toNat < 2 ^ 31) := hread key key hkey (by omega)
  refine ⟨hsize, hnone, next, hany [6, 8, 3] (by decide), ?_, ?_, ?_⟩
  · exact (hat 0 (by decide)).1 [7] (by decide)
  · exact ((hat 2 (by decide)).2 hnone _).mpr
      ⟨4, by decide, by decide, by decide, by decide, by decide⟩
  · rw [hback 0xfffffffd 5 3 (by decide) (by decide) (by decide) (by decide)]
    exact ((hat 5 (by decide)).2 (by decide) _).mpr
      ⟨1, by decide, by decide, by decide, by decide, by decide⟩

end LinearMemory.Memory
