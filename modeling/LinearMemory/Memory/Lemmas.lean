import LinearMemory.Memory.Basic
import LinearMemory.Proofs.Except
import Mathlib.Algebra.Order.Ring.Int

/-!
# What the operations do

One equation for each operation and each thing that can be seen of a memory: the bytes of its store,
its logical length and the lengths it recorded. Statements about runs of operations are derived from
these, without looking at the definitions again.

* `Memory.window_start` and `Memory.window_stop` say that the arithmetic in words has the value that
  it would have in unbounded numbers.
* `Memory.getElem?_overwrite` says which byte stands where after a value was put into the store.
* `Memory.tryWrite_eq_error_iff` says when a write is rejected, and `Memory.tryWrite_ok` gathers
  what an accepted one does.
* `Memory.events_resizing` and `Memory.events_writing` say what is told of growth and of a write.
-/

namespace LinearMemory.Memory

/-! ### Words -/

/-- The sum of two words is their sum in numbers, capped at the greatest word. -/
@[simp] theorem toNat_addSaturating (a b : UInt64) :
    (addSaturating a b).toNat = min (a.toNat + b.toNat) (2 ^ 64 - 1) := by
  have ha := a.toNat_lt
  have hb := b.toNat_lt
  have hsum : (a + b).toNat = (a.toNat + b.toNat) % 2 ^ 64 := UInt64.toNat_add a b
  have hmax : (0xffffffffffffffff : UInt64).toNat = 2 ^ 64 - 1 := rfl
  unfold addSaturating
  split
  · next h =>
    rw [UInt64.lt_iff_toNat_lt] at h
    omega
  · next h =>
    rw [UInt64.lt_iff_toNat_lt] at h
    omega

/-- The lesser of two words is the lesser number. -/
@[simp] theorem toNat_min (a b : UInt64) : (min a b).toNat = min a.toNat b.toNat := by
  change (if a ≤ b then a else b).toNat = min a.toNat b.toNat
  split
  · next h =>
    rw [UInt64.le_iff_toNat_le] at h
    omega
  · next h =>
    rw [UInt64.le_iff_toNat_le] at h
    omega

/-- The length of a store is a word. -/
theorem toNat_ofNat_size (m : Memory) : (UInt64.ofNat m.store.size).toNat = m.store.size := by
  have h : m.store.size < 2 ^ 63 := m.size_lt
  rw [UInt64.toNat_ofNat']
  omega

@[simp] theorem window_start (m : Memory) (offset size : UInt64) :
    (m.window offset size).start = min offset.toNat m.store.size := by
  simp only [window, toNat_min, toNat_ofNat_size]

@[simp] theorem window_stop (m : Memory) (offset size : UInt64) :
    (m.window offset size).stop = min (offset.toNat + size.toNat) m.store.size := by
  have h : m.store.size < 2 ^ 63 := m.size_lt
  simp only [window, toNat_min, toNat_ofNat_size, toNat_addSaturating]
  omega

/-! ### The store -/

/-- **What stands where** after a value was put into an array. -/
theorem getElem?_overwrite (store : Array UInt8) (start : Nat) (value : List UInt8) (i : Nat) :
    (overwrite store start value)[i]? =
      if start ≤ i ∧ i < start + value.length ∧ i < store.size then value[i - start]?
      else store[i]? := by
  induction value generalizing store start with
  | nil =>
    rw [overwrite, if_neg]
    simp only [List.length_nil]
    omega
  | cons b rest ih =>
    rw [overwrite, ih, Array.size_setIfInBounds, Array.getElem?_setIfInBounds, List.length_cons]
    by_cases hi : start = i
    · subst hi
      simp only [Nat.sub_self, List.getElem?_cons_zero]
      grind
    · grind

@[simp] theorem resize_eq_error_iff (m : Memory) (size : UInt64) (cause : Fatal) :
    m.resize size = .error cause ↔ capacity ≤ size.toNat ∧ cause = .capacityOverflow := by
  have h := m.size_lt
  unfold resize resizing
  split <;> grind

/-- Growth that takes place stays below the capacity. -/
theorem lt_capacity_of_resize {m next : Memory} {size : UInt64} (h : m.resize size = .ok next) :
    size.toNat < capacity := by
  refine Nat.lt_of_not_le fun hle => ?_
  rw [(resize_eq_error_iff m size .capacityOverflow).mpr ⟨hle, rfl⟩] at h
  cases h

/-- What growth does: the store is followed by zeros, all else stays. -/
theorem resize_ok {m next : Memory} {size : UInt64} (h : m.resize size = .ok next) :
    next.store = m.store ++ Array.replicate (size.toNat - m.store.size) 0 ∧
      next.length = m.length ∧ next.index = m.index := by
  unfold resize resizing at h
  split at h
  · split at h
    · cases h
      exact ⟨rfl, rfl, rfl⟩
    · cases h
  · next hle =>
    cases h
    rw [Nat.sub_eq_zero_of_le (Nat.le_of_not_lt hle)]
    simp

/-! ### Writing -/

/-- **When a write is rejected**: its size exceeds the store, whatever else it brings. -/
@[simp] theorem tryWrite_eq_error_iff (m : Memory) (offset size : UInt64) (value : List UInt8)
    (rejection : Rejection) :
    m.tryWrite offset size value = .error rejection ↔
      m.store.size < size.toNat ∧ rejection = ⟨size, m.store.size⟩ := by
  unfold tryWrite writing
  split <;> grind

/-- **What an accepted write does** to each thing that can be seen of a memory. -/
theorem tryWrite_ok {m next : Memory} {offset size : UInt64} {value : List UInt8}
    (h : m.tryWrite offset size value = .ok next) :
    (∀ i, next.store[i]? =
        if offset.toNat ≤ i ∧ i < offset.toNat + min size.toNat value.length ∧ i < m.store.size
        then value[i - offset.toNat]? else m.store[i]?) ∧
      next.store.size = m.store.size ∧
      next.length = m.length + (if size = 0 then 1 else size) ∧
      ∀ o, next.written? o =
        if o = offset then some (if size = 0 then 0 else value.length) else m.written? o := by
  unfold tryWrite writing at h
  split at h
  · cases h
  split at h
  · next hzero =>
    cases h
    subst hzero
    refine ⟨fun i => ?_, rfl, rfl, fun o => ?_⟩
    · rw [if_neg]
      simp only [UInt64.toNat_zero, Nat.zero_min]
      omega
    · simp only [written?, Std.ExtTreeMap.getElem?_insert, Std.LawfulEqCmp.compare_eq_iff_eq,
        eq_comm (a := o)]
      rfl
  · next hpos =>
    cases h
    refine ⟨fun i => ?_, size_overwrite .., ?_, fun o => ?_⟩
    · simp only [getElem?_overwrite, window_start, window_stop, List.length_take]
      grind
    · rw [if_neg hpos]
    · simp only [written?, Std.ExtTreeMap.getElem?_insert, Std.LawfulEqCmp.compare_eq_iff_eq,
        eq_comm (a := o), if_neg hpos]

/-- An append that must succeed does what the append it stands for does. -/
@[simp] theorem append_eq_ok_iff (m : Memory) (value : List UInt8) (went : UInt64 × Memory) :
    m.append value = .ok went ↔ m.tryAppend value = .ok went :=
  mapError_eq_ok_iff

/-- An append is a write at the logical length. -/
@[simp] theorem tryAppend_eq_ok_iff (m next : Memory) (value : List UInt8) (offset : UInt64) :
    m.tryAppend value = .ok (offset, next) ↔
      offset = m.length ∧ m.tryWrite m.length (UInt64.ofNat value.length) value = .ok next := by
  change (m.tryWrite m.length (UInt64.ofNat value.length) value).map (fun next =>
    (m.length, next)) = _ ↔ _
  cases m.tryWrite m.length (UInt64.ofNat value.length) value <;>
    simp [Except.map, eq_comm (a := offset)]

/-! ### What is told -/

/-- Growth is told of, whether it takes place or not, unless the store is as long already. -/
@[simp] theorem events_resizing (m : Memory) (size : UInt64) :
    (m.resizing size).events =
      if m.store.size < size.toNat then [.growth m.store.size size] else [] := by
  unfold resizing
  split <;> rfl

/-- **A write is told of by one event**, an acceptance or a rejection. -/
@[simp] theorem events_writing (m : Memory) (offset size : UInt64) (value : List UInt8) :
    (m.writing offset size value).events =
      if m.store.size < size.toNat then [.rejection size m.store.size]
      else [.acceptance offset size value.length] := by
  unfold writing
  split <;> rfl

/-! ### Reading -/

/-- **When there is a value to read**: some bytes were recorded where the offset points to, and the
store still holds as many from there on. -/
theorem read?_eq_some_iff (m : Memory) (offset : UInt64) (value : List UInt8) :
    m.read? offset = some value ↔
      ∃ n, m.written? (m.normalize offset.toUInt32).toUInt64 = some n ∧ 0 < n ∧
        (m.normalize offset.toUInt32).toNat + n ≤ m.store.size ∧
        value = m.bytes (m.normalize offset.toUInt32).toNat
          ((m.normalize offset.toUInt32).toNat + n) := by
  simp only [read?, view?, extent?, UInt32.toNat_toUInt64]
  cases m.written? (m.normalize offset.toUInt32).toUInt64 <;> grind

end LinearMemory.Memory
