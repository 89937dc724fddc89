import LinearMemory.Proofs.Memory.Address
import LinearMemory.Proofs.Memory.History

/-!
# Growing early

Whoever writes is to grow the store first, and may do so step by step or once and for all. As long
as every write ends within the store of its moment the two come to the same. A longer store would
make a difference to a write that is cut at the end, or rejected, and these are the ones that the
contract rules out.

The two memories that are compared have stores of different lengths at every moment but the last.
`Memory.Grown` says that all else that can be seen of them is the same; bytes behind the end of the
shorter store are zeros in the longer one, which is what growth will put there.

* `Memory.Grown.step` and `Memory.Grown.run` say that it stays so, the second memory being spared
  the requests to grow.
* `Memory.run_grown_first` is what follows for the whole run, and for what is answered on the way.

Negative offsets count back from the end of the store, so reads through these are another matter.
-/

namespace LinearMemory.Memory

/-! ### A memory that is grown -/

/-- **The second memory is the first one grown**: its store may be longer, and all else that can be
seen of the two is the same. -/
structure Grown (m n : Memory) : Prop where
  /-- The store is as long, or longer. -/
  size_le : m.size ≤ n.size
  /-- The logical length is the same. -/
  length : m.length = n.length
  /-- Each byte is the same, zero where the store does not reach. -/
  byte : ∀ i, m.byteAt i = n.byteAt i
  /-- Each recorded length is the same. -/
  written : ∀ offset, m.written? offset = n.written? offset

/-- **A write fits into a store** of this size: it ends within the store, or it is empty. -/
def Write.Fits (w : Write) (size : Nat) : Prop :=
  w.size = 0 ∨ w.offset.toNat + w.size.toNat ≤ size

instance (w : Write) (size : Nat) : Decidable (w.Fits size) :=
  inferInstanceAs (Decidable (_ ∨ _))

/-- The size of a write that fits is within the store. -/
theorem Write.Fits.size_le {w : Write} {size : Nat} (h : w.Fits size) : w.size.toNat ≤ size := by
  rcases h with hzero | hle
  · rw [hzero]
    exact Nat.zero_le size
  · omega

/-- The range of a write that fits is within the store. -/
theorem Write.Fits.lt_of_spans {w : Write} {size i : Nat} (h : w.Fits size) (hi : w.Spans i) :
    i < size := by
  obtain ⟨hle, hlt⟩ := hi
  have hspan : w.span ≤ w.size.toNat := Nat.min_le_left ..
  rcases h with hzero | hend
  · rw [hzero, UInt64.toNat_zero] at hspan
    omega
  · omega

/-- **What a write puts down does not depend on the store** that it fits into. -/
theorem Write.Fits.byte?_eq {w : Write} {size size' : Nat} (h : w.Fits size) (hle : size ≤ size')
    (i : Nat) : (Entry.mk w size').byte? i = (Entry.mk w size).byte? i := by
  by_cases hi : w.Spans i
  · have hlt := h.lt_of_spans hi
    have hcovers : (Entry.mk w size).Covers i := ⟨hi, hlt⟩
    have hcovers' : (Entry.mk w size').Covers i := ⟨hi, Nat.lt_of_lt_of_le hlt hle⟩
    rw [Entry.byte?, Entry.byte?, if_pos hcovers, if_pos hcovers']
  · simp [hi]

namespace Grown

variable {m n m' n' : Memory} {call : Call} {size : UInt64}

theorem of_resize (hok : m.resize size = .ok n) : Grown m n where
  size_le := by
    rw [size_of_resize hok]
    exact Nat.le_max_left ..
  length := (length_of_resize hok).symm
  byte i := (byteAt_of_resize hok i).symm
  written offset := (written?_of_resize hok offset).symm

/-- Growth that the second memory is ahead of. -/
theorem grow (h : Grown m n) (hok : m.resize size = .ok m') (hle : size.toNat ≤ n.size) :
    Grown m' n where
  size_le := by
    rw [size_of_resize hok]
    exact Nat.max_le.mpr ⟨h.size_le, hle⟩
  length := (length_of_resize hok).trans h.length
  byte i := (byteAt_of_resize hok i).trans (h.byte i)
  written offset := (written?_of_resize hok offset).trans (h.written offset)

/-- A write that fits into the shorter store does the same in both. -/
theorem put (h : Grown m n) {w : Write} (hfits : w.Fits m.size) (hm : m.put w = .ok m')
    (hn : n.put w = .ok n') : Grown m' n' where
  size_le := by
    rw [size_of_put hm, size_of_put hn]
    exact h.size_le
  length := by rw [length_of_put hm, length_of_put hn, h.length]
  byte i := by
    rw [byteAt_of_put hm, byteAt_of_put hn, hfits.byte?_eq h.size_le, h.byte i]
  written offset := by
    rw [written?_of_put hm, written?_of_put hn, h.written offset]
    rfl

/-- **One call** that is no request to grow: if its write fits into the shorter store, the second
memory is still the first one grown. -/
theorem step (h : Grown m n) (hg : call.growth? = none)
    (hfits : ∀ w ∈ call.write? m.length, w.Fits m.size) :
    Grown (Call.perform m call).memory (Call.perform n call).memory := by
  cases hw : call.write? m.length with
  | some w =>
    have hfit : w.Fits m.size := hfits w hw
    have hle : w.size.toNat ≤ m.size := hfit.size_le
    -- Within the shorter store is within the longer one, so both accept the write.
    rcases Call.perform_write hw with ⟨-, hm, -⟩ | ⟨hlt, -, -⟩
    · rcases Call.perform_write (h.length ▸ hw) with ⟨-, hn, -⟩ | ⟨hlt, -, -⟩
      · exact h.put hfit hm hn
      · exact absurd (Nat.le_trans hle h.size_le) (Nat.not_le_of_lt hlt)
    · exact absurd hle (Nat.not_le_of_lt hlt)
  | none =>
    rw [Call.memory_perform_eq_self hg hw, Call.memory_perform_eq_self hg (h.length ▸ hw)]
    exact h

/-- **What is read of the first memory is read of the second**, at offsets that are not negative. -/
theorem read? (h : Grown m n) (hsize : n.size < 2 ^ 31) {offset : UInt64}
    (hlow : offset.toNat % 2 ^ 32 < 2 ^ 31) {value : List UInt8}
    (hread : m.read? offset = some value) : n.read? offset = some value := by
  have hkey : (UInt64.ofNat (offset.toNat % 2 ^ 32)).toNat = offset.toNat % 2 ^ 32 := by
    rw [UInt64.toNat_ofNat']
    omega
  have hm : m.PointsTo offset (UInt64.ofNat (offset.toNat % 2 ^ 32)) := Or.inl ⟨hlow, hkey⟩
  have hn : n.PointsTo offset (UInt64.ofNat (offset.toNat % 2 ^ 32)) := Or.inl ⟨hlow, hkey⟩
  obtain ⟨k, hk, hpos, hle, rfl⟩ :=
    (hm.read?_eq_some_iff (Nat.lt_of_le_of_lt h.size_le hsize) value).mp hread
  refine (hn.read?_eq_some_iff hsize _).mpr
    ⟨k, (h.written _).symm.trans hk, hpos, Nat.le_trans hle h.size_le, ?_⟩
  -- The bytes lie within both stores.
  ext1 j
  rw [getElem?_bytes, getElem?_bytes]
  rcases Nat.lt_or_ge j k with hj | hj
  · rw [if_pos (Nat.add_lt_add_left hj _), if_pos (Nat.add_lt_add_left hj _),
      getElem?_store (by omega), getElem?_store (by have := h.size_le; omega), h.byte]
  · rw [if_neg (by omega), if_neg (by omega)]

/-- Two memories of one size are the same. -/
theorem eq (h : Grown m n) (hle : n.size ≤ m.size) : m = n :=
  eq_of_views (Nat.le_antisymm h.size_le hle) h.length h.byte h.written

end Grown

/-! ### Runs without their requests to grow -/

namespace Call

/-- **Every write of a run fits** into the store of its moment. An append is a write at the logical
length. -/
def WritesFit (m : Memory) : List Call → Prop
  | [] => True
  | call :: rest =>
    (∀ w ∈ call.write? m.length, w.Fits m.size) ∧ WritesFit (perform m call).memory rest

instance decidableWritesFit (m : Memory) (calls : List Call) : Decidable (WritesFit m calls) :=
  match calls with
  | [] => inferInstanceAs (Decidable True)
  | call :: rest =>
    let _ := decidableWritesFit (perform m call).memory rest
    inferInstanceAs (Decidable (_ ∧ _))

/-- A run without its requests to grow. -/
def withoutGrowth (calls : List Call) : List Call :=
  calls.filter fun call => call.growth?.isNone

variable {m : Memory} {call : Call} {before calls behind : List Call}

@[simp] theorem run_append (m : Memory) (before behind : List Call) :
    run m (before ++ behind) = run (run m before) behind :=
  List.foldl_append ..

theorem WritesFit.append (h : WritesFit m (before ++ behind)) :
    WritesFit m before ∧ WritesFit (run m before) behind := by
  induction before generalizing m with
  | nil => exact ⟨trivial, h⟩
  | cons call before ih =>
    obtain ⟨hcall, hrest⟩ := h
    obtain ⟨hbefore, hbehind⟩ := ih hrest
    exact ⟨⟨hcall, hbefore⟩, hbehind⟩

@[simp] theorem withoutGrowth_cons_of_some {size : UInt64} (hg : call.growth? = some size) :
    withoutGrowth (call :: calls) = withoutGrowth calls := by
  rw [withoutGrowth, List.filter_cons, hg]
  rfl

@[simp] theorem withoutGrowth_cons_of_none (hg : call.growth? = none) :
    withoutGrowth (call :: calls) = call :: withoutGrowth calls := by
  rw [withoutGrowth, List.filter_cons, hg]
  rfl

end Call

/-- **Any run** whose writes fit, and that asks for no more than the second store has: spared the
requests to grow, the second memory is still the first one grown. -/
theorem Grown.run {m n : Memory} (h : Grown m n) (calls : List Call)
    (hfit : Call.WritesFit m calls) (hgrowth : ∀ k ∈ Call.growths calls, k ≤ n.size) :
    Grown (Call.run m calls) (Call.run n (Call.withoutGrowth calls)) ∧
      (Call.run n (Call.withoutGrowth calls)).size = n.size := by
  induction calls generalizing m n with
  | nil => exact ⟨h, rfl⟩
  | cons call rest ih =>
    obtain ⟨hcall, hrest⟩ := hfit
    cases hg : call.growth? with
    | some size =>
      rw [Call.growths_cons_of_some hg] at hgrowth
      have hle : size.toNat ≤ n.size := hgrowth _ List.mem_cons_self
      rw [Call.withoutGrowth_cons_of_some hg]
      rcases Call.perform_growth hg with ⟨-, hok⟩ | ⟨hcap, -⟩
      · exact ih (h.grow hok hle) hrest fun k hk => hgrowth k (List.mem_cons_of_mem _ hk)
      · -- No store reaches the capacity.
        exact absurd (Nat.le_trans hcap hle) (Nat.not_le_of_lt n.size_lt)
    | none =>
      rw [Call.growths_cons_of_none hg] at hgrowth
      have hsize : (Call.perform n call).memory.size = n.size := Call.size_perform_of_growth? hg
      rw [Call.withoutGrowth_cons_of_none hg]
      obtain ⟨hrun, hend⟩ := ih (h.step hg hcall) hrest fun k hk => hsize.symm ▸ hgrowth k hk
      exact ⟨hrun, hend.trans hsize⟩

/-- A memory is grown to a size below the capacity. -/
theorem grown_run_resize (m : Memory) {size : UInt64} (hlt : size.toNat < capacity) :
    Grown m (Call.run m [.resize size]) ∧
      (Call.run m [.resize size]).size = max m.size size.toNat := by
  have hg : (Call.resize size).growth? = some size := rfl
  rcases Call.perform_growth (m := m) hg with ⟨-, hok⟩ | ⟨hcap, -⟩
  · exact ⟨.of_resize hok, size_of_resize hok⟩
  · exact absurd hlt (Nat.not_lt_of_le hcap)

/-- A write that fits into the shorter store is told the same in both. -/
theorem Grown.reply_eq {m n : Memory} (h : Grown m n) {call : Call} {w : Write}
    (hw : call.write? m.length = some w) (hfits : w.Fits m.size) :
    (Call.perform n call).reply = (Call.perform m call).reply := by
  have hle : w.size.toNat ≤ m.size := hfits.size_le
  rw [Call.reply_perform_of_write? hw, Call.reply_perform_of_write? (h.length ▸ hw),
    if_neg (Nat.not_lt_of_le hle), if_neg (Nat.not_lt_of_le (Nat.le_trans hle h.size_le)), h.length]

/-- A call that reads a value of the first memory reads it of the second, at an offset that is not
negative. -/
theorem Grown.reply_value {m n : Memory} (h : Grown m n) (hsize : n.size < 2 ^ 31) {call : Call}
    {offset : UInt64} (hcall : call = .read offset ∨ call = .view offset)
    (hlow : offset.toNat % 2 ^ 32 < 2 ^ 31) {value : List UInt8}
    (hreply : (Call.perform m call).reply = .value (some value)) :
    (Call.perform n call).reply = .value (some value) := by
  rcases hcall with rfl | rfl
  · exact congrArg Reply.value (h.read? hsize hlow (Reply.value.inj hreply))
  · exact congrArg Reply.value (h.read? hsize hlow (Reply.value.inj hreply))

/-- **Growing early is safe.** Take any memory and any run whose writes fit into the store of their
moment, the store and the sizes asked for being below `2 ^ 31` bytes. Grow the store first, once, to
the greatest size that the run asks for, and make the run without its requests to grow. Then:

* it ends in the same memory: the same store, logical length and recorded lengths;
* every write is told the same, so every append goes to the same offset;
* every value that was read at an offset which is not negative is read again.

The last two compare the answers to each call of the run, in the memory that the calls before it
lead to. -/
theorem run_grown_first (m : Memory) (calls : List Call) (size : UInt64)
    (hsize : m.size < 2 ^ 31) (hgrowth : ∀ k ∈ Call.growths calls, k < 2 ^ 31)
    (hmax : size.toNat = (Call.growths calls).foldl max 0) (hfit : Call.WritesFit m calls) :
    Call.run m (.resize size :: Call.withoutGrowth calls) = Call.run m calls ∧
      ∀ before call behind, calls = before ++ call :: behind →
        (call.write? (Call.run m before).length ≠ none →
          (Call.perform (Call.run m (.resize size :: Call.withoutGrowth before)) call).reply =
            (Call.perform (Call.run m before) call).reply) ∧
        ∀ offset value, call = .read offset ∨ call = .view offset →
          offset.toNat % 2 ^ 32 < 2 ^ 31 →
          (Call.perform (Call.run m before) call).reply = .value (some value) →
          (Call.perform (Call.run m (.resize size :: Call.withoutGrowth before)) call).reply =
            .value (some value) := by
  obtain ⟨hmem, hbound⟩ := foldl_max_spec (Call.growths calls) 0
  rw [← hmax] at hmem hbound
  have hlt : size.toNat < 2 ^ 31 := by
    rcases List.mem_cons.mp hmem with hzero | hmem
    · omega
    · exact hgrowth _ hmem
  obtain ⟨hearly, hroom⟩ := grown_run_resize m (Nat.lt_trans hlt (by decide))
  have hasked : ∀ k ∈ Call.growths calls, k ≤ (Call.run m [.resize size]).size := by
    intro k hk
    rw [hroom]
    exact Nat.le_trans (hbound k (List.mem_cons_of_mem _ hk)) (Nat.le_max_right ..)
  constructor
  · -- At the end the run has made good all that it was behind.
    obtain ⟨hgrown, hend⟩ := hearly.run calls hfit hasked
    have hcap : ∀ k ∈ Call.growths calls, k < capacity := fun k hk =>
      Nat.lt_trans (hgrowth k hk) (by decide)
    have hlate : (Call.run m calls).size = max m.size size.toNat := by
      rw [(tells_since m calls).size, History.since, History.size_foldl_after _ calls hcap, hmax,
        ← @List.foldl_assoc _ max, Nat.max_zero]
    exact (hgrown.eq (by rw [hend, hroom, hlate])).symm
  · rintro before call behind rfl
    rw [Call.growths_append] at hasked
    obtain ⟨hbefore, hrest⟩ := hfit.append
    obtain ⟨hgrown, hend⟩ :=
      hearly.run before hbefore fun k hk => hasked k (List.mem_append_left _ hk)
    refine ⟨fun hwrites => ?_, fun offset value hcall hlow hreply => ?_⟩
    · obtain ⟨w, hw⟩ := Option.ne_none_iff_exists'.mp hwrites
      exact hgrown.reply_eq hw (hrest.1 w hw)
    · exact hgrown.reply_value (by rw [hend, hroom]; omega) hcall hlow hreply

/-- A store of two bytes, one of them written. -/
def Call.twoBytes : List Call := [.resize 2, .tryWrite 0 1 [9]]

/-- A write and two appends, each with the growth that it needs right in front of it, a read, a
growth to less than there is, and an empty write behind the end. -/
def Call.grownLate : List Call :=
  [.tryWrite 0 1 [1], .resize 4, .tryAppend [3, 4], .read 2, .resize 8, .resize 6,
    .tryAppend [5, 6, 7, 8], .tryWrite 0xffffffff 0 [9]]

/-- The law at work: with all growth in front the memory is the same in the end, the last append
goes to offset 4 as it did, and the value of the first is read at offset 2. -/
theorem run_grown_first_grownLate :
    (Call.run .empty Call.twoBytes).size < 2 ^ 31 ∧
      (∀ k ∈ Call.growths Call.grownLate, k < 2 ^ 31) ∧
      (8 : UInt64).toNat = (Call.growths Call.grownLate).foldl max 0 ∧
      Call.WritesFit (Call.run .empty Call.twoBytes) Call.grownLate ∧
      Call.run (Call.run .empty Call.twoBytes) [.resize 8, .tryWrite 0 1 [1], .tryAppend [3, 4],
        .read 2, .tryAppend [5, 6, 7, 8], .tryWrite 0xffffffff 0 [9]] =
          Call.run (Call.run .empty Call.twoBytes) Call.grownLate ∧
      (Call.perform (Call.run (Call.run .empty Call.twoBytes)
        [.resize 8, .tryWrite 0 1 [1], .tryAppend [3, 4], .read 2])
          (.tryAppend [5, 6, 7, 8])).reply = .position 4 ∧
      (Call.perform (Call.run (Call.run .empty Call.twoBytes)
        [.resize 8, .tryWrite 0 1 [1], .tryAppend [3, 4]]) (.read 2)).reply =
          .value (some [3, 4]) := by
  have hsize : (Call.run .empty Call.twoBytes).size < 2 ^ 31 := by decide
  have hgrowth : ∀ k ∈ Call.growths Call.grownLate, k < 2 ^ 31 := by decide
  have hmax : (8 : UInt64).toNat = (Call.growths Call.grownLate).foldl max 0 := by decide
  have hfit : Call.WritesFit (Call.run .empty Call.twoBytes) Call.grownLate := by decide
  obtain ⟨hmemory, hanswers⟩ := run_grown_first _ _ _ hsize hgrowth hmax hfit
  obtain ⟨happend, -⟩ := hanswers [.tryWrite 0 1 [1], .resize 4, .tryAppend [3, 4], .read 2,
    .resize 8, .resize 6] (.tryAppend [5, 6, 7, 8]) [.tryWrite 0xffffffff 0 [9]] rfl
  obtain ⟨-, hread⟩ := hanswers [.tryWrite 0 1 [1], .resize 4, .tryAppend [3, 4]] (.read 2)
    [.resize 8, .resize 6, .tryAppend [5, 6, 7, 8], .tryWrite 0xffffffff 0 [9]] rfl
  exact ⟨hsize, hgrowth, hmax, hfit, hmemory, (happend (by decide)).trans (by decide),
    hread 2 [3, 4] (Or.inl rfl) (by decide) (by decide)⟩

end LinearMemory.Memory
