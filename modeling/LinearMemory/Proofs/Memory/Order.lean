import LinearMemory.Proofs.Memory.History

/-!
# Writes in any order

A write is accepted on its size alone, and no write moves the end of the store. So which writes of a
list are accepted does not depend on their order, and neither does what is told to the caller. What
the accepted ones leave behind could depend on it: at a position that two of them cover, and at an
offset that two of them are made at, the later one wins. Where there are no such conflicts the order
makes no difference at all.

The argument does not swap neighbours in the store and in the index. It goes through the history,
which is a list of entries that are looked up: `Memory.Tells.eq_of_perm` says that two histories
whose entries are the same but for their order tell of one memory, as long as no position and no
offset has two entries to choose from.

`Memory.run_writes_perm` is what follows for lists of writes. The logical length is a sum of words,
so nothing has to be assumed about how far it goes.
-/

namespace LinearMemory.Memory

/-! ### Looking up without a choice -/

/-- **A lookup with at most one answer** finds it wherever it stands. -/
theorem findSome?_eq_of_perm {α β : Type} {f : α → Option β} {l l' : List α} (hperm : l.Perm l')
    (hone : l.Pairwise fun a b => f a = none ∨ f b = none) : l.findSome? f = l'.findSome? f := by
  induction hperm with
  | nil => rfl
  | cons a _ ih =>
    rw [List.findSome?_cons, List.findSome?_cons, ih (List.pairwise_cons.mp hone).2]
  | swap a b l =>
    rcases (List.pairwise_cons.mp hone).1 a List.mem_cons_self with hnone | hnone
    · simp only [List.findSome?_cons, hnone]
    · simp only [List.findSome?_cons, hnone]
  | trans hfirst _ ih₁ ih₂ =>
    exact (ih₁ hone).trans (ih₂ (hone.perm hfirst fun h => h.symm))

/-- **Two accepted writes do not conflict**: they are made at different offsets, and there is no
position that both put a byte at. -/
def Entry.Compatible (e f : Entry) : Prop :=
  e.offset ≠ f.offset ∧ ∀ i, ¬(e.Covers i ∧ f.Covers i)

/-- No write covers a position behind the end of its store, so finitely many are to be looked at. -/
instance (e f : Entry) : Decidable (e.Compatible f) :=
  decidable_of_iff (e.offset ≠ f.offset ∧ ∀ i < e.room, ¬(e.Covers i ∧ f.Covers i))
    ⟨fun h => ⟨h.1, fun i hi => h.2 i hi.1.2 hi⟩, fun h => ⟨h.1, fun i _ => h.2 i⟩⟩

namespace Entry.Compatible

variable {e f : Entry}

theorem symm (h : e.Compatible f) : f.Compatible e :=
  ⟨h.1.symm, fun i hi => h.2 i hi.symm⟩

theorem byte? (h : e.Compatible f) (i : Nat) : e.byte? i = none ∨ f.byte? i = none := by
  by_cases he : e.Covers i
  · exact Or.inr (byte?_of_not_covers fun hf => h.2 i ⟨he, hf⟩)
  · exact Or.inl (byte?_of_not_covers he)

theorem recordedAt? (h : e.Compatible f) (offset : UInt64) :
    e.recordedAt? offset = none ∨ f.recordedAt? offset = none := by
  by_cases he : e.offset = offset
  · exact Or.inr (recordedAt?_of_ne fun hf => h.1 (he.trans hf.symm))
  · exact Or.inl (recordedAt?_of_ne he)

end Entry.Compatible

/-- **The order of the entries tells nothing** if no two of them conflict: histories of one size
with the same entries in any order, told from one memory, tell of one memory. -/
theorem Tells.eq_of_perm {start m n : Memory} {h k : History} (hm : Tells start h m)
    (hn : Tells start k n) (hsize : h.size = k.size) (hperm : h.entries.Perm k.entries)
    (hcompat : h.entries.Pairwise Entry.Compatible) : m = n := by
  refine eq_of_views ?_ ?_ (fun i => ?_) (fun offset => ?_)
  · rw [hm.size, hn.size, hsize]
  · rw [hm.length, hn.length, hm.advances, hn.advances, (hperm.map _).sum_nat]
  · have hone := hcompat.imp fun hef => hef.byte? i
    rw [hm.byte, hn.byte, History.byte?, History.byte?, findSome?_eq_of_perm hperm hone]
  · have hone := hcompat.imp fun hef => hef.recordedAt? offset
    rw [hm.written, hn.written, History.recorded?, History.recorded?,
      findSome?_eq_of_perm hperm hone]

/-! ### Lists of writes -/

/-- A write as a call that answers with a rejection if there is one. -/
def Write.call (w : Write) : Call := .tryWrite w.offset w.size w.value

theorem Write.write?_call (w : Write) (length : UInt64) : w.call.write? length = some w := rfl

/-- A write leaves the size of the store, whether it is accepted or not. -/
@[simp] theorem size_perform_call (m : Memory) (w : Write) :
    (Call.perform m w.call).memory.size = m.size := by
  rcases Call.perform_write (w.write?_call m.length) with ⟨-, hok, -⟩ | ⟨-, hkeep, -⟩
  · exact size_of_put hok
  · rw [hkeep]

/-- What a write is told depends on its size and on the size of the store. -/
theorem reply_perform_call (m : Memory) (w : Write) :
    (Call.perform m w.call).reply =
      if m.size < w.size.toNat then .rejected ⟨w.size, m.size⟩ else .done := by
  have hwrite : w.call.write? m.length = some w := rfl
  exact Call.reply_perform_of_write? hwrite

variable (m : Memory) (ws : List Write)

@[simp] theorem size_run_writes : (Call.run m (ws.map Write.call)).size = m.size := by
  induction ws generalizing m with
  | nil => rfl
  | cons w rest ih => simp [ih]

/-- **Which writes are accepted** is decided by their sizes alone. -/
theorem accepted_writes :
    Call.accepted m (ws.map Write.call) =
      (ws.filter fun w => w.size.toNat ≤ m.size).map fun w => ⟨w, m.size⟩ := by
  induction ws generalizing m with
  | nil => rfl
  | cons w rest ih =>
    rcases Call.perform_write (w.write?_call m.length) with ⟨hle, -, hacc⟩ | ⟨hlt, -, hacc⟩
    · simp [ih, hacc, hle]
    · simp [ih, hacc, hlt]

/-- **What each write is told** is what it would be told if it were the only one. -/
theorem replies_writes :
    Call.replies m (ws.map Write.call) = ws.map fun w => (Call.perform m w.call).reply := by
  induction ws generalizing m with
  | nil => rfl
  | cons w rest ih => simp [ih, reply_perform_call]

/-- **Writes that do not conflict may be made in any order.** Take any memory and any list of
writes, some of which may be rejected, such that no two of the accepted ones conflict. Made in any
other order they leave the same memory: the same store, the same logical length and the same
recorded length at each offset. And in either order each write is told what it would be told if it
were the only one, so it is accepted in both orders or in neither. -/
theorem run_writes_perm (m : Memory) (ws vs : List Write) (hperm : ws.Perm vs)
    (hcompat : (Call.accepted m (ws.map Write.call)).Pairwise Entry.Compatible) :
    Call.run m (vs.map Write.call) = Call.run m (ws.map Write.call) ∧
      (∀ offset, (Call.run m (vs.map Write.call)).written? offset =
        (Call.run m (ws.map Write.call)).written? offset) ∧
      Call.replies m (ws.map Write.call) = ws.map (fun w => (Call.perform m w.call).reply) ∧
      Call.replies m (vs.map Write.call) = vs.map (fun w => (Call.perform m w.call).reply) := by
  have hentries : (History.since m (ws.map Write.call)).entries.Perm
      (History.since m (vs.map Write.call)).entries := by
    rw [entries_since, entries_since, accepted_writes, accepted_writes]
    exact (List.reverse_perm _).trans (((hperm.filter _).map _).trans (List.reverse_perm _).symm)
  have hsize : (History.since m (ws.map Write.call)).size =
      (History.since m (vs.map Write.call)).size := by
    rw [← (tells_since m _).size, ← (tells_since m _).size, size_run_writes, size_run_writes]
  have hlater : (History.since m (ws.map Write.call)).entries.Pairwise Entry.Compatible := by
    rw [entries_since]
    exact hcompat.perm (List.reverse_perm _).symm fun h => h.symm
  have hsame := (tells_since m (ws.map Write.call)).eq_of_perm (tells_since m (vs.map Write.call))
    hsize hentries hlater
  exact ⟨hsame.symm, fun offset => by rw [hsame], replies_writes m ws, replies_writes m vs⟩

/-- For a store of eight bytes: a write that is cut at the end, one of size zero in front of it, one
behind the end of the store, and a write that is rejected at an offset that another one has. -/
def Write.scattered : List Write :=
  [⟨6, 4, [1, 2, 3]⟩, ⟨5, 0, [9]⟩, ⟨100, 2, [7]⟩, ⟨0, 9, [8]⟩, ⟨0, 2, [4, 5]⟩]

/-- The law at work on the order from back to front. -/
theorem run_writes_perm_scattered :
    Write.scattered.Perm Write.scattered.reverse ∧
      (Call.accepted (Call.run .empty [.resize 8])
        (Write.scattered.map Write.call)).Pairwise Entry.Compatible ∧
      (Call.run (Call.run .empty [.resize 8]) (Write.scattered.reverse.map Write.call)).store =
        #[4, 5, 0, 0, 0, 0, 1, 2] ∧
      Call.replies (Call.run .empty [.resize 8]) (Write.scattered.reverse.map Write.call) =
        [.done, .rejected ⟨9, 8⟩, .done, .done, .done] := by
  have hperm : Write.scattered.Perm Write.scattered.reverse := (List.reverse_perm _).symm
  have hcompat : (Call.accepted (Call.run .empty [.resize 8])
      (Write.scattered.map Write.call)).Pairwise Entry.Compatible := by decide
  obtain ⟨hsame, -, -, hreplies⟩ := run_writes_perm _ _ _ hperm hcompat
  refine ⟨hperm, hcompat, ?_, ?_⟩
  · rw [hsame]
    decide
  · rw [hreplies]
    decide

end LinearMemory.Memory
