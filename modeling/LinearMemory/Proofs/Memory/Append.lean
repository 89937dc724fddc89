import LinearMemory.Proofs.Memory.Stability
import Mathlib.Data.List.Chain

/-!
# Runs of appends

A run that leaves it to the memory where each value goes loses nothing. Each accepted append takes
the slots from the logical length on, one for each byte of its value, or a single one if the value
is empty, and the logical length moves behind them: so the next append starts where this one ends,
whatever growth, rejected appends and reads stand between the two.

* `Memory.accepted_appends` says this of the offsets, for a run from any memory, and that every
  value is still kept at the end, since all later appends keep apart from it.
* `Memory.appends_lose_nothing` is what follows for reads after a run from the empty memory.

The slots of all appends together have to be a word, or offsets would come round again.
-/

namespace LinearMemory.Memory

/-- Whether a call is a write that names its offset. -/
def Call.namesOffset : Call → Bool
  | .write .. | .tryWrite .. => true
  | _ => false

namespace Entry

/-- How many slots the value of an append takes. -/
def slots (e : Entry) : Nat := max 1 e.value.length

/-- One append ends where another starts. -/
def Adjoins (e f : Entry) : Prop := f.offset.toNat = e.offset.toNat + e.slots

/-- One append ends where another starts, or before. -/
def Precedes (e f : Entry) : Prop := e.offset.toNat + e.slots ≤ f.offset.toNat

instance : Trans Precedes Precedes Precedes where
  trans {e f g} hef hfg := by
    unfold Precedes at *
    omega

theorem Adjoins.precedes {e f : Entry} (h : e.Adjoins f) : e.Precedes f :=
  Nat.le_of_eq h.symm

/-- What comes behind an append has a greater offset, behind the range of the append. -/
theorem Precedes.disjoint {e f : Entry} (h : e.Precedes f) :
    e.offset.toNat + e.value.length ≤ f.offset.toNat ∧ e.offset < f.offset := by
  have hslot : 1 ≤ e.slots := Nat.le_max_left ..
  have hvalue : e.value.length ≤ e.slots := Nat.le_max_right ..
  unfold Precedes at h
  rw [UInt64.lt_iff_toNat_lt]
  omega

/-- What comes behind an append keeps apart from its value. -/
theorem Precedes.apart {e f : Entry} (h : e.Precedes f) :
    f.Apart e.offset e.value.length := by
  obtain ⟨hrange, hlt⟩ := h.disjoint
  constructor
  · intro hc
    rw [hc, UInt64.lt_iff_toNat_lt] at hlt
    omega
  · rintro j hj ⟨hle, -⟩
    omega

end Entry

variable {m : Memory} {call : Call} {e : Entry}

/-! ### One append -/

/-- **An accepted append** is a write of the whole value at the logical length. -/
theorem accepted?_append (hcall : call.namesOffset = false)
    (he : Call.accepted? m call = some e) :
    e.offset = m.length ∧ e.size = UInt64.ofNat e.value.length ∧ e.room = m.size ∧
      m.put e.toWrite = .ok (Call.perform m call).memory := by
  cases hw : call.write? m.length with
  | none =>
    rw [Call.accepted?_eq_none hw] at he
    cases he
  | some w =>
    rcases Call.perform_write hw with ⟨-, hok, hacc⟩ | ⟨-, -, hacc⟩
    · rw [hacc] at he
      cases he
      cases call with
      | append value | tryAppend value =>
        cases hw
        exact ⟨rfl, rfl, rfl, hok⟩
      | write | tryWrite => cases hcall
      | _ => cases hw
    · rw [hacc] at he
      cases he

/-- The size of an append is the length of its value, also in unbounded numbers if the slots are a
word. -/
theorem toNat_size_append (hcall : call.namesOffset = false)
    (he : Call.accepted? m call = some e) (hlt : e.slots < 2 ^ 64) :
    e.size.toNat = e.value.length := by
  obtain ⟨-, hsize, -, -⟩ := accepted?_append hcall he
  have hle : e.value.length ≤ e.slots := Nat.le_max_right ..
  rw [hsize, UInt64.toNat_ofNat', Nat.mod_eq_of_lt (Nat.lt_of_le_of_lt hle hlt)]

/-- Where no write is made the logical length stays. -/
theorem length_perform_of_none (he : Call.accepted? m call = none) :
    (Call.perform m call).memory.length = m.length := by
  rcases Call.perform_cases m call with ⟨size, hok, -⟩ | ⟨w, -, -, hacc⟩ | ⟨hkeep, -⟩
  · exact length_of_resize hok
  · rw [hacc] at he
    cases he
  · rw [hkeep]

/-- An accepted append moves the logical length behind its slots. -/
theorem toNat_length_append (hcall : call.namesOffset = false)
    (he : Call.accepted? m call = some e) (hlt : m.length.toNat + e.slots < 2 ^ 64) :
    (Call.perform m call).memory.length.toNat = m.length.toNat + e.slots := by
  obtain ⟨-, -, -, hok⟩ := accepted?_append hcall he
  have hnat := toNat_size_append hcall he (Nat.lt_of_le_of_lt (Nat.le_add_left ..) hlt)
  have hsame : e.advance = e.slots := by
    rw [Write.advance, hnat, Nat.max_comm]
    rfl
  rw [length_of_put hok, UInt64.toNat_add, UInt64.toNat_ofNat', hsame]
  omega

/-- An accepted append leaves its value kept, but for the bytes that there was no room for. -/
theorem keeps_append (hcall : call.namesOffset = false) (he : Call.accepted? m call = some e)
    (hlt : e.slots < 2 ^ 64) : (Call.perform m call).memory.Keeps e.offset e.kept := by
  obtain ⟨-, -, hroom, hok⟩ := accepted?_append hcall he
  have hnat := toNat_size_append hcall he hlt
  by_cases hzero : e.size = 0
  · have hkept : e.kept = [] := by
      refine List.eq_nil_of_length_eq_zero ?_
      rw [e.length_kept, ← hnat, hzero, UInt64.toNat_zero]
    rw [hkept]
    exact keeps_nil_of_put hok hzero
  · exact Entry.keeps hok hroom hzero (Nat.le_of_eq hnat.symm)

/-! ### A run of appends -/

/-- **The accepted appends of a run lie one behind the other**, from the logical length on, and
every one of them is kept at the end of the run. -/
theorem accepted_appends (m : Memory) (calls : List Call)
    (happend : ∀ call ∈ calls, call.namesOffset = false)
    (hslots : m.length.toNat + ((Call.accepted m calls).map Entry.slots).sum < 2 ^ 64) :
    (Call.accepted m calls).IsChain Entry.Adjoins ∧
      (∀ e ∈ (Call.accepted m calls).head?, e.offset = m.length) ∧
      ∀ e ∈ Call.accepted m calls, (Call.run m calls).Keeps e.offset e.kept := by
  induction calls generalizing m with
  | nil =>
    exact ⟨.nil, fun e he => absurd he (Option.not_mem_none e),
      fun e he => absurd he List.not_mem_nil⟩
  | cons call rest ih =>
    have hcall := happend call List.mem_cons_self
    have hrest : ∀ call ∈ rest, call.namesOffset = false :=
      fun c hc => happend c (List.mem_cons_of_mem _ hc)
    rw [Call.accepted_cons] at hslots ⊢
    cases he : Call.accepted? m call with
    | none =>
      rw [he, Option.toList_none, List.nil_append, ← length_perform_of_none he] at hslots
      rw [Option.toList_none, List.nil_append, ← length_perform_of_none he]
      exact ih _ hrest hslots
    | some e =>
      rw [he, Option.toList_some, List.singleton_append, List.map_cons, List.sum_cons] at hslots
      rw [Option.toList_some, List.singleton_append]
      have hoffset : e.offset = m.length := (accepted?_append hcall he).1
      have hlength := toNat_length_append hcall he (by omega)
      obtain ⟨hchain, hhead, hkept⟩ := ih (Call.perform m call).memory hrest (by omega)
      -- The next append goes to where this one moved the logical length.
      have hall : (e :: Call.accepted (Call.perform m call).memory rest).IsChain Entry.Adjoins := by
        refine List.isChain_cons.mpr ⟨?_, hchain⟩
        intro f hf
        rw [Entry.Adjoins, hhead f hf, hlength, hoffset]
      refine ⟨hall, ?_, ?_⟩
      · intro f hf
        cases hf
        exact hoffset
      · intro f hf
        rcases List.mem_cons.mp hf with rfl | hf
        · -- All that lies behind this append keeps apart from it.
          have hpair := List.pairwise_cons.mp (hall.imp fun _ _ h => h.precedes).pairwise
          refine (keeps_append hcall he (by omega)).run rest ?_
          intro g hg
          rw [Entry.length_kept]
          exact (hpair.1 g hg).apart
        · exact hkept f hf

/-- **Appends lose nothing.** After any run from the empty memory in which no write names its
offset, with a store below `2 ^ 31` bytes at the end and slots that add up to a word:

* the first accepted append goes to offset 0, and each further one to the offset behind the slots
  of the one before. So their ranges lie in order without meeting, and no two offsets are equal;
* each value that the store of its time had room for is read back as it is;
* where the empty value was appended there is nothing to read, at offsets that are not negative;
* a value that there was no room for, but is by now, is read as its bytes from within the store of
  its time, followed by zeros. -/
theorem appends_lose_nothing (calls : List Call)
    (happend : ∀ call ∈ calls, call.namesOffset = false)
    (hsize : (Call.run .empty calls).size < 2 ^ 31)
    (hslots : ((Call.accepted .empty calls).map Entry.slots).sum < 2 ^ 64) :
    (∀ e ∈ (Call.accepted .empty calls).head?, e.offset = 0) ∧
      (Call.accepted .empty calls).IsChain
        (fun e f => f.offset.toNat = e.offset.toNat + max 1 e.value.length) ∧
      (Call.accepted .empty calls).Pairwise
        (fun e f => e.offset.toNat + e.value.length ≤ f.offset.toNat ∧ e.offset < f.offset) ∧
      ∀ e ∈ Call.accepted .empty calls,
        (e.value ≠ [] → e.offset.toNat + e.value.length ≤ e.room →
          (Call.run .empty calls).read? e.offset = some e.value) ∧
        (e.value = [] → e.offset.toNat < 2 ^ 31 →
          (Call.run .empty calls).read? e.offset = none) ∧
        (e.value ≠ [] → e.room < e.offset.toNat + e.value.length →
          e.offset.toNat + e.value.length ≤ (Call.run .empty calls).size →
          (Call.run .empty calls).read? e.offset =
            some (e.value.take (e.room - e.offset.toNat) ++
              List.replicate (e.value.length - (e.room - e.offset.toNat)) 0)) := by
  obtain ⟨hchain, hhead, hkept⟩ := accepted_appends .empty calls happend
    (by rw [show Memory.empty.length.toNat = 0 from rfl, Nat.zero_add]; exact hslots)
  have hpair := (hchain.imp fun _ _ h => h.precedes).pairwise
  have hread : ∀ e ∈ Call.accepted .empty calls, e.value ≠ [] →
      e.offset.toNat + e.value.length ≤ (Call.run .empty calls).size →
      (Call.run .empty calls).read? e.offset = some e.kept := by
    intro e he hne hroom
    have hpos := List.length_pos_of_ne_nil hne
    rw [← e.length_kept] at hpos hroom
    exact (hkept e he).read?_eq_some hsize hpos hroom (Or.inl ⟨by omega, by omega⟩)
  refine ⟨hhead, hchain, hpair.imp Entry.Precedes.disjoint, ?_⟩
  intro e he
  refine ⟨?_, ?_, ?_⟩
  · intro hne hroom
    have hnow := Nat.le_trans hroom (Call.room_le_size_run he)
    rw [hread e he hne hnow, Entry.kept_eq_value hroom]
  · intro hnil hlt
    have hkeeps := hkept e he
    have hempty : e.kept = [] := by
      refine List.eq_nil_of_length_eq_zero ?_
      rw [e.length_kept, hnil]
      rfl
    rw [hempty] at hkeeps
    exact hkeeps.read?_eq_none hsize (Or.inl ⟨by omega, by omega⟩)
  · intro hne _
    exact hread e he hne

/-- Appends that fit, an empty one, a rejected one, one that is cut after its first byte, and one
into the room that growth makes. -/
def Call.mixedAppends : List Call :=
  [.resize 4, .append [1, 2], .append [], .tryAppend [9, 9, 9, 9, 9], .append [3, 4, 5], .resize 8,
    .read 3, .tryAppend [6]]

/-- The law at work: the value that was cut is read with zeros, and beside it nothing is lost. -/
theorem appends_lose_nothing_mixedAppends :
    (∀ call ∈ Call.mixedAppends, call.namesOffset = false) ∧
      (Call.run .empty Call.mixedAppends).size < 2 ^ 31 ∧
      ((Call.accepted .empty Call.mixedAppends).map Entry.slots).sum < 2 ^ 64 ∧
      (Call.run .empty Call.mixedAppends).read? 0 = some [1, 2] ∧
      (Call.run .empty Call.mixedAppends).read? 2 = none ∧
      (Call.run .empty Call.mixedAppends).read? 3 = some [3, 0, 0] ∧
      (Call.run .empty Call.mixedAppends).read? 6 = some [6] := by
  have happend : ∀ call ∈ Call.mixedAppends, call.namesOffset = false := by decide
  have hsize : (Call.run .empty Call.mixedAppends).size < 2 ^ 31 := by decide
  have hslots : ((Call.accepted .empty Call.mixedAppends).map Entry.slots).sum < 2 ^ 64 := by
    decide
  obtain ⟨-, -, -, hread⟩ := appends_lose_nothing Call.mixedAppends happend hsize hslots
  obtain ⟨hfirst, -, -⟩ := hread ⟨⟨0, 2, [1, 2]⟩, 4⟩ (by decide)
  obtain ⟨-, hempty, -⟩ := hread ⟨⟨2, 0, []⟩, 4⟩ (by decide)
  obtain ⟨-, -, hcut⟩ := hread ⟨⟨3, 3, [3, 4, 5]⟩, 4⟩ (by decide)
  obtain ⟨hlast, -, -⟩ := hread ⟨⟨6, 1, [6]⟩, 8⟩ (by decide)
  exact ⟨happend, hsize, hslots, hfirst (by decide) (by decide), hempty rfl (by decide),
    hcut (by decide) (by decide) (by decide), hlast (by decide) (by decide)⟩

end LinearMemory.Memory
