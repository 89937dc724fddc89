import LinearMemory.Proofs.Except
import LinearMemory.Proofs.Fixture.Meaning

/-!
# Which objects are scenarios

A scenario that is an object is read member by member, and three names matter. Of each of them the
draft keeps what was read: nothing as long as no member of the name came, the content behind the
first one, and a second one is a fault. So the order of the members makes no difference and neither
do members of other names. What an object means is told by the lists of values that stand under the
three names, `Json.valuesOf`.

`Fixture.Settles` is the account of one field along all the members
(`Fixture.foldlM_member_eq_ok_iff`), and `Fixture.scenario_ofMembers_eq_ok_iff` is the result: an
object is a scenario if and only if each of the three lists has one value and this value is what the
field holds.
-/

namespace LinearMemory

open Json

/-- **The values of a name**, in the order in which they come. -/
def Json.valuesOf (name : String) (members : List Member) : List Tree :=
  (members.filter fun m => m.name = name).map Member.value

@[simp] theorem Json.valuesOf_cons_self {name : String} {m : Member} (h : m.name = name)
    (members : List Member) : valuesOf name (m :: members) = m.value :: valuesOf name members := by
  simp [valuesOf, h]

@[simp] theorem Json.valuesOf_cons_of_ne {name : String} {m : Member} (h : m.name ≠ name)
    (members : List Member) : valuesOf name (m :: members) = valuesOf name members := by
  simp [valuesOf, h]

theorem Json.valuesOf_eq_nil_iff {name : String} {members : List Member} :
    valuesOf name members = [] ↔ ∀ m ∈ members, m.name ≠ name := by
  simp only [valuesOf, List.map_eq_nil_iff, List.filter_eq_nil_iff, decide_eq_true_eq, ne_eq]

namespace Fixture

/-! ### What a field holds -/

/-- **A tree spells a word**: it is a number, written as an integer, from zero up to `2 ^ 64 -
1`. -/
def IsWord (t : Tree) (w : UInt64) : Prop :=
  ∃ n, t = .number n ∧ n.value = .ok (.integer w.toNat)

theorem word_eq_ok_iff {expected : Expectation} {v : Value} {w : UInt64} :
    Field.word expected v = .ok w ↔ v = .number (.integer w.toNat) := by
  have hpow : Nat.pow 2 64 = 2 ^ 64 := rfl
  constructor
  · intro h
    match v with
    | .number (.integer n) =>
      rw [Field.word] at h
      split at h
      · next hrange =>
        obtain rfl := Except.ok.inj h
        rw [UInt64.toNat_ofNat', Nat.mod_eq_of_lt (by omega), Int.toNat_of_nonneg hrange.1]
      · exact absurd h (by nofun)
    | .number (.real _ _) | .null | .boolean _ | .text _ | .array | .object =>
      exact absurd h (by nofun)
  · rintro rfl
    have hlt : w.toNat < 2 ^ 64 := w.toNat_lt
    have hrange : (0 : Int) ≤ w.toNat ∧ (w.toNat : Int) < Nat.pow 2 64 := by omega
    rw [Field.word, if_pos hrange, Int.toNat_natCast, UInt64.ofNat_toNat]

/-- Only a number is seen as one. -/
theorem surface_eq_number_iff {t : Tree} {x : Number} :
    t.surface = .ok (.number x) ↔ ∃ n, t = .number n ∧ n.value = .ok x := by
  cases t with
  | number n =>
    simp only [Tree.surface, Tree.number.injEq, exists_eq_left']
    cases n.value with
    | error cause => exact ⟨nofun, nofun⟩
    | ok y =>
      change (Except.ok (.number y) : Except Fault Value) = _ ↔
        (Except.ok y : Except Malformed _) = _
      rw [Except.ok.injEq, Value.number.injEq, Except.ok.injEq]
  | text q =>
    rw [Tree.surface, bind_eq_ok_iff]
    constructor
    · rintro ⟨s, -, h⟩
      cases h
    · rintro ⟨n, h, -⟩
      cases h
  | null | boolean | array | object =>
    constructor
    · intro h
      cases h
    · rintro ⟨n, h, -⟩
      cases h

/-- **A word is read from what spells it**, and from nothing else. -/
theorem tree_word_eq_ok_iff {expected : Expectation} {t : Tree} {w : UInt64} :
    t.word expected = .ok w ↔ IsWord t w := by
  simp only [Tree.word, bind_eq_ok_iff, word_eq_ok_iff, exists_eq_right, surface_eq_number_iff,
    IsWord]

/-- **A tree lists operations**: it is an array, and each element is the operation in its place. -/
def IsOperations (t : Tree) (operations : List Operation) : Prop :=
  ∃ elements, t = .array elements ∧
    List.Forall₂ (fun e operation => e.operation = .ok operation) elements operations

/-- **Operations are read from what lists them**, and from nothing else. -/
theorem operations_eq_ok_iff {t : Tree} {operations : List Operation} :
    t.operations = .ok operations ↔ IsOperations t operations := by
  cases t with
  | array elements =>
    rw [Tree.operations, mapM_eq_ok_iff]
    constructor
    · exact fun h => ⟨elements, rfl, h⟩
    · rintro ⟨_, ⟨⟩, h⟩
      exact h
  | _ =>
    constructor
    · intro h
      rw [Tree.operations, bind_eq_ok_iff] at h
      · obtain ⟨_, -, h⟩ := h
        exact absurd h (by nofun)
      · nofun
    · rintro ⟨_, h, -⟩
      exact absurd h (by nofun)

/-! ### One field along all members -/

variable {α : Type} {read : Tree → Except Fault α}

/-- **What becomes of a field** along the values of its name: it stays as it is if there are none,
and is set by one value if it was not set before. -/
def Settles (read : Tree → Except Fault α) (old : Option α) (values : List Tree)
    (new : Option α) : Prop :=
  values = [] ∧ new = old ∨
    old = none ∧ ∃ t content, values = [t] ∧ read t = .ok content ∧ new = some content

@[simp] theorem settles_nil {old new : Option α} : Settles read old [] new ↔ new = old := by
  constructor
  · rintro (⟨-, h⟩ | ⟨-, t, content, h, -⟩)
    · exact h
    · exact absurd h (by nofun)
  · exact fun h => Or.inl ⟨rfl, h⟩

/-- A field that is set takes no further value. -/
theorem settles_some {content : α} {values : List Tree} {new : Option α} :
    Settles read (some content) values new ↔ values = [] ∧ new = some content := by
  constructor
  · rintro (h | ⟨h, -⟩)
    · exact h
    · exact absurd h (by nofun)
  · exact Or.inl

@[simp] theorem settles_cons {old new : Option α} {t : Tree} {values : List Tree} :
    Settles read old (t :: values) new ↔
      old = none ∧ ∃ content, read t = .ok content ∧ Settles read (some content) values new := by
  simp only [settles_some]
  constructor
  · rintro (⟨h, -⟩ | ⟨hold, t', content, hvalues, hread, hnew⟩)
    · exact absurd h (by nofun)
    · obtain ⟨rfl, rfl⟩ := List.cons.inj hvalues
      exact ⟨hold, content, hread, rfl, hnew⟩
  · rintro ⟨hold, content, hread, rfl, hnew⟩
    exact Or.inr ⟨hold, t, content, rfl, hread, hnew⟩

/-- A field that was not set is set at the end by a single value. -/
theorem settles_none_some {content : α} {values : List Tree} :
    Settles read none values (some content) ↔ ∃ t, values = [t] ∧ read t = .ok content := by
  constructor
  · rintro (⟨-, h⟩ | ⟨-, t, content', hvalues, hread, hnew⟩)
    · exact absurd h (by nofun)
    · cases hnew
      exact ⟨t, hvalues, hread⟩
  · rintro ⟨t, hvalues, hread⟩
    exact Or.inr ⟨rfl, t, content, hvalues, hread, rfl⟩

/-- A field may be read if it was not read before. -/
@[simp] theorem unread_eq_ok_iff {field : String} {content : Option α} {u : Unit} :
    unread field content = .ok u ↔ content = none := by
  cases content with
  | none => exact iff_of_true rfl rfl
  | some c => exact iff_of_false nofun nofun

/-- What a member of a name makes of a draft. -/
theorem member_eq (d : Draft) (m : Member) :
    d.member (m.key, m.value) =
      if m.name = "ops" then do
        unread m.name d.operations
        return { d with operations := some (← m.value.operations) }
      else if m.name = "len" then do
        unread m.name d.length
        return { d with length := some (← m.value.word .word) }
      else if m.name = "memSize" then do
        unread m.name d.size
        return { d with size := some (← m.value.word .storeSize) }
      else return d := by
  rw [Draft.member, m.name_key]
  rfl

/-- **A draft is read from members** if and only if each field settles along the values of its
name. -/
theorem foldlM_member_eq_ok_iff {members : List Member} {d d' : Draft} :
    (members.map fun m => (m.key, m.value)).foldlM Draft.member d = .ok d' ↔
      Settles Tree.operations d.operations (valuesOf "ops" members) d'.operations ∧
      Settles (Tree.word .word) d.length (valuesOf "len" members) d'.length ∧
      Settles (Tree.word .storeSize) d.size (valuesOf "memSize" members) d'.size := by
  induction members generalizing d with
  | nil =>
    obtain ⟨operations, length, size⟩ := d
    obtain ⟨operations', length', size'⟩ := d'
    change (Except.ok _ : Except Fault Draft) = .ok _ ↔ Settles _ _ [] _ ∧ Settles _ _ [] _ ∧
      Settles _ _ [] _
    simp only [settles_nil, Except.ok.injEq, Draft.mk.injEq]
    simp only [eq_comm]
  | cons m members ih =>
    rw [List.map_cons, List.foldlM_cons, bind_eq_ok_iff, member_eq]
    simp only [ih]
    -- a member of one name leaves the values of the others as they are, so that the two sides have
    -- the same conditions in another order
    split
    · next hname =>
      simp [hname]
      grind
    split
    · next hops hname =>
      simp [hname]
      grind
    split
    · next hops hlen hname =>
      simp [hname]
      grind
    · next hops hlen hsize => simp [hops, hlen, hsize]

/-! ### Scenarios -/

theorem require_eq_ok_iff {field : String} {content : Option α} {c : α} :
    Draft.require field content = .ok c ↔ content = some c := by
  cases content with
  | none => exact ⟨by nofun, by nofun⟩
  | some c' =>
    rw [Draft.require, Except.ok.injEq, Option.some.injEq]

/-- A draft is a scenario if all its fields were read. -/
theorem ofRecord_eq_ok_iff {d : Draft} {s : Scenario} :
    d.ofRecord = .ok s ↔
      d.operations = some s.operations ∧ d.length = some s.length ∧ d.size = some s.size := by
  simp only [Draft.ofRecord, bind_eq_ok_iff, require_eq_ok_iff]
  constructor
  · rintro ⟨operations, hoperations, length, hlength, size, hsize, heq⟩
    cases heq
    exact ⟨hoperations, hlength, hsize⟩
  · rintro ⟨hoperations, hlength, hsize⟩
    exact ⟨_, hoperations, _, hlength, _, hsize, rfl⟩

/-- **An object is a scenario** if and only if each of its three fields comes once, with what the
field holds. -/
theorem scenario_ofMembers_eq_ok_iff {members : List Member} {s : Scenario} :
    (Tree.ofMembers members).scenario = .ok s ↔
      ∃ ops len size : Tree, valuesOf "ops" members = [ops] ∧ valuesOf "len" members = [len] ∧
        valuesOf "memSize" members = [size] ∧ IsOperations ops s.operations ∧
        IsWord len s.length ∧ IsWord size s.size := by
  rw [Tree.ofMembers, Tree.scenario, bind_eq_ok_iff]
  simp only [foldlM_member_eq_ok_iff, ofRecord_eq_ok_iff, Draft.empty]
  constructor
  · rintro ⟨⟨_, _, _⟩, ⟨hops, hlen, hsize⟩, rfl, rfl, rfl⟩
    obtain ⟨ops, hops, hoperations⟩ := settles_none_some.1 hops
    obtain ⟨len, hlen, hlength⟩ := settles_none_some.1 hlen
    obtain ⟨size, hsize, hsizes⟩ := settles_none_some.1 hsize
    exact ⟨ops, len, size, hops, hlen, hsize, operations_eq_ok_iff.1 hoperations,
      tree_word_eq_ok_iff.1 hlength, tree_word_eq_ok_iff.1 hsizes⟩
  · rintro ⟨ops, len, size, hops, hlen, hsize, hoperations, hlength, hsizes⟩
    exact ⟨⟨_, _, _⟩, ⟨settles_none_some.2 ⟨ops, hops, operations_eq_ok_iff.2 hoperations⟩,
      settles_none_some.2 ⟨len, hlen, tree_word_eq_ok_iff.2 hlength⟩,
      settles_none_some.2 ⟨size, hsize, tree_word_eq_ok_iff.2 hsizes⟩⟩, rfl, rfl, rfl⟩

end Fixture

end LinearMemory
