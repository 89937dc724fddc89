import LinearMemory.Proofs.Fixture.Agreement
import LinearMemory.Proofs.Fixture.Fields

/-!
# Values that are only looked through

A value of an operation is looked through before the kind of the operation is known, whether or not
the kind has a field for it. What can be wrong with it are its literals, its numbers and its
brackets. The literals of a `Json.Tree.IsProper` spell texts and its numbers stand for numbers, so
that nothing is left but the brackets, and of these only how deep they go: `Json.Tree.depth`.

With less than `Fixture.depthLimit` brackets around the innermost value, a proper tree is looked
through; otherwise it is refused as nested too deep, before the bracket that is one too many
(`Json.Tree.IsProper.discard_value`).
-/

namespace LinearMemory

open Fixture

namespace Json

/-! ### Depth -/

mutual

/-- **How many brackets** are nested in a tree. -/
def Tree.depth : Tree → Nat
  | .array elements => Tree.elementsDepth elements + 1
  | .object members => Tree.membersDepth members + 1
  | _ => 0

/-- The depth of the deepest element. -/
def Tree.elementsDepth : List Tree → Nat
  | [] => 0
  | t :: rest => max t.depth (Tree.elementsDepth rest)

/-- The depth of the deepest member. -/
def Tree.membersDepth : List (Quoted × Tree) → Nat
  | [] => 0
  | (_, t) :: rest => max t.depth (Tree.membersDepth rest)

end

/-! ### Proper trees -/

/-- **A literal is proper** if it spells a text: it is UTF-8, and every half of a surrogate pair is
followed or preceded by the other one. -/
def Quoted.IsProper (q : Quoted) : Prop :=
  ∃ s : String, TextForm s.toList q.inside

/-- **A tree is proper** if its literals are and its numbers are not too large for a double. -/
inductive Tree.IsProper : Tree → Prop
  | null : IsProper .null
  | boolean (b : Bool) : IsProper (.boolean b)
  | number {n : NumberText} {x : Number} (h : n.value = .ok x) : IsProper (.number n)
  | text {q : Quoted} (h : q.IsProper) : IsProper (.text q)
  | array {elements : List Tree} (h : ∀ t ∈ elements, t.IsProper) : IsProper (.array elements)
  | object {members : List (Quoted × Tree)} (hkeys : ∀ m ∈ members, m.1.IsProper)
      (hvalues : ∀ m ∈ members, m.2.IsProper) : IsProper (.object members)

theorem Quoted.IsProper.exists_name {q : Quoted} (h : q.IsProper) : ∃ s, q.name = .ok s := by
  obtain ⟨s, hs⟩ := h
  exact ⟨s, Member.name_key ⟨s, q.inside, hs, .null⟩⟩

/-- **There is room** for so many brackets inside of others, or a fault. -/
def room (around nested : Nat) : Except Fault Unit :=
  if around + nested < depthLimit then .ok () else .error (.malformed .tooDeep)

@[simp] theorem room_zero {around : Nat} (h : around < depthLimit) : room around 0 = .ok () :=
  if_pos h

/-- There is room for the deeper one of two if there is room for both. -/
theorem room_max (around a b : Nat) :
    room around (max a b) = room around a >>= fun _ => room around b := by
  unfold room
  by_cases ha : around + a < depthLimit
  · rw [if_pos ha]
    change _ = if around + b < depthLimit then _ else _
    congr 1
    exact propext (by omega)
  · rw [if_neg ha, if_neg (by omega)]
    rfl

theorem room_succ (around nested : Nat) : room around (nested + 1) = room (around + 1) nested := by
  rw [room, room, Nat.add_assoc, Nat.add_comm 1]

/-- Where one more bracket is too many, there is no room for it. -/
@[simp] theorem room_succ_of_full {around : Nat} (h : ¬around + 1 < depthLimit) (nested : Nat) :
    room around (nested + 1) = .error (.malformed .tooDeep) :=
  if_neg (by omega)

theorem checkElements_eq_room {elements : List Tree} {around : Nat} (h : around < depthLimit)
    (hall : ∀ t ∈ elements, discard (t.value around) = room around t.depth) :
    Tree.checkElements elements around = room around (Tree.elementsDepth elements) := by
  induction elements with
  | nil => exact (room_zero h).symm
  | cons t rest ih =>
    obtain ⟨ht, hrest⟩ := List.forall_mem_cons.1 hall
    rw [Tree.checkElements, Tree.elementsDepth, room_max, ht, ih hrest]

theorem checkMembers_eq_room {members : List (Quoted × Tree)} {around : Nat}
    (h : around < depthLimit) (hkeys : ∀ m ∈ members, m.1.IsProper)
    (hall : ∀ m ∈ members, discard (m.2.value around) = room around m.2.depth) :
    Tree.checkMembers members around = room around (Tree.membersDepth members) := by
  induction members with
  | nil => exact (room_zero h).symm
  | cons m rest ih =>
    obtain ⟨q, t⟩ := m
    obtain ⟨hq, hkeys⟩ := List.forall_mem_cons.1 hkeys
    obtain ⟨ht, hrest⟩ := List.forall_mem_cons.1 hall
    obtain ⟨s, hs⟩ := Quoted.IsProper.exists_name hq
    rw [Tree.checkMembers, Tree.membersDepth, room_max, hs, ht, ih hkeys hrest]
    rfl

/-- **A proper tree is looked through** as far as there is room for its brackets. -/
theorem Tree.IsProper.discard_value {t : Tree} (h : t.IsProper) {around : Nat}
    (haround : around < depthLimit) : discard (t.value around) = room around t.depth := by
  induction t generalizing around with
  | null | boolean => exact (room_zero haround).symm
  | number n =>
    cases h with
    | number hn =>
      have hvalue : (Tree.number n).value around = (Tree.number n).surface := rfl
      rw [hvalue, Tree.surface, hn]
      exact (room_zero haround).symm
  | text q =>
    cases h with
    | text hq =>
      obtain ⟨s, hs⟩ := hq.exists_name
      have hvalue : (Tree.text q).value around = (Tree.text q).surface := rfl
      rw [hvalue, Tree.surface, hs]
      exact (room_zero haround).symm
  | array elements ih =>
    obtain _ | _ | _ | _ | hall := h
    rw [Tree.value, Tree.depth]
    split
    · next hdepth =>
      rw [room_succ, ← checkElements_eq_room hdepth fun t ht => ih t ht (hall t ht) hdepth]
      cases Tree.checkElements elements (around + 1) <;> rfl
    · next hdepth => exact (room_succ_of_full hdepth _).symm
  | object members ih =>
    cases h with
    | object hkeys hvalues =>
      rw [Tree.value, Tree.depth]
      split
      · next hdepth =>
        rw [room_succ,
          ← checkMembers_eq_room hdepth hkeys fun m hm => ih m hm (hvalues m hm) hdepth]
        cases Tree.checkMembers members (around + 1) <;> rfl
      · next hdepth => exact (room_succ_of_full hdepth _).symm

end Json

end LinearMemory
