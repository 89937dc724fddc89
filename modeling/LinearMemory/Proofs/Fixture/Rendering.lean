import Mathlib.Data.List.Perm.Basic
import LinearMemory.Fixture.Writer
import LinearMemory.Proofs.Json.Form

/-!
# The documents of a fixture

A fixture has many documents. The members of every object may come in any order, so that the
scenarios need not be sorted and the kind of an operation need not come first; every expected value
that is absent may be `null` or left out on its own; a text may be escaped in any way; and blanks
may stand wherever they are allowed. `Fixture.Document` is all of these.

What the writer makes is one of them: `Fixture.document_write`.
-/

namespace LinearMemory

open Json

/-- **Tokens are an object of members**, which come in any order. -/
def Json.Token.IsObject (members : List (List Token)) (tokens : List Token) : Prop :=
  ∃ order : List (List Token), order.Perm members ∧ tokens = Token.object order

theorem Json.Token.isObject_object (members : List (List Token)) :
    Token.IsObject members (Token.object members) :=
  ⟨members, .refl members, rfl⟩

namespace Operation

/-- The members of an operation, the first of them naming its kind. -/
def record (leaveOut : Bool) (operation : Operation) : List (List Token) :=
  Token.member "op" [.text operation.kind.name] :: operation.members leaveOut

/-- **Tokens render an operation.** -/
def Rendered (operation : Operation) (tokens : List Token) : Prop :=
  ∃ leaveOut, Token.IsObject (operation.record leaveOut) tokens

theorem rendered_tokens (leaveOut : Bool) (operation : Operation) :
    operation.Rendered (operation.tokens leaveOut) :=
  ⟨leaveOut, Token.isObject_object _⟩

end Operation

namespace Scenario

/-- The members of a scenario, given the tokens of its operations. -/
def record (operations : List (List Token)) (s : Scenario) : List (List Token) :=
  [Token.member "ops" (Token.array operations), Token.member "len" [Operation.wordToken s.length],
    Token.member "memSize" [Operation.wordToken s.size]]

/-- **Tokens render a scenario.** -/
def Rendered (s : Scenario) (tokens : List Token) : Prop :=
  ∃ operations, List.Forall₂ Operation.Rendered s.operations operations ∧
    Token.IsObject (s.record operations) tokens

theorem rendered_tokens (leaveOut : Bool) (s : Scenario) : s.Rendered (s.tokens leaveOut) := by
  refine ⟨_, ?_, Token.isObject_object _⟩
  rw [List.forall₂_map_right_iff, List.forall₂_same]
  exact fun operation _ => operation.rendered_tokens leaveOut

end Scenario

namespace Fixture

/-- A part of a document renders a scenario under its name. -/
def Entry (part : List Token) (entry : String × Scenario) : Prop :=
  ∃ tokens, entry.2.Rendered tokens ∧ part = Token.member entry.1 tokens

/-- **Tokens render a fixture.** -/
def Rendered (f : Fixture) (tokens : List Token) : Prop :=
  ∃ members, List.Forall₂ Entry members f.toList ∧ Token.IsObject members tokens

/-- **Octets are a document of a fixture.** -/
def Document (f : Fixture) (octets : List UInt8) : Prop :=
  ∃ tokens, f.Rendered tokens ∧ LaidOut tokens octets

theorem rendered_tokens (leaveOut : Bool) (f : Fixture) : f.Rendered (f.tokens leaveOut) := by
  refine ⟨_, ?_, Token.isObject_object _⟩
  rw [List.forall₂_map_left_iff, List.forall₂_same]
  exact fun entry _ => ⟨_, entry.2.rendered_tokens leaveOut, rfl⟩

/-- **What is written is a document.** -/
theorem document_write (f : Fixture) : f.Document f.write :=
  ⟨_, f.rendered_tokens false, laidOut_octets _⟩

end Fixture

end LinearMemory
