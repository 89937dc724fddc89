import LinearMemory.Proofs.Fixture.Document

/-!
# A document that is cut short

A document of a fixture may be cut anywhere: between two tokens, within a word or a number, within
an escape or between the octets of one character. Whatever is left of it is refused because it ends
too early, and for no other cause: `Fixture.load_cut_short`.

The tokens in front of the cut are taken as they are in the whole document, so what has to be shown
is about the one token that the cut goes through. Most tokens are a single octet and the cut is in
front of them. Of the others, a text and a word are left unfinished. An integer is not: its first
digits are an integer themselves, and are taken for one. But that integer is no farther from zero
than the whole one, so it fits wherever the whole one does, and behind any scalar something is still
open.

* `Fixture.State.finish_of_takes` is a cut in front of a token.
* `Fixture.State.judge_cut_form` is a cut through a token.
* `Fixture.State.judge_cut_laidOut` is a cut anywhere.
-/

namespace LinearMemory.Fixture

open Json

/-- **A text ends too early**, whatever it ends inside of. -/
def EndsEarly (judged : Except Fault Fixture) : Prop :=
  ∃ inside, judged = .error (.truncated inside)

theorem endsEarly_truncated (inside : Truncated) : EndsEarly (State.truncated inside) :=
  ⟨inside, rfl⟩

namespace State

/-! ### Cuts in front of a token -/

/-- Where a value may come, the text may not end. -/
theorem finish_of_place {s : State} {p : Place} (hs : s.place? = some p) : EndsEarly s.finish := by
  unfold place? at hs
  split at hs
  · exact endsEarly_truncated .value
  · exact endsEarly_truncated .array
  · exact endsEarly_truncated .value
  · cases hs

/-- Where a key may come, the text may not end. -/
theorem finish_of_keyed {s : State} {r : Record} (hs : s.keyed? = some r) :
    EndsEarly s.finish := by
  unfold keyed? at hs
  split at hs
  · exact endsEarly_truncated .object
  · exact endsEarly_truncated _
  · cases hs

/-- **Where a token is taken, the text may not end.** -/
theorem finish_of_takes {s t : State} {token : Token} (h : Takes s token t) :
    EndsEarly s.finish := by
  cases h with
  | scalar hs _ _ _ => exact finish_of_place hs
  | openBracket hs _ => exact finish_of_place hs
  | openBrace hs _ => exact finish_of_place hs
  | key hs _ _ => exact finish_of_keyed hs
  | colon p => exact endsEarly_truncated .object
  | nextElement _ => exact endsEarly_truncated .array
  | nextKey r => exact endsEarly_truncated .object
  | closeBracket hs _ =>
    unfold row? at hs
    split at hs
    · exact endsEarly_truncated .array
    · exact endsEarly_truncated .array
    · cases hs
  | closeBrace hs _ =>
    unfold record? at hs
    split at hs
    · exact endsEarly_truncated .object
    · exact endsEarly_truncated .object
    · cases hs

/-! ### Cuts behind a scalar -/

theorem finishAfter_resume (s : OpenScenario) : EndsEarly (finishAfter s.resume) := by
  unfold OpenScenario.resume
  split
  · exact endsEarly_truncated .array
  · exact endsEarly_truncated .object

theorem finishAfter_inside (i : Inside) (brackets : List Bracket) (v : Value) :
    EndsEarly (finishAfter (i.resume brackets v)) := by
  unfold Inside.resume
  split
  · exact endsEarly_truncated .array
  · exact endsEarly_truncated .object
  · split
    · exact endsEarly_truncated .object
    · exact endsEarly_truncated .array
    · exact finishAfter_resume _

/-- A word that is no greater than a word is one as well. -/
theorem word_closer {expected : Expectation} {f : UInt64 → Around} {a : Around} {n k : Int}
    (ha : (Field.word expected (.number (.integer n)) >>= fun w => .ok (f w)) = .ok a)
    (hpos : 0 ≤ n → 0 ≤ k ∧ k ≤ n) :
    ∃ w, (Field.word expected (.number (.integer k)) >>= fun w => .ok (f w)) = .ok (f w) := by
  by_cases hn : 0 ≤ n ∧ n < Nat.pow 2 64
  · obtain ⟨hk, hle⟩ := hpos hn.1
    refine ⟨UInt64.ofNat k.toNat, ?_⟩
    rw [Field.word, if_pos ⟨hk, Int.lt_of_le_of_lt hle hn.2⟩]
    rfl
  · rw [Field.word, if_neg hn] at ha
    cases ha

/-- **An integer closer to zero fits** wherever an integer does, and something is open behind it. -/
theorem scalar_closer {p : Place} {a : Around} {n k : Int}
    (ha : p.scalar (.number (.integer n)) = .ok a) (hpos : 0 ≤ n → 0 ≤ k ∧ k ≤ n) :
    ∃ a', p.scalar (.number (.integer k)) = .ok a' ∧ EndsEarly (finishAfter a') := by
  cases p with
  | length s | size s =>
    obtain ⟨w, hw⟩ := word_closer ha hpos
    exact ⟨_, hw, finishAfter_resume _⟩
  | inside i brackets => exact ⟨_, rfl, finishAfter_inside i brackets _⟩
  | document | scenario | operations | operation | recordKind | rowKind => cases ha

/-! ### Cuts through a token -/

/-- What is left of a text between quotes is a quote and the start of what is between. -/
theorem quoted_cut {b c : UInt8} {inside front behind : List UInt8}
    (h : b :: (inside ++ [c]) = front ++ behind) (hfront : front ≠ []) (hbehind : behind ≠ []) :
    ∃ first second, front = b :: first ∧ inside = first ++ second := by
  rcases List.cons_eq_append_iff.1 h with ⟨hnil, -⟩ | ⟨first, rfl, hrest⟩
  · exact absurd hnil hfront
  obtain ⟨second, hinside, -⟩ := Numeral.exists_of_append_last hrest hbehind
  exact ⟨first, second, rfl, hinside⟩

/-- An integer that is cut short is taken for what is left of it. -/
theorem judge_cut_integer {s : State} {p : Place} {a : Around} {n : Int} (hs : s.place? = some p)
    (hread : p.isSkipped = false) (ha : p.scalar (.number (.integer n)) = .ok a)
    (hlow : -Nat.pow 2 63 ≤ n) (hhigh : n < Nat.pow 2 64) {front behind : List UInt8}
    (hcut : Text.utf8 (Number.integerText n) = front ++ behind) (hfront : front ≠ []) :
    EndsEarly (s.judge front) := by
  rcases Numeral.exists_of_prefix_integer hcut hfront with rfl | ⟨k, hpos, hneg, rfl⟩
  · -- behind a lone minus sign a digit has to come
    have hsign : s.next (octet '-') = .ok (.numeral p ⟨true, 0, 0, false, 0, .sign⟩) :=
      next_digit_of_place hs rfl
    rw [judge_cons hsign, judge_nil, finish, hread]
    exact endsEarly_truncated .value
  · obtain ⟨a', ha', hearly⟩ := scalar_closer ha hpos
    have hjudge : s.judge (Text.utf8 (Number.integerText k) ++ []) = judge (.after a') [] :=
      judge_integer hs hread ha' (by omega) (by omega) trivial
    rw [List.append_nil] at hjudge
    rw [hjudge]
    exact hearly

/-- A word that is cut short waits for its next octet. -/
theorem judge_cut_word {p : Place} {v : Value} {b : UInt8} {rest front behind : List UInt8}
    (hcut : b :: rest = front ++ behind) (hbehind : behind ≠ []) :
    EndsEarly (judge (.word p v b rest) front) := by
  induction front generalizing b rest with
  | nil => exact endsEarly_truncated .value
  | cons c front ih =>
    rw [List.cons_append, List.cons.injEq] at hcut
    obtain ⟨rfl, hrest⟩ := hcut
    cases rest with
    | nil => exact absurd (List.append_eq_nil_iff.1 hrest.symm).2 hbehind
    | cons d rest =>
      have hstep : next (.word p v b (d :: rest)) b = .ok (.word p v d rest) := if_pos rfl
      rw [judge_cons hstep]
      exact ih hrest

/-- **A cut through a token**, in whatever form it comes. -/
theorem judge_cut_form {s t : State} {token : Token} {form : List UInt8} (h : Takes s token t)
    (hform : token.Form form) {front behind : List UInt8} (hcut : form = front ++ behind)
    (hbehind : behind ≠ []) : EndsEarly (s.judge front) := by
  by_cases hfront : front = []
  · rw [hfront, judge_nil]
    exact finish_of_takes h
  cases hform with
  | @text text inside hinside =>
    obtain ⟨first, second, rfl, rfl⟩ := quoted_cut hcut hfront hbehind
    obtain ⟨l, hreads, -⟩ := Literal.reads_text hinside
    obtain ⟨l', hreads'⟩ := hreads.exists_of_append
    cases h with
    | scalar hs _ hread _ =>
      have hbegin : s.next (octet '"') = .ok (.literal _ .start) :=
        (next_of_place hs rfl (by decide)).trans rfl
      rw [judge_cons hbegin, ← List.append_nil first, judge_literal hread hreads']
      exact endsEarly_truncated .text
    | key hs hread _ =>
      rw [judge_cons (next_quote_of_keyed hs), ← List.append_nil first, judge_key hread hreads']
      exact endsEarly_truncated .text
  | only hnot =>
    cases h with
    | scalar hs ht hread ha =>
      cases ht with
      | null =>
        rcases List.cons_eq_append_iff.1 hcut with ⟨hnil, -⟩ | ⟨rest, rfl, hrest⟩
        · exact absurd hnil hfront
        have hbegin : s.next (octet 'n') = .ok (.word _ .null (octet 'u') [octet 'l', octet 'l']) :=
          (next_of_place hs rfl (by decide)).trans rfl
        rw [judge_cons hbegin]
        exact judge_cut_word hrest hbehind
      | integer hlow hhigh => exact judge_cut_integer hs hread ha hlow hhigh hcut hfront
      | text text => exact absurd rfl (hnot text)
    | key => exact absurd rfl (hnot _)
    | openBracket | openBrace | colon | nextElement | nextKey | closeBracket | closeBrace =>
      -- a token of one octet can only be cut in front of it
      rcases List.singleton_eq_append_iff.1 hcut with ⟨hnil, -⟩ | ⟨-, hnil⟩
      · exact absurd hnil hfront
      · exact absurd hnil hbehind

/-! ### Cuts anywhere -/

theorem delimits_of_append {front behind : List UInt8} (h : Delimits (front ++ behind)) :
    Delimits front := by
  cases front with
  | nil => trivial
  | cons b rest => exact h

/-- **Where a cut goes** in blanks, a token and what comes later: in front of the token, through it
or behind it. -/
theorem cut_cases {blanks form later front behind : List UInt8}
    (h : front ++ behind = blanks ++ (form ++ later)) :
    (∃ gap, blanks = front ++ gap) ∨
      (∃ first cut, front = blanks ++ first ∧ form = first ++ cut ∧ cut ≠ []) ∨
      ∃ past, front = blanks ++ (form ++ past) ∧ later = past ++ behind := by
  rcases List.append_eq_append_iff.1 h with ⟨gap, hgap, -⟩ | ⟨first, rfl, hfirst⟩
  · exact Or.inl ⟨gap, hgap⟩
  rcases List.append_eq_append_iff.1 hfirst with ⟨past, rfl, hpast⟩ | ⟨cut, hcut, hbehind⟩
  · exact Or.inr (Or.inr ⟨past, rfl, hpast⟩)
  by_cases hnone : cut = []
  · -- right behind the token
    subst hnone
    rw [List.append_nil] at hcut
    exact Or.inr (Or.inr ⟨[], by rw [hcut, List.append_nil], hbehind.symm⟩)
  · exact Or.inr (Or.inl ⟨first, cut, rfl, hcut, hnone⟩)

/-- **A text that is laid out and cut short ends too early**, if any part of a token is cut off. -/
theorem judge_cut_laidOut {s : State} {a : Around} {tokens : List Token}
    {front behind : List UInt8} (h : TakesAll s tokens (.after a))
    (hoctets : LaidOut tokens (front ++ behind)) (hbehind : ∃ b ∈ behind, isBlank b = false) :
    EndsEarly (s.judge front) := by
  generalize hend : State.after a = t at h
  generalize hwhole : front ++ behind = octets at hoctets
  induction h generalizing octets front with
  | nil s =>
    -- without tokens there are blanks only
    obtain ⟨hblanks⟩ := hoctets
    obtain ⟨b, hmem, hb⟩ := hbehind
    have hblank := hblanks b (hwhole ▸ List.mem_append_right front hmem)
    exact absurd (hb.symm.trans hblank) Bool.false_ne_true
  | cons htoken hrest ih =>
    cases hoctets with
    | cons hblanks hform hlayout =>
      rcases cut_cases hwhole with ⟨gap, rfl⟩ | ⟨first, cut, rfl, hcut, hnone⟩ | ⟨past, rfl, rfl⟩
      · have hfront := fun b hb => hblanks b (List.mem_append_left gap hb)
        rw [← List.append_nil front, judge_blanks (idle_of_takes htoken) hfront]
        exact finish_of_takes htoken
      · rw [judge_blanks (idle_of_takes htoken) hblanks]
        exact judge_cut_form htoken hform hcut hnone
      · rw [judge_blanks (idle_of_takes htoken) hblanks, judge_form htoken hform]
        · exact ih hend _ rfl hlayout
        -- what is left behind a value ends numbers as the whole of it does
        · rintro a' rfl
          subst hend
          exact delimits_of_append (delimits_of_laidOut hrest hlayout)

end State

/-! ### Documents -/

/-- The last octet of a rendering without blanks is a closing bracket, so a cut takes away a part
of a token. -/
theorem exists_not_blank_of_rendered {f : Fixture} {tokens : List Token} {front behind : List UInt8}
    (h : f.Rendered tokens) (hcut : tokens.flatMap Token.octets = front ++ behind)
    (hbehind : behind ≠ []) : ∃ b ∈ behind, isBlank b = false := by
  obtain ⟨members, -, order, -, rfl⟩ := h
  rw [Token.object, List.flatMap_append] at hcut
  obtain ⟨rest, -, rfl⟩ := Numeral.exists_of_append_last hcut hbehind
  exact ⟨octet '\x7d', List.mem_append_right rest (List.mem_singleton.2 rfl), rfl⟩

/-- **A document that is cut short ends too early.** For every fixture, a text is refused because it
ends too early, and for no other cause, if it is what is left of

* any document of the fixture, whatever its order, its escapes and its blanks are, when more is cut
  off than blanks behind the end;
* any rendering of it without blanks, cut at any octet before its end;
* what the writer makes of it, cut in the same way. -/
theorem load_cut_short (f : Fixture) :
    (∀ front behind, f.Document (front ++ behind) → (∃ b ∈ behind, isBlank b = false) →
      ∃ inside, load front = .error (.truncated inside)) ∧
    (∀ tokens front behind, f.Rendered tokens → tokens.flatMap Token.octets = front ++ behind →
      behind ≠ [] → ∃ inside, load front = .error (.truncated inside)) ∧
    ∀ front behind, f.write = front ++ behind → behind ≠ [] →
      ∃ inside, load front = .error (.truncated inside) := by
  have hdocument : ∀ front behind, f.Document (front ++ behind) →
      (∃ b ∈ behind, isBlank b = false) → ∃ inside, load front = .error (.truncated inside) := by
    rintro front behind ⟨tokens, hrendered, hoctets⟩ hbehind
    exact State.judge_cut_laidOut (takesAll_of_rendered hrendered) hoctets hbehind
  have hrendering : ∀ tokens front behind, f.Rendered tokens →
      tokens.flatMap Token.octets = front ++ behind → behind ≠ [] →
      ∃ inside, load front = .error (.truncated inside) := by
    intro tokens front behind hrendered hcut hbehind
    refine hdocument front behind ⟨tokens, hrendered, ?_⟩
      (exists_not_blank_of_rendered hrendered hcut hbehind)
    rw [← hcut]
    exact laidOut_octets tokens
  refine ⟨hdocument, hrendering, ?_⟩
  intro front behind hcut hbehind
  exact hrendering _ front behind (f.rendered_tokens false) hcut hbehind

/-- One scenario with a name of two octets, which reads a value that is expected to be absent. -/
def accented : Fixture := (∅ : Fixture).insert "é" ⟨[.read (-12) none], 0, 0⟩

/-- Its tokens, as the writer has them. -/
def accentedTokens : List Token :=
  Token.object [Token.member "é" (Token.object
    [Token.member "ops" (Token.array [Token.object [Token.member "op" [.text "get"],
      Token.member "offset" [.integer (-12)], Token.member "expect" [.null]]]),
      Token.member "len" [.integer 0], Token.member "memSize" [.integer 0]])]

/-- It is refused wherever it is cut, be it behind the first octet of the name, between the digits
of the number or within the word. -/
theorem load_cut_short_accented :
    (accentedTokens.flatMap Token.octets).take 3 = [0x7b, 0x22, 0xc3] ∧
      ∀ n < 76, ∃ inside,
        load ((accentedTokens.flatMap Token.octets).take n) = .error (.truncated inside) := by
  have hread : Operation.Rendered (.read (-12) none) _ := Operation.rendered_tokens false _
  have hrendered : accented.Rendered accentedTokens :=
    ⟨_, .cons ⟨_, ⟨_, .cons hread .nil, Token.isObject_object _⟩, rfl⟩ .nil,
      Token.isObject_object _⟩
  have hlength : (accentedTokens.flatMap Token.octets).length = 76 := by decide
  refine ⟨by decide, ?_⟩
  intro n hn
  refine (load_cut_short accented).2.1 accentedTokens _ _ hrendered
    (List.take_append_drop n _).symm ?_
  rw [Ne, List.drop_eq_nil_iff, hlength]
  exact Nat.not_le_of_lt hn

end LinearMemory.Fixture
