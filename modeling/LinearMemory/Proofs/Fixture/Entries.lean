import LinearMemory.Proofs.Fixture.Agreement
import LinearMemory.Proofs.Fixture.Fields
import LinearMemory.Proofs.Text.Order

/-!
# A document entry by entry

A document that is an object is taken entry by entry, from left to right. What an entry means does
not depend on the others: its scenario is the one that it has in a document of its own, and it is
at fault for what it is at fault there. So a document loads if each of its entries does, and
otherwise for the first one that does not it is refused as this one is
(`Fixture.foldlM_entry_of_error`), before anything behind it is looked at
(`Fixture.load_opening`).

The scenarios are kept by name. An entry takes the place of any before it that has its name
(`Fixture.getElem?_of_last`), which is the only way in which two entries meet. Hence the order of
the entries matters as far as names are repeated and no further, and what is kept comes out in the
order of the names, whatever order they came in.

The result is `Fixture.load_entries`.
-/

namespace LinearMemory.Fixture

open Json State

/-! ### What one entry means -/

/-- **An entry goes to the fixture** under its name. -/
def entry (f : Fixture) (e : Member) : Except Fault Fixture := do
  return f.insert e.name (← e.value.scenario)

theorem member_eq_entry (f : Fixture) (e : Member) : f.member (e.key, e.value) = f.entry e := by
  rw [Fixture.member, e.name_key]
  rfl

theorem fixture_ofMembers (entries : List Member) :
    (Tree.ofMembers entries).fixture = entries.foldlM entry ∅ := by
  rw [Tree.ofMembers, Tree.fixture, List.foldlM_map]
  simp only [member_eq_entry]

/-- **An entry in a document of its own** is loaded as its scenario. -/
theorem load_alone (e : Member) :
    load e.alone = e.value.scenario >>= fun s => .ok ((∅ : Fixture).insert e.name s) := by
  rw [Member.alone, load_text (Tree.text_compact _), fixture_ofMembers]
  exact bind_pure _

theorem load_alone_eq_ok_iff {e : Member} {f : Fixture} :
    load e.alone = .ok f ↔
      ∃ s, e.value.scenario = .ok s ∧ f = (∅ : Fixture).insert e.name s := by
  rw [load_alone, bind_eq_ok_iff]
  refine exists_congr fun s => and_congr_right fun _ => ?_
  rw [Except.ok.injEq, eq_comm]

theorem load_alone_eq_error_iff {e : Member} {fault : Fault} :
    load e.alone = .error fault ↔ e.value.scenario = .error fault := by
  rw [load_alone]
  cases e.value.scenario with
  | ok s => simp
  | error fault' => simp

/-- **An entry is valid** if it loads in a document of its own. -/
def IsValid (e : Member) : Prop :=
  ∃ f, load e.alone = .ok f

theorem isValid_iff {e : Member} : IsValid e ↔ ∃ s, e.value.scenario = .ok s := by
  constructor
  · rintro ⟨f, hf⟩
    obtain ⟨s, hs, -⟩ := load_alone_eq_ok_iff.1 hf
    exact ⟨s, hs⟩
  · rintro ⟨s, hs⟩
    exact ⟨_, load_alone_eq_ok_iff.2 ⟨s, hs, rfl⟩⟩

/-! ### What entries mean together -/

theorem foldlM_entry_cons_eq_ok_iff {e : Member} {entries : List Member} {f g : Fixture} :
    (e :: entries).foldlM entry f = .ok g ↔
      ∃ s, e.value.scenario = .ok s ∧ entries.foldlM entry (f.insert e.name s) = .ok g := by
  rw [List.foldlM_cons, entry, bind_assoc, bind_eq_ok_iff]
  rfl

/-- **Entries are taken** if and only if each of them is valid. -/
theorem exists_foldlM_entry_iff {entries : List Member} {f : Fixture} :
    (∃ g, entries.foldlM entry f = .ok g) ↔ ∀ e ∈ entries, IsValid e := by
  induction entries generalizing f with
  | nil => exact ⟨fun _ => List.forall_mem_nil _, fun _ => ⟨f, rfl⟩⟩
  | cons e entries ih =>
    simp only [foldlM_entry_cons_eq_ok_iff, List.forall_mem_cons, isValid_iff]
    constructor
    · rintro ⟨g, s, hs, hg⟩
      exact ⟨⟨s, hs⟩, fun e' he' => isValid_iff.1 (ih.1 ⟨g, hg⟩ e' he')⟩
    · rintro ⟨⟨s, hs⟩, hrest⟩
      obtain ⟨g, hg⟩ := (@ih (f.insert e.name s)).2 fun e' he' => isValid_iff.2 (hrest e' he')
      exact ⟨g, s, hs, hg⟩

/-- **The first entry that is not valid** is what entries are refused for. -/
theorem foldlM_entry_of_error {before after : List Member} {e : Member} {fault : Fault}
    (hbefore : ∀ x ∈ before, IsValid x) (he : load e.alone = .error fault) (f : Fixture) :
    (before ++ e :: after).foldlM entry f = .error fault := by
  obtain ⟨g, hg⟩ := (@exists_foldlM_entry_iff before f).2 hbefore
  have hfault : g.entry e = .error fault := by
    rw [entry, load_alone_eq_error_iff.1 he]
    rfl
  rw [List.foldlM_append, hg]
  change (e :: after).foldlM entry g = .error fault
  rw [List.foldlM_cons, hfault]
  rfl

/-! ### What is kept under a name -/

theorem getElem?_insert (f : Fixture) (name other : String) (s : Scenario) :
    (f.insert name s)[other]? = if name = other then some s else f[other]? := by
  rw [Std.ExtTreeMap.getElem?_insert]
  simp only [Std.compare_eq_iff_eq]

/-- Entries of other names make no difference to a name. -/
theorem getElem?_of_absent {name : String} {entries : List Member} {f g : Fixture}
    (h : entries.foldlM entry f = .ok g) (habsent : ∀ e ∈ entries, e.name ≠ name) :
    g[name]? = f[name]? := by
  induction entries generalizing f with
  | nil =>
    cases h
    rfl
  | cons e entries ih =>
    obtain ⟨s, -, hrest⟩ := foldlM_entry_cons_eq_ok_iff.1 h
    obtain ⟨he, hothers⟩ := List.forall_mem_cons.1 habsent
    rw [ih hrest hothers, getElem?_insert, if_neg he]

/-- **The last entry of a name** is what is kept under it. -/
theorem getElem?_of_last {before after : List Member} {e : Member} {f g : Fixture}
    (h : (before ++ e :: after).foldlM entry f = .ok g) (hlast : ∀ x ∈ after, x.name ≠ e.name) :
    ∃ s, e.value.scenario = .ok s ∧ g[e.name]? = some s := by
  rw [List.foldlM_append, bind_eq_ok_iff] at h
  obtain ⟨m, -, h⟩ := h
  obtain ⟨s, hs, hrest⟩ := foldlM_entry_cons_eq_ok_iff.1 h
  refine ⟨s, hs, ?_⟩
  rw [getElem?_of_absent hrest hlast, getElem?_insert, if_pos rfl]

/-- A name that occurs has a last occurrence. -/
theorem exists_last_of_valuesOf {name : String} {entries : List Member} {t : Tree}
    (h : (valuesOf name entries).getLast? = some t) :
    ∃ before e after, entries = before ++ e :: after ∧ e.name = name ∧ e.value = t ∧
      ∀ x ∈ after, x.name ≠ name := by
  induction entries with
  | nil => cases h
  | cons e entries ih =>
    cases hrest : (valuesOf name entries).getLast? with
    | some t' =>
      have htail : (valuesOf name (e :: entries)).getLast? = some t' := by
        by_cases he : e.name = name
        · simp [he, hrest, List.getLast?_cons]
        · simp [he, hrest]
      obtain rfl : t' = t := Option.some.inj (htail.symm.trans h)
      obtain ⟨before, x, after, rfl, hx⟩ := ih hrest
      exact ⟨e :: before, x, after, rfl, hx⟩
    | none =>
      have hnone : ∀ x ∈ entries, x.name ≠ name :=
        valuesOf_eq_nil_iff.1 (List.getLast?_eq_none_iff.1 hrest)
      by_cases he : e.name = name
      · have ht : e.value = t := by simpa [he, hrest, List.getLast?_cons] using h
        exact ⟨[], e, entries, rfl, he, ht, hnone⟩
      · simp [he, hrest] at h

/-- **What is kept under a name** is told by the values of this name alone. -/
theorem getElem?_eq_of_valuesOf {name : String} {entries others : List Member} {f g : Fixture}
    (hf : entries.foldlM entry ∅ = .ok f) (hg : others.foldlM entry ∅ = .ok g)
    (h : valuesOf name others = valuesOf name entries) : g[name]? = f[name]? := by
  cases hlast : (valuesOf name entries).getLast? with
  | none =>
    have hnil : valuesOf name entries = [] := List.getLast?_eq_none_iff.1 hlast
    rw [getElem?_of_absent hf (valuesOf_eq_nil_iff.1 hnil),
      getElem?_of_absent hg (valuesOf_eq_nil_iff.1 (h.trans hnil))]
  | some t =>
    obtain ⟨before, e, after, rfl, rfl, rfl, hafter⟩ := exists_last_of_valuesOf hlast
    rw [← h] at hlast
    obtain ⟨before', e', after', rfl, hname, hvalue, hafter'⟩ := exists_last_of_valuesOf hlast
    obtain ⟨s, hs, hkept⟩ := getElem?_of_last hf hafter
    rw [← hname] at hafter'
    obtain ⟨s', hs', hkept'⟩ := getElem?_of_last hg hafter'
    rw [hvalue, hs] at hs'
    rw [hkept, ← hname, hkept', Except.ok.inj hs']

/-- Entries with the same values under each name are valid together. -/
theorem forall_isValid_of_valuesOf {entries others : List Member}
    (h : ∀ name, valuesOf name others = valuesOf name entries)
    (hvalid : ∀ e ∈ entries, IsValid e) : ∀ e ∈ others, IsValid e := by
  intro e he
  have hmem : e.value ∈ valuesOf e.name entries := by
    rw [← h e.name]
    exact List.mem_map_of_mem (List.mem_filter.2 ⟨he, decide_eq_true rfl⟩)
  obtain ⟨x, hx, hvalue⟩ := List.mem_map.1 hmem
  have hxs := isValid_iff.1 (hvalid x (List.mem_filter.1 hx).1)
  rw [hvalue] at hxs
  exact isValid_iff.2 hxs

/-- **Names come in the order of their octets.** -/
theorem pairwise_utf8_toList (f : Fixture) :
    (f.toList.map fun p => Text.utf8 p.1).Pairwise (· < ·) := by
  have hnames : f.toList.Pairwise fun a b => compare a.1 b.1 = .lt :=
    Std.ExtTreeMap.ordered_keys_toList
  rw [List.pairwise_map]
  exact hnames.imp fun h => Text.utf8_lt_utf8 (compareOfLessAndEq_eq_lt.1 h)

/-! ### Documents -/

/-- **A document as far as some entries**, without its closing bracket: what is loaded are these
entries, and then whatever is behind them. -/
theorem load_opening {entries : List Member} (hne : entries ≠ []) {front rest : List UInt8}
    (hfront : Spaced (Tree.ofMembers entries).pieces.dropLast front) (hrest : Delimits rest) :
    load (front ++ rest) =
      entries.foldlM entry ∅ >>= fun f => judge (.after (.record (.document f))) rest := by
  obtain ⟨e, entries, rfl⟩ := List.exists_cons_of_ne_nil hne
  rw [Tree.ofMembers, Tree.pieces, ← List.cons_append, List.dropLast_concat,
    Tree.memberPieces_eq_map] at hfront
  obtain ⟨behind, hbehind, hjudge⟩ := exists_judge_piece (s := start) (idle_of_place rfl) hfront
  have hparts := (Series.ofRecord Record.document).judge_parts
    (fun m _ done => yields_document_member done m) hbehind hrest (x := ∅)
    (s := .firstKey (.document ∅)) rfl
  have hbrace : start.next (octet '\x7b') = .ok (.firstKey (.document ∅)) := rfl
  have hentries := fixture_ofMembers (e :: entries)
  rw [Tree.ofMembers, Tree.fixture] at hentries
  change start.judge (front ++ rest) = _
  rw [hjudge, List.singleton_append, judge_cons hbrace, ← hentries]
  exact hparts

/-- **A document means what its entries mean.** For any entries, with any values and with names
that may repeat, laid out as one object in any way:

* The document loads if and only if each entry loads in a document of its own, those included that
  another one takes the place of. How a document of its own is laid out makes no difference.
* What is then kept under a name is the scenario of its last entry, and nothing is kept under any
  other name. The names come in the order of their octets. Any other order of the entries loads as
  the same fixture, as long as the values of each name come in the same order.
* Otherwise the document is refused for the fault that the first entry which is not valid has in a
  document of its own. So is any text that goes on differently behind this entry, whatever follows.
* An entry whose value is an object is valid if and only if `ops`, `len` and `memSize` come once
  each, with a list of operations and two words. Members of other names make no difference. -/
theorem load_entries {entries : List Member} {octets : List UInt8}
    (h : (Tree.ofMembers entries).Text octets) :
    ((∃ f, load octets = .ok f) ↔ ∀ e ∈ entries, IsValid e) ∧
    (∀ e alone, (Tree.ofMembers [e]).Text alone → load alone = load e.alone) ∧
    (∀ f, load octets = .ok f →
      (∀ before e after, entries = before ++ e :: after → (∀ x ∈ after, x.name ≠ e.name) →
        ∃ s, load e.alone = .ok ((∅ : Fixture).insert e.name s) ∧ f[e.name]? = some s) ∧
      (∀ name, (∀ e ∈ entries, e.name ≠ name) → f[name]? = none) ∧
      (f.toList.map fun p => Text.utf8 p.1).Pairwise (· < ·) ∧
      ∀ others octets', (Tree.ofMembers others).Text octets' →
        (∀ name, valuesOf name others = valuesOf name entries) → load octets' = .ok f) ∧
    (∀ before e after fault, entries = before ++ e :: after → (∀ x ∈ before, IsValid x) →
      load e.alone = .error fault →
        load octets = .error fault ∧
        ∀ front, Spaced (Tree.ofMembers (before ++ [e])).pieces.dropLast front →
          ∀ rest, Delimits rest → load (front ++ rest) = .error fault) ∧
    ∀ (e : Member) members, e.value = Tree.ofMembers members → ∀ f,
      load e.alone = .ok f ↔ ∃ s, f = (∅ : Fixture).insert e.name s ∧
        ∃ ops len size : Tree, valuesOf "ops" members = [ops] ∧ valuesOf "len" members = [len] ∧
          valuesOf "memSize" members = [size] ∧ IsOperations ops s.operations ∧
          IsWord len s.length ∧ IsWord size s.size := by
  have hload {entries : List Member} {octets : List UInt8}
      (h : (Tree.ofMembers entries).Text octets) : load octets = entries.foldlM entry ∅ :=
    (load_text h).trans (fixture_ofMembers entries)
  refine ⟨?_, ?_, ?_, ?_, ?_⟩
  · rw [hload h]
    exact exists_foldlM_entry_iff
  · intro e alone halone
    rw [hload halone, Member.alone, hload (Tree.text_compact _)]
  · intro f hf
    rw [hload h] at hf
    refine ⟨?_, fun name hname => ?_, pairwise_utf8_toList f, ?_⟩
    · rintro before e after rfl hlast
      obtain ⟨s, hs, hkept⟩ := getElem?_of_last hf hlast
      exact ⟨s, load_alone_eq_ok_iff.2 ⟨s, hs, rfl⟩, hkept⟩
    · rw [getElem?_of_absent hf hname]
      exact Std.ExtTreeMap.getElem?_empty
    · intro others octets' h' hvalues
      have hvalid := forall_isValid_of_valuesOf hvalues (exists_foldlM_entry_iff.1 ⟨f, hf⟩)
      obtain ⟨g, hg⟩ := exists_foldlM_entry_iff.2 hvalid
      have hsame : g = f := Std.ExtTreeMap.ext_getElem? fun name =>
        getElem?_eq_of_valuesOf hf hg (hvalues name)
      rw [hload h', hg, hsame]
  · rintro before e after fault rfl hbefore he
    refine ⟨?_, fun front hfront rest hrest => ?_⟩
    · rw [hload h]
      exact foldlM_entry_of_error hbefore he ∅
    · have hne : before ++ [e] ≠ [] := List.append_ne_nil_of_right_ne_nil _ (List.cons_ne_nil e [])
      rw [load_opening hne hfront hrest, foldlM_entry_of_error hbefore he ∅]
      rfl
  · intro e members hvalue f
    rw [load_alone_eq_ok_iff, hvalue]
    simp only [scenario_ofMembers_eq_ok_iff]
    constructor
    · rintro ⟨s, hs, hf⟩
      exact ⟨s, hf, hs⟩
    · rintro ⟨s, hf, hs⟩
      exact ⟨s, hs, hf⟩

/-- A number of one digit, which is not zero. -/
def oneDigit {b : UInt8} {d : Nat} (hb : digit? b = some d) (hd : d ≠ 0) : Tree :=
  .number ⟨[b], .mk (Or.inl rfl) (.positive hb hd (List.forall_mem_nil _)) .none .none⟩

/-- A member with its name as the writer spells it. -/
def written (name : String) (value : Tree) : Member :=
  ⟨name, _, textForm_escape name.toList, value⟩

/-- A text as the writer spells it. -/
def spelled (s : String) : Tree :=
  .text (written s .null).key

/-- A number, for a field that holds one. -/
def three : Tree :=
  oneDigit (b := octet '3') (d := 3) rfl (by decide)

/-- A scenario as a row, with one operation that has this value in its one field. -/
def shortRow (size : Tree) : Tree :=
  .array [.array [.array [spelled "resize", size]],
    oneDigit (b := octet '4') (d := 4) rfl (by decide),
    oneDigit (b := octet '5') (d := 5) rfl (by decide)]

/-- A scenario as an object, without operations. The length comes first, and one of the members is
none of a scenario. -/
def shortObject : Tree :=
  Tree.ofMembers [written "len" (oneDigit (b := octet '1') (d := 1) rfl (by decide)),
    written "note" .null, written "ops" (.array []),
    written "memSize" (oneDigit (b := octet '2') (d := 2) rfl (by decide))]

/-- Two scenarios of one name, with another one between them. -/
def repeatedName : List Member :=
  [written "b" shortObject, written "a" shortObject, written "b" (shortRow three)]

/-- The last scenario of a name is kept, with its operation; behind an entry that is not valid, for
its operation, nothing is looked at. -/
theorem load_entries_repeatedName :
    (∃ f, load (Tree.ofMembers repeatedName).compact = .ok f ∧
      f["b"]? = some ⟨[.resize 3], 4, 5⟩ ∧ f["c"]? = none) ∧
    load (Tree.ofMembers (written "d" (shortRow .null) :: repeatedName)).compact =
      .error (.mistyped (.wrongType .null .word)) := by
  have hvalid : ∀ e ∈ repeatedName, IsValid e := by
    simp only [repeatedName, List.forall_mem_cons, isValid_iff]
    exact ⟨⟨_, rfl⟩, ⟨_, rfl⟩, ⟨_, rfl⟩, List.forall_mem_nil _⟩
  obtain ⟨hloads, -, hkept, -⟩ := load_entries (Tree.text_compact (Tree.ofMembers repeatedName))
  obtain ⟨f, hf⟩ := hloads.2 hvalid
  obtain ⟨hlast, habsent, -⟩ := hkept f hf
  obtain ⟨s, hs, hb⟩ := hlast [written "b" shortObject, written "a" shortObject]
    (written "b" (shortRow three)) [] rfl (List.forall_mem_nil _)
  have hrow : load (written "b" (shortRow three)).alone =
      .ok ((∅ : Fixture).insert "b" ⟨[.resize 3], 4, 5⟩) := load_alone_eq_ok_iff.2 ⟨_, rfl, rfl⟩
  have hsame : ((∅ : Fixture).insert "b" s)["b"]? =
      ((∅ : Fixture).insert "b" ⟨[.resize 3], 4, 5⟩)["b"]? :=
    congrArg (fun g : Fixture => g["b"]?) (Except.ok.inj (hs.symm.trans hrow))
  rw [getElem?_insert, getElem?_insert, if_pos rfl, if_pos rfl] at hsame
  refine ⟨⟨f, hf, hb.trans hsame, habsent "c" ?_⟩, ?_⟩
  · simp only [repeatedName, List.forall_mem_cons]
    exact ⟨by decide, by decide, by decide, List.forall_mem_nil _⟩
  · obtain ⟨-, -, -, hrefused, -⟩ :=
      load_entries (Tree.text_compact
        (Tree.ofMembers (written "d" (shortRow .null) :: repeatedName)))
    exact (hrefused [] (written "d" (shortRow .null)) repeatedName _ rfl (List.forall_mem_nil _)
      (load_alone_eq_error_iff.2 rfl)).1

end LinearMemory.Fixture
