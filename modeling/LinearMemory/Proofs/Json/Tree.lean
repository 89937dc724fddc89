import LinearMemory.Proofs.Json.Literal

/-!
# Syntax trees of a JSON text

A JSON text is a tree: scalars at the leaves, arrays and objects above them. The leaves are kept as
they are written. So a `Json.Tree` is neither a value nor a text. Two trees may differ in an escape
or in the zeros of a fraction only, and the members of an object come in an order, with any keys,
some of them twice. Blanks are all that a tree does not tell: it is written as a list of pieces,
`Json.Tree.pieces`, and `Json.Tree.Text` is any text with these pieces.

The grammar is that of JSON and no more. A text literal may hold half a surrogate pair or octets
that are no UTF-8, a number may be too large for any double, and brackets may be nested to any
depth: what a reader makes of these is no matter of syntax.

An object whose keys are proper texts is told by its members, each of them with a name and with the
way in which this name is spelled: `Json.Member`.
-/

namespace LinearMemory.Json

/-! ### Numbers -/

/-- Decimal digits, at least one of them. -/
def IsDigits (octets : List UInt8) : Prop :=
  octets ≠ [] ∧ ∀ b ∈ octets, (digit? b).isSome = true

/-- **What may stand in front of the point**: a zero, or digits of which the first is none. -/
inductive WholeForm : List UInt8 → Prop
  | zero : WholeForm [octet '0']
  | positive {b : UInt8} {d : Nat} {rest : List UInt8} (hb : digit? b = some d) (hd : d ≠ 0)
      (hrest : ∀ c ∈ rest, (digit? c).isSome = true) : WholeForm (b :: rest)

/-- **A point and digits**, or nothing. -/
inductive FractionForm : List UInt8 → Prop
  | none : FractionForm []
  | some {digits : List UInt8} (h : IsDigits digits) : FractionForm (octet '.' :: digits)

/-- **A power of ten**, or nothing. -/
inductive PowerForm : List UInt8 → Prop
  | none : PowerForm []
  | some {mark : UInt8} {sign digits : List UInt8} (hmark : mark = octet 'e' ∨ mark = octet 'E')
      (hsign : sign = [] ∨ sign = [octet '+'] ∨ sign = [octet '-']) (h : IsDigits digits) :
      PowerForm (mark :: (sign ++ digits))

/-- **How a number may be written.** -/
inductive NumberForm : List UInt8 → Prop
  | mk {sign whole fraction power : List UInt8} (hsign : sign = [] ∨ sign = [octet '-'])
      (hwhole : WholeForm whole) (hfraction : FractionForm fraction) (hpower : PowerForm power) :
      NumberForm (sign ++ (whole ++ (fraction ++ power)))

/-- **A number as it is written.** -/
structure NumberText where
  octets : List UInt8
  isNumber : NumberForm octets

/-! ### Text literals -/

/-- **What may stand between two quotes**: octets other than quotes, backslashes and controls, short
escapes and code units. -/
inductive InsideForm : List UInt8 → Prop
  | nil : InsideForm []
  | plain {b : UInt8} {rest : List UInt8} (hquote : b ≠ octet '"') (hslash : b ≠ octet '\\')
      (hcontrol : ¬b < 0x20) (hrest : InsideForm rest) : InsideForm (b :: rest)
  | short {e c : Char} {rest : List UInt8} (hescape : (e, c) ∈ shortEscapes)
      (hrest : InsideForm rest) : InsideForm (octet '\\' :: octet e :: rest)
  | unit {n : Nat} {digits rest : List UInt8} (hunit : UnitForm n digits)
      (hrest : InsideForm rest) : InsideForm (octet '\\' :: octet 'u' :: (digits ++ rest))

/-- **A text literal as it is written**, without its quotes. -/
structure Quoted where
  inside : List UInt8
  isInside : InsideForm inside

/-- The octets of a text literal. -/
def Quoted.octets (q : Quoted) : List UInt8 :=
  octet '"' :: (q.inside ++ [octet '"'])

theorem insideForm_of_plain {octets : List UInt8}
    (h : ∀ b ∈ octets, b ≠ octet '"' ∧ b ≠ octet '\\' ∧ ¬b < 0x20) : InsideForm octets := by
  induction octets with
  | nil => exact .nil
  | cons b rest ih =>
    obtain ⟨hquote, hslash, hcontrol⟩ := h b List.mem_cons_self
    exact .plain hquote hslash hcontrol (ih fun b' hb' => h b' (List.mem_cons_of_mem _ hb'))

theorem InsideForm.append {first second : List UInt8} (h : InsideForm first)
    (h' : InsideForm second) : InsideForm (first ++ second) := by
  induction h with
  | nil => exact h'
  | plain hquote hslash hcontrol _ ih => exact .plain hquote hslash hcontrol ih
  | short hescape _ ih => exact .short hescape ih
  | unit hunit _ ih =>
    rw [List.cons_append, List.cons_append, List.append_assoc]
    exact .unit hunit ih

theorem CharForm.insideForm {c : Char} {form : List UInt8} (h : CharForm c form) :
    InsideForm form := by
  have hunit {n : Nat} {digits : List UInt8} (h : UnitForm n digits) :
      InsideForm (octet '\\' :: octet 'u' :: digits) := by
    rw [← List.append_nil digits]
    exact .unit h .nil
  cases h with
  | plain hquote hslash hcontrol =>
    exact insideForm_of_plain (Literal.plain_of_mem_utf8EncodeChar hquote hslash hcontrol)
  | short hescape => exact .short hescape .nil
  | unit h => exact hunit h
  | pair hhigh hlow => exact .unit hhigh (hunit hlow)

/-- **Whatever spells a text may stand between quotes.** -/
theorem TextForm.insideForm {cs : List Char} {form : List UInt8} (h : TextForm cs form) :
    InsideForm form := by
  induction h with
  | nil => exact .nil
  | cons hc _ ih => exact hc.insideForm.append ih

/-! ### Trees -/

/-- **A JSON text**, as far as blanks make no difference. -/
inductive Tree
  | null
  | boolean (b : Bool)
  | number (n : NumberText)
  | text (q : Quoted)
  | array (elements : List Tree)
  | object (members : List (Quoted × Tree))

/-- Parts with a comma in front of each but the first. -/
def separated : List (List (List UInt8)) → List (List UInt8)
  | [] => []
  | part :: rest => part ++ rest.flatMap ([octet ','] :: ·)

mutual

/-- **The pieces of a tree**, between which blanks may stand. -/
def Tree.pieces : Tree → List (List UInt8)
  | .null => [Token.ascii ['n', 'u', 'l', 'l']]
  | .boolean true => [Token.ascii ['t', 'r', 'u', 'e']]
  | .boolean false => [Token.ascii ['f', 'a', 'l', 's', 'e']]
  | .number n => [n.octets]
  | .text q => [q.octets]
  | .array elements => [octet '['] :: (separated (Tree.elementPieces elements) ++ [[octet ']']])
  | .object members =>
    [octet '\x7b'] :: (separated (Tree.memberPieces members) ++ [[octet '\x7d']])

/-- The pieces of each element. -/
def Tree.elementPieces : List Tree → List (List (List UInt8))
  | [] => []
  | t :: rest => t.pieces :: Tree.elementPieces rest

/-- The pieces of each member: its key, a colon and its value. -/
def Tree.memberPieces : List (Quoted × Tree) → List (List (List UInt8))
  | [] => []
  | (q, t) :: rest => (q.octets :: [octet ':'] :: t.pieces) :: Tree.memberPieces rest

end

namespace Tree

/-- **Induction on a tree**: what holds of an array or an object if it holds of its parts. -/
@[elab_as_elim, induction_eliminator]
theorem induction {motive : Tree → Prop} (null : motive .null)
    (boolean : ∀ b, motive (.boolean b)) (number : ∀ n, motive (.number n))
    (text : ∀ q, motive (.text q))
    (array : ∀ elements, (∀ t ∈ elements, motive t) → motive (.array elements))
    (object : ∀ members : List (Quoted × Tree), (∀ m ∈ members, motive m.2) →
      motive (.object members)) (t : Tree) : motive t := by
  refine @Tree.rec motive (fun elements => ∀ t ∈ elements, motive t)
    (fun members => ∀ m ∈ members, motive m.2) (fun m => motive m.2)
    null boolean number text array object ?_ ?_ ?_ ?_ ?_ t
  · exact List.forall_mem_nil _
  · exact fun _ _ ht hrest => List.forall_mem_cons.2 ⟨ht, hrest⟩
  · exact List.forall_mem_nil _
  · exact fun _ _ hm hrest => List.forall_mem_cons.2 ⟨hm, hrest⟩
  · exact fun _ _ ht => ht

theorem elementPieces_eq_map (elements : List Tree) :
    elementPieces elements = elements.map pieces := by
  induction elements with
  | nil => rfl
  | cons t rest ih => rw [elementPieces, ih, List.map_cons]

/-- The pieces of a member. -/
def piecesOf (member : Quoted × Tree) : List (List UInt8) :=
  member.1.octets :: [octet ':'] :: member.2.pieces

theorem memberPieces_eq_map (members : List (Quoted × Tree)) :
    memberPieces members = members.map piecesOf := by
  induction members with
  | nil => rfl
  | cons m rest ih =>
    rw [memberPieces, ih, List.map_cons]
    rfl

end Tree

/-! ### Members with names -/

/-- **A member of an object**: its name, how the name is spelled, and its value. -/
structure Member where
  name : String
  spelling : List UInt8
  spells : TextForm name.toList spelling
  value : Tree

/-- The key of a member as it is written. -/
def Member.key (m : Member) : Quoted :=
  ⟨m.spelling, m.spells.insideForm⟩

/-- **The object of some members**, in order. -/
def Tree.ofMembers (members : List Member) : Tree :=
  .object (members.map fun m => (m.key, m.value))

/-! ### Texts -/

/-- **Pieces as they may be laid out**, with any number of blanks in front of each. -/
inductive Spaced : List (List UInt8) → List UInt8 → Prop
  | nil : Spaced [] []
  | cons {piece : List UInt8} {pieces : List (List UInt8)} {blanks rest : List UInt8}
      (hblanks : ∀ b ∈ blanks, isBlank b = true) (hrest : Spaced pieces rest) :
      Spaced (piece :: pieces) (blanks ++ (piece ++ rest))

theorem Spaced.append {first second : List (List UInt8)} {octets behind : List UInt8}
    (h : Spaced first octets) (h' : Spaced second behind) :
    Spaced (first ++ second) (octets ++ behind) := by
  induction h with
  | nil => exact h'
  | cons hblanks _ ih =>
    rw [List.append_assoc, List.append_assoc]
    exact .cons hblanks ih

/-- What is laid out of two lists of pieces is laid out of each. -/
theorem Spaced.exists_of_append {first second : List (List UInt8)} {octets : List UInt8}
    (h : Spaced (first ++ second) octets) :
    ∃ front behind, octets = front ++ behind ∧ Spaced first front ∧ Spaced second behind := by
  induction first generalizing octets with
  | nil => exact ⟨[], octets, rfl, .nil, h⟩
  | cons piece rest ih =>
    obtain _ | ⟨hblanks, hrest⟩ := h
    obtain ⟨front, behind, rfl, hfront, hbehind⟩ := ih hrest
    refine ⟨_, behind, ?_, .cons hblanks hfront, hbehind⟩
    rw [List.append_assoc, List.append_assoc]

/-- Pieces may be laid out without blanks. -/
theorem spaced_flatten (pieces : List (List UInt8)) : Spaced pieces pieces.flatten := by
  induction pieces with
  | nil => exact .nil
  | cons piece rest ih => exact .cons (List.forall_mem_nil _) ih

namespace Tree

/-- **A text of a tree**: its pieces as they may be laid out, and blanks behind them. -/
def Text (t : Tree) (octets : List UInt8) : Prop :=
  ∃ front blanks, octets = front ++ blanks ∧ Spaced t.pieces front ∧
    ∀ b ∈ blanks, isBlank b = true

/-- **The text of a tree without blanks.** -/
def compact (t : Tree) : List UInt8 :=
  t.pieces.flatten

theorem text_compact (t : Tree) : t.Text t.compact :=
  ⟨_, [], (List.append_nil _).symm, spaced_flatten _, List.forall_mem_nil _⟩

end Tree

/-- **A member in an object of its own.** -/
def Member.alone (m : Member) : List UInt8 :=
  (Tree.ofMembers [m]).compact

/-! ### The first octet -/

theorem not_blank_of_digit? {b : UInt8} {d : Nat} (hb : digit? b = some d) :
    isBlank b = false ∧ b ≠ octet ']' := by
  have hne : ∀ c, digit? c = none → b ≠ c := by
    rintro c hc rfl
    exact absurd (hb.symm.trans hc) (by nofun)
  refine ⟨?_, hne _ rfl⟩
  simp only [isBlank, hne 0x20 rfl, hne 0x09 rfl, hne 0x0a rfl, hne 0x0d rfl, decide_false,
    Bool.or_self]

theorem NumberForm.exists_cons {octets : List UInt8} (h : NumberForm octets) :
    ∃ b rest, octets = b :: rest ∧ isBlank b = false ∧ b ≠ octet ']' := by
  obtain ⟨hsign, hwhole, -, -⟩ := h
  rcases hsign with rfl | rfl
  · cases hwhole with
    | zero => exact ⟨_, _, rfl, rfl, by decide⟩
    | positive hb => exact ⟨_, _, rfl, not_blank_of_digit? hb⟩
  · exact ⟨_, _, rfl, rfl, by decide⟩

/-- **A tree starts with an octet of its own**: no blank, and no bracket that closes a row. -/
theorem Tree.exists_pieces_eq (t : Tree) :
    ∃ b piece rest, t.pieces = (b :: piece) :: rest ∧ isBlank b = false ∧ b ≠ octet ']' := by
  cases t with
  | null => exact ⟨_, _, _, rfl, rfl, by decide⟩
  | boolean b =>
    cases b with
    | true => exact ⟨_, _, _, rfl, rfl, by decide⟩
    | false => exact ⟨_, _, _, rfl, rfl, by decide⟩
  | number n =>
    obtain ⟨b, rest, hoctets, hb⟩ := n.isNumber.exists_cons
    exact ⟨b, rest, [], by rw [pieces, hoctets], hb⟩
  | text q => exact ⟨_, _, _, rfl, rfl, by decide⟩
  | array elements => exact ⟨_, _, _, rfl, rfl, by decide⟩
  | object members => exact ⟨_, _, _, rfl, rfl, by decide⟩

end LinearMemory.Json
