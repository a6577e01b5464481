import SmallLisp.Proofs.Grammar
import SmallLisp.Proofs.NumberText
import SmallLisp.Proofs.Tiling

/-!
Writing a value and reading it back.

`Value.Readable` describes values whose written form reads back as themselves
(`read_written_of_readable`). Numbers, booleans, markers and symbols are atoms that the reader takes
for what they are, and a text keeps its characters between the quotes as long as none of them means
something else there (`Literal.Plain`). The elements of a list are kept apart by a space, so that no
atom runs into the next token.

Texts are written without escapes. A literal with escapes can therefore stand for a text whose
written form is read as something else; the texts that read back are exactly the plain ones
(`string_literal_reads_back_iff`).
-/

namespace SmallLisp

/-! ### Plain texts -/

namespace Literal

/-- The text has no quote, and behind each of its backslashes stands a character that does not make
an escape with it. -/
def Plain (cs : List Char) : Prop :=
  '\"' ∉ cs ∧ ∀ before after, cs = before ++ '\\' :: after →
    ∃ c ∈ after.head?, c ∉ ['n', 't', '\"', '\\']

theorem plain_nil : Plain [] := by
  refine ⟨List.not_mem_nil, fun before after split => ?_⟩
  simp at split

/-- Whether a text is plain shows in its first two characters and in what stands behind the first.
-/
theorem plain_cons_iff {c : Char} {cs : List Char} : Plain (c :: cs) ↔
    c ≠ '\"' ∧ (c = '\\' → ∃ d ∈ cs.head?, d ∉ ['n', 't', '\"', '\\']) ∧ Plain cs := by
  constructor
  · rintro ⟨quotes, harmless⟩
    obtain ⟨first, others⟩ := List.ne_and_not_mem_of_not_mem_cons quotes
    refine ⟨first.symm, fun same => ?_, others, fun before after split => ?_⟩
    · exact harmless [] cs (by rw [same]; rfl)
    · exact harmless (c :: before) after (by rw [split]; rfl)
  · rintro ⟨first, escape, others, harmless⟩
    refine ⟨List.not_mem_cons_of_ne_of_not_mem first.symm others, fun before after split => ?_⟩
    cases before with
    | nil =>
      cases split
      exact escape rfl
    | cons d before =>
      cases split
      exact harmless before after rfl

theorem plain_escape_iff {c : Char} {cs : List Char} :
    Plain ('\\' :: c :: cs) ↔ c ∉ ['n', 't', '\"', '\\'] ∧ Plain cs := by
  rw [plain_cons_iff, plain_cons_iff]
  constructor
  · rintro ⟨-, escape, -, -, plain⟩
    obtain ⟨d, head, other⟩ := escape rfl
    cases head
    exact ⟨other, plain⟩
  · rintro ⟨other, plain⟩
    simp only [List.mem_cons, not_or] at other
    refine ⟨by decide, fun _ => ⟨c, rfl, by simpa using other⟩, other.2.2.1, ?_, plain⟩
    exact fun same => absurd same other.2.2.2.1

/-- Plain characters stand for themselves. -/
theorem unescape_of_plain {cs : List Char} (plain : Plain cs) : unescape cs = cs := by
  -- The last two cases are a backslash before a character without an escape, and no backslash.
  fun_induction unescape cs with
  | case1 => rfl
  | case6 c cs _ _ _ _ ih => rw [ih (plain_escape_iff.mp plain).2]
  | case7 c cs _ _ _ _ _ ih => rw [ih (plain_cons_iff.mp plain).2.2]
  | _ => exact absurd (by decide) (plain_escape_iff.mp plain).1

/-- Plain characters can stand between quotes. -/
theorem Plain.enclosed {cs : List Char} (plain : Plain cs) : Token.Enclosed cs := by
  fun_induction unescape cs with
  | case1 => exact .nil
  | case6 c cs _ _ _ _ ih => exact .escape (ih (plain_escape_iff.mp plain).2)
  | case7 c cs _ _ _ _ single ih =>
    obtain ⟨quote, escape, plain⟩ := plain_cons_iff.mp plain
    refine .plain quote (fun same => ?_) (ih plain)
    obtain ⟨d, head, -⟩ := escape same
    cases cs with
    | nil => cases head
    | cons e cs => exact single e cs same rfl
  | _ => exact absurd (by decide) (plain_escape_iff.mp plain).1

/-- Resolving escapes makes a text no longer. -/
theorem unescape_length_le (cs : List Char) : (unescape cs).length ≤ cs.length := by
  fun_induction unescape cs <;> simp only [List.length_nil, List.length_cons] <;> omega

/-- Characters that stand for themselves up to the closing quote are plain. -/
theorem plain_of_unescape_eq {cs : List Char} (kept : unescape cs = cs)
    (closed : Token.splitString false (cs ++ ['\"']) = some (cs ++ ['\"'], [])) : Plain cs := by
  fun_induction unescape cs with
  | case1 => exact plain_nil
  | case5 cs ih =>
    have shorter := unescape_length_le cs
    rw [(List.cons.inj kept).2, List.length_cons] at shorter
    omega
  | case6 c cs _ _ _ _ ih =>
    have kept : unescape cs = cs := by simpa using kept
    have closed : Token.splitString false (cs ++ ['\"']) = some (cs ++ ['\"'], []) := by
      simpa [Token.splitString] using closed
    exact plain_escape_iff.mpr ⟨by simp_all, ih kept closed⟩
  | case7 c cs _ _ _ _ single ih =>
    have quote : c ≠ '\"' := by
      rintro rfl
      simp [Token.splitString] at closed
    have backslash : c ≠ '\\' := by
      rintro rfl
      cases cs with
      | nil => simp [Token.splitString] at closed
      | cons d cs => exact single d cs rfl rfl
    have closed : Token.splitString false (cs ++ ['\"']) = some (cs ++ ['\"'], []) := by
      simpa [Token.splitString, quote, beq_eq_false_iff_ne.mpr backslash] using closed
    have plain := ih (List.cons.inj kept).2 closed
    exact plain_cons_iff.mpr ⟨quote, fun same => absurd same backslash, plain⟩
  | _ => cases kept

/-- A string literal stands for what is between its quotes, with the escapes resolved. -/
theorem string_quoted (cs : List Char) :
    string ('\"' :: cs ++ ['\"']) = .text (String.ofList (unescape cs)) := by
  simp [string]

/-! ### Atoms -/

/-- The name has `#:` and behind it a letter, a digit or an underscore. -/
def Marks (cs : List Char) : Prop :=
  ∃ before c after, cs = before ++ '#' :: ':' :: c :: after ∧ (c.isAlphanum = true ∨ c = '_')

theorem isMarker_of_marks {cs : List Char} (marks : Marks cs) : isMarker cs = true := by
  obtain ⟨before, c, after, rfl, word⟩ := marks
  induction before with
  | nil => simpa [isMarker] using .inl word
  | cons d before ih => simp [isMarker, ih]

theorem atom?_marker {name : String} (marks : Marks name.toList) :
    atom? name.toList = some (.marker name) := by
  have sharp : '#' ∈ name.toList := by
    obtain ⟨before, c, after, split, -⟩ := marks
    simp [split]
  have integer : integer? name.toList = none := integer?_of_mem sharp rfl nofun nofun
  have real : real? name.toList = none := real?_of_mem sharp rfl nofun nofun nofun
  have other : ∀ word : String, '#' ∉ word.toList → name.toList ≠ word.toList := by
    intro word absent same
    rw [same] at sharp
    exact absent sharp
  simp only [atom?, integer, real, other "true" (by decide), other "false" (by decide),
    isMarker_of_marks marks, if_true, if_false, String.ofList_toList]

theorem atom?_integerText (n : Int64) : atom? (Value.integerText n.toInt) = some (.int n) := by
  rw [atom?, integer?_integerText]

/-- A finite double is read back from its text, without loss. -/
theorem atom?_realText {x : Float} (finite : x.isFinite = true) :
    atom? (Decimal.realText x) = some (.real x) := by
  obtain ⟨s, d, text, rfl⟩ := Decimal.realText_eq_positional finite
  have point : '.' ∈ Decimal.signText s ++ d.positional := by simp [Decimal.positional]
  rw [text, atom?, integer?_of_mem point rfl (by decide) (by decide), real?_positional]

theorem atom?_bool (b : Bool) : atom? (Value.bool b).chars = some (.bool b) := by
  cases b <;> rfl

end Literal

/-! ### Readable values -/

namespace Value

theorem chars_text (s : String) : (text s).chars = '\"' :: s.toList ++ ['\"'] := rfl

theorem chars_list (items : List Value) : (list items).chars = '(' :: itemsChars items ++ [')'] :=
  rfl

theorem itemsChars_cons_cons (v w : Value) (vs : List Value) :
    itemsChars (v :: w :: vs) = v.chars ++ ' ' :: itemsChars (w :: vs) := rfl

/-- The values that are written in such a way that they can be read back. -/
inductive Readable : Value → Prop
  | int (n : Int64) : Readable (.int n)
  | real {x : Float} : x.isFinite = true → Readable (.real x)
  | bool (b : Bool) : Readable (.bool b)
  | marker {name : String} : (∀ c ∈ name.toList, isDelimiter c = false) →
      Literal.Marks name.toList → Readable (.marker name)
  | symbol {name : String} : name ≠ "" → (∀ c ∈ name.toList, isDelimiter c = false) →
      Literal.atom? name.toList = some (.symbol name) → Readable (.symbol name)
  | text {s : String} : Literal.Plain s.toList → Readable (.text s)
  | list {items : List Value} : (∀ v ∈ items, Readable v) → Readable (.list items)

/-- The characters are read as the value wherever blanks or nothing stand before them and a
delimiter or nothing behind them. -/
def ReadsAs (cs : List Char) (v : Value) : Prop :=
  ∀ (s : Scanner) (gap later : List Char), s.rest = gap ++ (cs ++ later) →
    (∀ c ∈ gap, Text.isBlank c = true) → (∀ c ∈ later.head?, isDelimiter c = true) →
    ∃ tokens s', s.Takes tokens s' ∧ s'.rest = later ∧ Form tokens v

/-- An atom is read up to the delimiter behind it. -/
theorem readsAs_atom {cs : List Char} {v : Value} (filled : cs ≠ [])
    (inside : ∀ c ∈ cs, isDelimiter c = false) (value : Literal.atom? cs = some v) :
    ReadsAs cs v := by
  intro s gap later whole blank apart
  have ends : TokenKind.atom.EndsBefore later := by
    cases later with
    | nil => exact trivial
    | cons c _ => exact apart c rfl
  have spelled : TokenKind.atom.Spells cs := ⟨filled, inside⟩
  obtain ⟨start, s', next, rest⟩ := Scanner.next_of_spells whole blank spelled nofun ends
  exact ⟨_, s', Scanner.Takes.singleton_iff.mpr next, rest, .literal value⟩

/-- What two quotes enclose is read as a text, whatever stands behind them. -/
theorem form_of_enclosed {inner : List Char} (enclosed : Token.Enclosed inner) {s : Scanner}
    {gap later : List Char} (whole : s.rest = gap ++ ('\"' :: inner ++ ['\"'] ++ later))
    (blank : ∀ c ∈ gap, Text.isBlank c = true) :
    ∃ tokens s', s.Takes tokens s' ∧ s'.rest = later ∧
      Form tokens (.text (String.ofList (Literal.unescape inner))) := by
  have spelled : TokenKind.string.Spells ('\"' :: inner ++ ['\"']) :=
    Token.spells_string_iff.mpr ⟨inner, rfl, enclosed⟩
  obtain ⟨start, s', next, rest⟩ := Scanner.next_of_spells whole blank spelled (by simp)
    (TokenKind.endsBefore_of_not_mem (by decide) later)
  refine ⟨_, s', Scanner.Takes.singleton_iff.mpr next, rest, .literal ?_⟩
  rw [Token.value?, Literal.string_quoted]

/-- A text without escapes in it is read back from between its quotes. -/
theorem readsAs_text {s : String} (plain : Literal.Plain s.toList) :
    ReadsAs (text s).chars (.text s) := by
  intro u gap later whole blank apart
  rw [chars_text] at whole
  obtain ⟨tokens, u', takes, rest, form⟩ := form_of_enclosed plain.enclosed whole blank
  rw [Literal.unescape_of_plain plain, String.ofList_toList] at form
  exact ⟨tokens, u', takes, rest, form⟩

/-- The elements of a list are read one after the other: a space keeps each from the next. -/
theorem forms_of_itemsChars {items : List Value} (readable : ∀ v ∈ items, ReadsAs v.chars v)
    (s : Scanner) (gap later : List Char) (whole : s.rest = gap ++ (itemsChars items ++ later))
    (blank : ∀ c ∈ gap, Text.isBlank c = true) (apart : ∀ c ∈ later.head?, isDelimiter c = true) :
    ∃ tokens s' gap', s.Takes tokens s' ∧ s'.rest = gap' ++ later ∧
      (∀ c ∈ gap', Text.isBlank c = true) ∧ Forms tokens items := by
  induction items generalizing s gap with
  | nil => exact ⟨[], s, gap, .nil, whole, blank, .nil⟩
  | cons v items ih =>
    obtain ⟨here, others⟩ := List.forall_mem_cons.mp readable
    cases items with
    | nil =>
      obtain ⟨tokens, s', takes, rest, form⟩ := here s gap later whole blank apart
      exact ⟨tokens ++ [], s', [], by simpa using takes, rest, by simp, .cons form .nil⟩
    | cons w items =>
      have whole : s.rest = gap ++ (v.chars ++ ' ' :: (itemsChars (w :: items) ++ later)) := by
        simpa [itemsChars_cons_cons] using whole
      obtain ⟨tokens, u, takes, rest, form⟩ :=
        here s gap _ whole blank (by simp [isDelimiter, Text.isBlank])
      obtain ⟨tokens', s', gap', takes', rest', blank', forms⟩ :=
        ih others u [' '] rest (by simp [Text.isBlank])
      exact ⟨tokens ++ tokens', s', gap', Scanner.Takes.append_iff.mpr ⟨u, takes, takes'⟩, rest',
        blank', .cons form forms⟩

/-- A list is read back if its elements are, since blanks stand between them. -/
theorem readsAs_list {items : List Value} (readable : ∀ v ∈ items, ReadsAs v.chars v) :
    ReadsAs (list items).chars (.list items) := by
  intro s gap later whole blank apart
  have whole : s.rest = gap ++ (['('] ++ (itemsChars items ++ ')' :: later)) := by
    simpa [chars_list] using whole
  have opens : TokenKind.opening.Spells ['('] := rfl
  have closes : TokenKind.closing.Spells [')'] := rfl
  obtain ⟨start, u, opening, inside⟩ :=
    Scanner.next_of_spells whole blank opens (by decide) (TokenKind.endsBefore_of_not_mem (by decide) _)
  obtain ⟨tokens, u', gap', takes, behind, blank', forms⟩ :=
    forms_of_itemsChars readable u [] (')' :: later) inside (List.forall_mem_nil _) (by simp [isDelimiter])
  have behind : u'.rest = gap' ++ ([')'] ++ later) := behind
  have ends : TokenKind.closing.EndsBefore later := TokenKind.endsBefore_of_not_mem (by decide) _
  obtain ⟨finish, s', closing, rest⟩ :=
    Scanner.next_of_spells behind blank' closes (by decide) ends
  have all := Scanner.Takes.append_iff.mpr ⟨u', takes, Scanner.Takes.singleton_iff.mpr closing⟩
  exact ⟨_, s', .cons opening all, rest, .list rfl forms rfl⟩

/-- The written form of a readable value is read as the value. -/
theorem Readable.readsAs {v : Value} (readable : Readable v) : ReadsAs v.chars v := by
  induction readable with
  | int n =>
    obtain ⟨filled, inside⟩ := Literal.integerText_inside n.toInt
    exact readsAs_atom filled inside (Literal.atom?_integerText n)
  | @real x finite =>
    obtain ⟨filled, inside⟩ := Decimal.realText_inside finite
    exact readsAs_atom filled inside (Literal.atom?_realText finite)
  | bool b =>
    have filled : (Value.bool b).chars ≠ [] := by cases b <;> nofun
    have inside : ∀ c ∈ (Value.bool b).chars, isDelimiter c = false := by
      cases b <;> exact inside_of_all rfl
    exact readsAs_atom filled inside (Literal.atom?_bool b)
  | @marker name inside marks =>
    have filled : name.toList ≠ [] := by
      obtain ⟨before, c, after, split, -⟩ := marks
      simp [split]
    exact readsAs_atom filled inside (Literal.atom?_marker marks)
  | @symbol name filled inside value =>
    have filled : name.toList ≠ [] := by simpa using filled
    exact readsAs_atom filled inside value
  | text plain => exact readsAs_text plain
  | list _ ih => exact readsAs_list ih

end Value

/-- What is read as a value anywhere is read as it at the start of a text. -/
theorem Value.ReadsAs.read {cs : List Char} {v : Value} (reads : ReadsAs cs v) :
    SmallLisp.read cs = .ok v := by
  have whole : (Scanner.ofSource cs).rest = [] ++ (cs ++ []) := by simp [Scanner.ofSource]
  obtain ⟨tokens, s', takes, -, form⟩ := reads (.ofSource cs) [] [] whole nofun nofun
  rw [SmallLisp.read, Scanner.readForm_eq_ok_iff.mpr ⟨tokens, takes, form⟩]

/-- Reading gives back what was written: for every readable value, however deeply its lists are
nested, the first form of its written form is the value itself. -/
theorem read_written_of_readable {v : Value} (readable : v.Readable) :
    read v.written.toList = .ok v := by
  rw [Value.written, String.toList_ofList]
  exact readable.readsAs.read

/-- A list of one value of each kind: numbers at the ends of their range, an empty list, and a text
with a harmless backslash, a space, a parenthesis and a semicolon. -/
theorem read_written_of_readable_mixed_list :
    let v : Value := .list [.int Int64.minValue, .real (-0.0), .real 1e-7, .bool true,
      .marker "a#:n", .symbol "-", .list [], .list [.text "\\d (;"]]
    v.Readable ∧ read v.written.toList = .ok v := by
  intro v
  have plain : Literal.Plain "\\d (;".toList := by
    simp [Literal.plain_cons_iff, Literal.plain_nil]
  have marks : Literal.Marks "a#:n".toList := ⟨['a'], 'n', [], rfl, .inl rfl⟩
  have readable : v.Readable := by
    refine .list ?_
    simp only [List.forall_mem_cons]
    exact ⟨.int _, .real rfl, .real rfl, .bool _, .marker (inside_of_all rfl) marks,
      .symbol (by decide) (inside_of_all rfl) rfl, .list nofun,
      .list (by simpa using .text plain), nofun⟩
  exact ⟨readable, read_written_of_readable readable⟩

/-! ### String literals -/

/-- Only a string literal is a form of a text. -/
theorem Form.text_inv {tokens : List Token} {t : String} (form : Form tokens (.text t)) :
    ∃ token, tokens = [token] ∧ token.kind = .string ∧ Literal.string token.lexeme = .text t := by
  cases form with
  | @literal token _ value =>
    unfold Token.value? at value
    split at value
    · next kind =>
      unfold Literal.atom? at value
      repeat' split at value
      all_goals cases value
    · next kind =>
      cases value
      exact ⟨token, rfl, kind, rfl⟩
    · cases value

/-- A text whose written form reads back is plain. -/
theorem plain_of_read_chars {t : String} (reads : read (Value.text t).chars = .ok (.text t)) :
    Literal.Plain t.toList := by
  rw [Value.chars_text] at reads
  obtain ⟨s', ran⟩ : ∃ s', (Scanner.ofSource _).readForm = (.ok (.text t), s') :=
    ⟨_, Prod.ext reads rfl⟩
  obtain ⟨tokens, takes, form⟩ := Scanner.readForm_eq_ok_iff.mp ran
  obtain ⟨token, rfl, kind, value⟩ := form.text_inv
  obtain ⟨gap, trivia, spelled, -⟩ :=
    Scanner.next_eq_ok_iff.mp (Scanner.Takes.singleton_iff.mp takes)
  have settled : Token.Settled ('\"' :: t.toList ++ ['\"']) := ⟨rfl, by decide⟩
  rw [Scanner.ofSource, Token.splitTrivia_of_settled settled] at trivia
  have whole := (Prod.mk.inj trivia).2
  rw [kind] at spelled
  obtain ⟨inner, lexeme, enclosed⟩ := Token.spells_string_iff.mp spelled
  rw [lexeme, ← List.cons_append, Literal.string_quoted] at value
  have kept : Literal.unescape inner = t.toList := by
    rw [← Value.text.inj value, String.toList_ofList]
  rw [lexeme] at whole
  have whole : t.toList ++ ['\"'] = inner ++ ['\"'] ++ s'.rest := (List.cons.inj whole).2
  -- The literal reaches to the last quote: one that ends before has too few characters left for the
  -- text, since escapes only make it shorter.
  have shorter := Literal.unescape_length_le inner
  have lengths := congrArg List.length whole
  simp only [List.length_append, List.length_singleton] at lengths
  rw [kept] at shorter
  have nothing : s'.rest = [] := List.length_eq_zero_iff.mp (by omega)
  rw [nothing, List.append_nil] at whole
  rw [List.append_cancel_right whole] at kept ⊢
  exact Literal.plain_of_unescape_eq kept (enclosed.splitString_eq [])

/-- Of the string literals, those read back whose text is plain. A source text that begins with a
string literal reads as a text, whatever follows, and the written form of this text reads as the
same text if and only if it has no quote and no backslash that makes an escape. -/
theorem string_literal_reads_back_iff {source : List Char} {token : Token} {s' : Scanner}
    (first : (Scanner.ofSource source).next = (.ok token, s')) (literal : token.kind = .string) :
    ∃ t, read source = .ok (.text t) ∧
      (read (Value.text t).written.toList = .ok (.text t) ↔ Literal.Plain t.toList) := by
  have value : token.value? = some (Literal.string token.lexeme) := by
    simp only [Token.value?, literal]
  have takes := Scanner.Takes.singleton_iff.mpr first
  obtain ⟨t, text⟩ : ∃ t, Literal.string token.lexeme = .text t := ⟨_, rfl⟩
  rw [text] at value
  refine ⟨t, ?_, ?_⟩
  · rw [read, Scanner.readForm_eq_ok_iff.mpr ⟨[token], takes, .literal value⟩]
  · rw [Value.written, String.toList_ofList]
    exact ⟨plain_of_read_chars, fun plain => (Value.readsAs_text plain).read⟩

/-- The literal `"a\\"b"` stands for a text with a quote, which does not read back: its written form
ends at that quote. -/
theorem string_literal_reads_back_iff_quote :
    let source := "\"a\\\"b\" 1".toList
    let token : Token := ⟨.string, "\"a\\\"b\"".toList, ⟨0, 1, 1⟩⟩
    (Scanner.ofSource source).next = (.ok token, ⟨source, ⟨6, 1, 7⟩, " 1".toList⟩) ∧
      token.kind = .string ∧ read source = .ok (.text "a\"b") ∧
      read (Value.text "a\"b").written.toList ≠ .ok (.text "a\"b") := by
  intro source token
  refine ⟨rfl, rfl, rfl, fun reads => ?_⟩
  obtain ⟨t, same, iff⟩ := @string_literal_reads_back_iff source token _ rfl rfl
  cases same
  exact absurd (by decide) (iff.mp reads).1

end SmallLisp
