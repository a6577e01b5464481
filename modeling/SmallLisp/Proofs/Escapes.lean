import SmallLisp.Proofs.RoundTrip

/-!
String literals and their escapes.

Where a literal ends is decided character by character, and its escapes are resolved two characters
at a time. What keeps the two in step is `Token.Enclosed`: a backslash between the quotes takes the
character behind it along. Every way of writing a text (`Literal.Writes`) is enclosed, so the
literal ends at its own closing quote whatever follows, and its escapes give the text back. In the
other direction, what stands between the quotes of a token is enclosed, so no backslash is the last
character there (`Literal.unescape?`).
-/

namespace SmallLisp

namespace Literal

/-! ### Writing a text -/

/-- The characters that make an escape with a backslash before them, each with what it
stands for. -/
def escapes : List (Char × Char) :=
  [('n', '\n'), ('t', '\t'), ('\"', '\"'), ('\\', '\\')]

/-- The text can be written as the characters between two quotes: a backslash and a quote by their
escapes, a newline and a tab by themselves or by their escapes, and any other character
by itself. -/
inductive Writes : List Char → List Char → Prop
  | nil : Writes [] []
  | itself {c : Char} {t body : List Char} : c ≠ '\"' → c ≠ '\\' → Writes t body →
    Writes (c :: t) (c :: body)
  | escape {c d : Char} {t body : List Char} : (d, c) ∈ escapes → Writes t body →
    Writes (c :: t) ('\\' :: d :: body)

/-- Every text can be written. -/
theorem exists_writes (t : List Char) : ∃ body, Writes t body := by
  induction t with
  | nil => exact ⟨[], .nil⟩
  | cons c t ih =>
    obtain ⟨body, writes⟩ := ih
    by_cases special : c = '\"' ∨ c = '\\'
    · rcases special with rfl | rfl
      · exact ⟨'\\' :: '\"' :: body, .escape (by simp [escapes]) writes⟩
      · exact ⟨'\\' :: '\\' :: body, .escape (by simp [escapes]) writes⟩
    · obtain ⟨quote, backslash⟩ := not_or.mp special
      exact ⟨c :: body, .itself quote backslash writes⟩

/-- A written text can stand between quotes, since it hides every quote by a backslash. -/
theorem Writes.enclosed {t body : List Char} (writes : Writes t body) : Token.Enclosed body := by
  induction writes with
  | nil => exact .nil
  | itself quote backslash _ ih => exact .plain quote backslash ih
  | escape _ _ ih => exact .escape ih

/-! ### Resolving the escapes -/

/-- What a backslash and the character behind it stand for. -/
def escaped (d : Char) : List Char :=
  match escapes.lookup d with
  | some c => [c]
  | none => ['\\', d]

/-- The characters inside a string literal with its escapes resolved; nothing when a backslash has
no character behind it. -/
def unescape? : List Char → Option (List Char)
  | [] => some []
  | ['\\'] => none
  | '\\' :: d :: cs => (unescape? cs).map (escaped d ++ ·)
  | c :: cs => (unescape? cs).map (c :: ·)

theorem unescape_cons {c : Char} (backslash : c ≠ '\\') (cs : List Char) :
    unescape (c :: cs) = c :: unescape cs := by
  rw [unescape] <;> simp [backslash]

/-- A backslash and the character behind it are resolved together. -/
theorem unescape_escape (d : Char) (cs : List Char) :
    unescape ('\\' :: d :: cs) = escaped d ++ unescape cs := by
  by_cases known : d ∈ ['n', 't', '\"', '\\']
  · simp only [List.mem_cons, List.not_mem_nil, or_false] at known
    rcases known with rfl | rfl | rfl | rfl <;> rw [unescape] <;> rfl
  · simp only [List.mem_cons, List.not_mem_nil, or_false, not_or] at known
    obtain ⟨newline, tab, quote, backslash⟩ := known
    have unknown : escapes.lookup d = none :=
      List.lookup_eq_none_iff.mpr (by simp [escapes, newline, tab, quote, backslash])
    rw [escaped, unknown, unescape] <;> simp [newline, tab, quote, backslash]

/-- The escapes of the table stand for their one character. -/
theorem escaped_of_mem {c d : Char} (member : (d, c) ∈ escapes) : escaped d = [c] := by
  simp only [escapes, List.mem_cons, Prod.mk.injEq, List.not_mem_nil, or_false] at member
  rcases member with ⟨rfl, rfl⟩ | ⟨rfl, rfl⟩ | ⟨rfl, rfl⟩ | ⟨rfl, rfl⟩ <;> rfl

/-- Resolving the escapes of a written text gives the text back. -/
theorem Writes.unescape_eq {t body : List Char} (writes : Writes t body) : unescape body = t := by
  induction writes with
  | nil => rw [unescape]
  | itself _ backslash _ ih => rw [unescape_cons backslash, ih]
  | escape member _ ih => rw [unescape_escape, escaped_of_mem member, ih, List.singleton_append]

end Literal

/-- No backslash between quotes is without a character behind it. -/
theorem Token.Enclosed.unescape?_eq {inner : List Char} (enclosed : Token.Enclosed inner) :
    Literal.unescape? inner = some (Literal.unescape inner) := by
  induction enclosed with
  | nil => rw [Literal.unescape?, Literal.unescape]
  | plain _ backslash _ ih =>
    rw [Literal.unescape_cons backslash, Literal.unescape?, ih, Option.map_some]
    all_goals simp [backslash]
  | escape _ ih => rw [Literal.unescape_escape, Literal.unescape?, ih, Option.map_some]

/-! ### Reading a literal -/

/-- A literal that writes a text is read as the text, whatever stands behind its closing quote. -/
theorem Literal.Writes.read_eq {t body : List Char} (writes : Literal.Writes t body)
    (later : List Char) :
    read ('\"' :: (body ++ '\"' :: later)) = .ok (.text (String.ofList t)) := by
  have whole : (Scanner.ofSource ('\"' :: (body ++ '\"' :: later))).rest =
      [] ++ ('\"' :: body ++ ['\"'] ++ later) := by simp [Scanner.ofSource]
  obtain ⟨tokens, s', takes, -, form⟩ := Value.form_of_enclosed writes.enclosed whole (by simp)
  rw [writes.unescape_eq] at form
  rw [read, Scanner.readForm_eq_ok_iff.mpr ⟨tokens, takes, form⟩]

/-- Every text has a literal, and a literal that writes a text is read as it, whatever follows. In
the other direction, the text of every string token comes from the characters between its first and
its last, which are quotes, and no backslash among them is without a character behind it. -/
theorem string_literals_decoded :
    (∀ t, ∃ body, Literal.Writes t body) ∧
    (∀ t body later, Literal.Writes t body →
      read ('\"' :: (body ++ '\"' :: later)) = .ok (.text (String.ofList t))) ∧
    ∀ (s s' : Scanner) (token : Token), s.next = (.ok token, s') → token.kind = .string →
      ∃ inner t, token.lexeme = '\"' :: (inner ++ ['\"']) ∧
        (token.lexeme.drop 1).dropLast = inner ∧ Literal.unescape? inner = some t ∧
        Literal.string token.lexeme = .text (String.ofList t) := by
  refine ⟨Literal.exists_writes, fun t body later writes => writes.read_eq later, ?_⟩
  intro s s' token next kind
  obtain ⟨gap, -, spelled, -⟩ := Scanner.next_eq_ok_iff.mp next
  rw [kind] at spelled
  obtain ⟨inner, lexeme, enclosed⟩ := Token.spells_string_iff.mp spelled
  refine ⟨inner, Literal.unescape inner, lexeme, ?_, enclosed.unescape?_eq, ?_⟩
  · simp [lexeme]
  · rw [lexeme, ← List.cons_append, Literal.string_quoted]

/-- A literal with a backslash, a quote, a newline as it is and as an escape, and a tab as an
escape, before a literal that is not closed. -/
theorem string_literals_decoded_mixed :
    let t := "\\\"\n\t\n".toList
    let body := "\\\\\\\"\n\\t\\n".toList
    let source := '\"' :: (body ++ '\"' :: "(\"".toList)
    let token : Token := ⟨.string, '\"' :: (body ++ ['\"']), ⟨0, 1, 1⟩⟩
    Literal.Writes t body ∧ read source = .ok (.text (String.ofList t)) ∧
      (Scanner.ofSource source).next = (.ok token, ⟨source, ⟨11, 2, 6⟩, "(\"".toList⟩) ∧
      ∃ inner t, token.lexeme = '\"' :: (inner ++ ['\"']) ∧
        (token.lexeme.drop 1).dropLast = inner ∧ Literal.unescape? inner = some t ∧
        Literal.string token.lexeme = .text (String.ofList t) := by
  intro t body source token
  have writes : Literal.Writes t body :=
    .escape (by decide) (.escape (by decide) (.itself (by decide) (by decide)
      (.escape (by decide) (.escape (by decide) .nil))))
  have next : (Scanner.ofSource source).next =
      (.ok token, ⟨source, ⟨11, 2, 6⟩, "(\"".toList⟩) := by rfl
  obtain ⟨-, reads, decoded⟩ := string_literals_decoded
  exact ⟨writes, reads t body _ writes, next, decoded _ _ token next rfl⟩

end SmallLisp
