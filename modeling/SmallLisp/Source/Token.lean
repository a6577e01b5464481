import SmallLisp.Source.Position
import SmallLisp.Text.Blank

/-!
Tokens and how a source text divides into them.

Blank characters and comments, which run from a semicolon to the end of the line, stand between
tokens and are skipped. What follows is one of the marks `(`, `)`, `'`, the backquote, `,`, `,@`,
a string literal up to its closing quote, or an atom: the longest run of characters that are no
delimiters. Each division returns the part it takes and the rest, so nothing of the text is lost.
-/

namespace SmallLisp

inductive TokenKind where
  | opening
  | closing
  | quote
  | quasiquote
  | unquote
  | splice
  | string
  | atom
  | finish
deriving DecidableEq, Repr

/-- A token: its kind, the characters it is made of and where it starts. -/
structure Token where
  kind : TokenKind
  lexeme : List Char
  start : Position
deriving DecidableEq, Repr

def isDelimiter (c : Char) : Bool :=
  Text.isBlank c || c == '(' || c == ')' || c == '\'' || c == '\"' || c == '`' || c == ',' ||
    c == ';'

namespace Token

/-- The leading blank characters and comments of a text, and the rest. The flag tells whether the
text starts inside a comment. -/
def splitTrivia : Bool → List Char → List Char × List Char
  | _, [] => ([], [])
  | true, c :: cs =>
    let (skipped, rest) := splitTrivia (c ≠ '\n') cs
    (c :: skipped, rest)
  | false, c :: cs =>
    if Text.isBlank c || c == ';' then
      let (skipped, rest) := splitTrivia (c == ';') cs
      (c :: skipped, rest)
    else ([], c :: cs)

/-- The text of a string literal behind its opening quote, up to and with the closing quote, and the
rest; nothing when no quote closes it. The flag tells whether the first character is escaped. -/
def splitString : Bool → List Char → Option (List Char × List Char)
  | _, [] => none
  | true, c :: cs => (splitString false cs).map fun (body, rest) => (c :: body, rest)
  | false, c :: cs =>
    if c = '\"' then some ([c], cs)
    else (splitString (c == '\\') cs).map fun (body, rest) => (c :: body, rest)

/-- The kind and the characters of the token at the head of a text without leading trivia, and the
rest; nothing when a string literal is not closed. -/
def splitLexeme : List Char → Option (TokenKind × List Char × List Char)
  | [] => some (.finish, [], [])
  | '(' :: cs => some (.opening, ['('], cs)
  | ')' :: cs => some (.closing, [')'], cs)
  | '\'' :: cs => some (.quote, ['\''], cs)
  | '`' :: cs => some (.quasiquote, ['`'], cs)
  | ',' :: '@' :: cs => some (.splice, [',', '@'], cs)
  | ',' :: cs => some (.unquote, [','], cs)
  | '\"' :: cs => (splitString false cs).map fun (body, rest) => (.string, '\"' :: body, rest)
  | c :: cs =>
    some (.atom, c :: cs.takeWhile (!isDelimiter ·), cs.dropWhile (!isDelimiter ·))

/-! ### Nothing is lost

The parts of each division, put together again, are the text that was divided. -/

/-- Nothing is lost when trivia is split off. -/
theorem splitTrivia_append (inComment : Bool) (cs : List Char) :
    (splitTrivia inComment cs).1 ++ (splitTrivia inComment cs).2 = cs := by
  fun_induction splitTrivia inComment cs <;> simp_all

theorem splitString_append {escaped : Bool} {cs body rest : List Char}
    (h : splitString escaped cs = some (body, rest)) : body ++ rest = cs := by
  fun_induction splitString escaped cs generalizing body with
  | case1 => simp at h
  | case2 c cs ih =>
    obtain ⟨⟨body', rest'⟩, found, eq⟩ := Option.map_eq_some_iff.1 h
    simp only [Prod.mk.injEq] at eq
    obtain ⟨rfl, rfl⟩ := eq
    simp [ih found]
  | case3 cs =>
    simp only [Option.some.injEq, Prod.mk.injEq] at h
    obtain ⟨rfl, rfl⟩ := h
    simp
  | case4 c cs hc ih =>
    obtain ⟨⟨body', rest'⟩, found, eq⟩ := Option.map_eq_some_iff.1 h
    simp only [Prod.mk.injEq] at eq
    obtain ⟨rfl, rfl⟩ := eq
    simp [ih found]

/-- Nothing is lost when a token is split off. -/
theorem splitLexeme_append {cs lexeme rest : List Char} {kind : TokenKind}
    (h : splitLexeme cs = some (kind, lexeme, rest)) : lexeme ++ rest = cs := by
  unfold splitLexeme at h
  split at h
  case h_8 cs =>
    obtain ⟨⟨body, rest'⟩, found, eq⟩ := Option.map_eq_some_iff.1 h
    simp only [Prod.mk.injEq] at eq
    obtain ⟨-, rfl, rfl⟩ := eq
    simp [splitString_append found]
  all_goals
    simp only [Option.some.injEq, Prod.mk.injEq] at h
    obtain ⟨-, rfl, rfl⟩ := h
    simp

/-- Only the end of the text gives a token without characters. -/
theorem splitLexeme_ne_nil {cs lexeme rest : List Char} {kind : TokenKind}
    (h : splitLexeme cs = some (kind, lexeme, rest)) (more : kind ≠ .finish) : lexeme ≠ [] := by
  unfold splitLexeme at h
  split at h
  case h_8 cs =>
    obtain ⟨⟨body, rest'⟩, found, eq⟩ := Option.map_eq_some_iff.1 h
    simp only [Prod.mk.injEq] at eq
    obtain ⟨-, rfl, rfl⟩ := eq
    simp
  all_goals
    simp only [Option.some.injEq, Prod.mk.injEq] at h
    obtain ⟨rfl, rfl, rfl⟩ := h
    simp_all

end Token

end SmallLisp
