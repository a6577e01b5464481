import SmallLisp.Source.SourceError
import SmallLisp.Source.Token

/-!
Taking tokens off a source text one at a time.

A scanner is the unread rest of a text together with the position it stands at. `Scanner.next`
takes one token off; at the end it gives the token `finish` again and again, and after a string
literal that is never closed nothing is left to read.
-/

namespace SmallLisp

/-- A source text read up to a position, with what is still unread. -/
structure Scanner where
  source : List Char
  position : Position
  rest : List Char
deriving DecidableEq, Repr

namespace Scanner

def ofSource (source : List Char) : Scanner :=
  ⟨source, .start, source⟩

def next (s : Scanner) : Except SourceError Token × Scanner :=
  let parts := Token.splitTrivia false s.rest
  let start := s.position.after parts.1
  match Token.splitLexeme parts.2 with
  | some (kind, lexeme, unread) =>
    (.ok ⟨kind, lexeme, start⟩, ⟨s.source, start.after lexeme, unread⟩)
  | none =>
    (.error (.unterminatedString start (sourceLine (start.line - 1) s.source)),
      ⟨s.source, start.after parts.2, []⟩)

/-- Every token but the last takes characters off. -/
theorem next_rest_lt {s s' : Scanner} {token : Token} (h : s.next = (.ok token, s'))
    (more : token.kind ≠ .finish) : s'.rest.length < s.rest.length := by
  unfold next at h
  have whole := congrArg List.length (Token.splitTrivia_append false s.rest)
  rw [List.length_append] at whole
  dsimp only at h
  split at h
  · next kind lexeme unread found =>
    simp only [Prod.mk.injEq, Except.ok.injEq] at h
    obtain ⟨rfl, rfl⟩ := h
    have divided := congrArg List.length (Token.splitLexeme_append found)
    have taken := List.length_pos_iff.2 (Token.splitLexeme_ne_nil found more)
    rw [List.length_append] at divided
    dsimp only
    omega
  · simp at h

/-- At most `count` tokens, up to and with the first `finish`. -/
def take : Nat → Scanner → Except SourceError (List Token)
  | 0, _ => .ok []
  | count + 1, s =>
    match s.next with
    | (.error e, _) => .error e
    | (.ok token, s) =>
      if token.kind = .finish then .ok [token]
      else (take count s).map (token :: ·)

end Scanner

/-- All tokens of a text, with the `finish` that ends them. Each token takes at least one character,
so there are at most as many as characters besides `finish`. -/
def tokenize (source : List Char) : Except SourceError (List Token) :=
  (Scanner.ofSource source).take (source.length + 1)

end SmallLisp
