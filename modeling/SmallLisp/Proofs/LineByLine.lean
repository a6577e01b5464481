import SmallLisp.Proofs.Tiling

/-!
Scanning a text line by line.

A newline ends whatever could reach over it, except a string literal: comments and atoms stop there,
and a comma before it is not the beginning of another mark. So a text `a` whose tokens are complete
can be scanned before the text `b` below it: the tokens of `b` are the same with and without `a`,
only lower down (`Scanner.scans_below`), and those of `a` come before them (`tokenize_newline`).
-/

namespace SmallLisp

/-! ### Below another text -/

namespace Position

/-- The place `p` of a text, when the text stands below `a`: the bytes and lines of `a` are counted,
with the newline that ends it, and the column is the same. -/
def below (a : List Char) (p : Position) : Position :=
  ⟨p.offset + (String.utf8Len a + 1), p.line + (a.count '\n' + 1), p.column⟩

/-- Going one character further and standing below another text commute. -/
theorem next_below (a : List Char) (p : Position) (c : Char) :
    (p.below a).next c = (p.next c).below a := by
  unfold next below
  split <;> simp only [mk.injEq, and_true] <;> omega

theorem after_below (a : List Char) (p : Position) (cs : List Char) :
    (p.below a).after cs = (p.after cs).below a := by
  induction cs generalizing p with
  | nil => rfl
  | cons c cs ih => rw [after_cons, next_below, ih, after_cons]

/-- The line of a place grows by the newlines that are passed. -/
theorem after_line (p : Position) (cs : List Char) :
    (p.after cs).line = p.line + cs.count '\n' := by
  induction cs generalizing p with
  | nil => rfl
  | cons c cs ih =>
    rw [after_cons, ih, List.count_cons, next]
    by_cases newline : c = '\n' <;> simp [newline]
    omega

/-- Behind a text and a newline begins what stands below them. -/
theorem start_after_newline (a : List Char) : start.after (a ++ ['\n']) = start.below a := by
  have offset := after_offset start a
  have line := after_line start a
  have byte : '\n'.utf8Size = 1 := by decide
  rw [after_append, after_cons, after_nil, next, if_pos rfl, offset, line, byte]
  simp only [below, start, mk.injEq, and_true]
  omega

end Position

def Token.below (a : List Char) (token : Token) : Token :=
  { token with start := token.start.below a }

def SourceError.below (a : List Char) : SourceError → SourceError
  | unterminatedString start line => unterminatedString (start.below a) line
  | unbalanced opening => unbalanced (opening.below a)
  | unexpectedClosing start => unexpectedClosing (start.below a)
  | unknownAtom lexeme start => unknownAtom lexeme (start.below a)
  | endAfterMark mark start => endAfterMark mark (start.below a)
  | endOfInput start => endOfInput (start.below a)

/-- An error below another text is shown with the same code, message, column and source line. -/
theorem SourceError.diagnostic_below (a : List Char) (e : SourceError) :
    (e.below a).diagnostic = { e.diagnostic with
      offset := e.diagnostic.offset.map (· + (String.utf8Len a + 1))
      line := e.diagnostic.line.map (· + (a.count '\n' + 1)) } := by
  cases e <;> rfl

/-- The lines of a text are the same below another text. -/
theorem sourceLine_below (n : Nat) (a b : List Char) :
    sourceLine (n + (a.count '\n' + 1)) (a ++ '\n' :: b) = sourceLine n b := by
  induction a with
  | nil => simp [sourceLine]
  | cons c a ih =>
    rw [List.count_cons]
    by_cases newline : c = '\n'
    · subst newline
      simpa [sourceLine] using ih
    · simpa [sourceLine, newline] using ih

namespace Token

/-! ### Across the newline -/

/-- Trivia up to the end of a text goes on behind a newline. -/
theorem splitTrivia_newline {inComment : Bool} {cs : List Char}
    (nothing : (splitTrivia inComment cs).2 = []) (b : List Char) :
    splitTrivia inComment (cs ++ '\n' :: b) =
      (cs ++ '\n' :: (splitTrivia false b).1, (splitTrivia false b).2) := by
  fun_induction splitTrivia inComment cs with
  | case1 inComment => cases inComment <;> rfl
  | case2 c cs skipped rest divided ih =>
    rw [divided] at ih
    simp only [List.cons_append, splitTrivia, ih nothing]
  | case3 c cs trivia skipped rest divided ih =>
    rw [divided] at ih
    simp only [List.cons_append, splitTrivia, trivia, ih nothing, if_true]
  | case4 => cases nothing

end Token

/-- A newline prolongs no token. -/
theorem TokenKind.EndsBefore.newline {kind : TokenKind} {rest : List Char}
    (ends : kind.EndsBefore rest) (more : kind ≠ .finish) (b : List Char) :
    kind.EndsBefore (rest ++ '\n' :: b) := by
  cases rest with
  | nil =>
    cases kind with
    | finish => exact absurd rfl more
    | atom => exact (by decide : isDelimiter '\n' = true)
    | unquote => exact (by decide : '\n' ≠ '@')
    | _ => exact trivial
  | cons => cases kind <;> exact ends

namespace Scanner

/-! ### The loop over all tokens -/

/-- The tokens of a loop that comes to the end are those before the end and the end. -/
theorem Scans.takes {s : Scanner} {result : Except SourceError (List Token)}
    (scans : s.Scans result) {tokens : List Token} (ok : result = .ok tokens) :
    ∃ front u, tokens = front ++ [s.finish] ∧ s.Takes front u ∧
      (∀ token ∈ front, token.kind ≠ .finish) ∧ (Token.splitTrivia false u.rest).2 = [] := by
  induction scans generalizing tokens with
  | failed => cases ok
  | @last s s' token next kind =>
    cases ok
    obtain ⟨same, -, nothing⟩ := next_finish next kind
    obtain ⟨gap, split, spelled, -⟩ := next_eq_ok_iff.mp next
    rw [kind] at spelled
    refine ⟨[], s, by rw [same]; rfl, .nil, List.forall_mem_nil _, ?_⟩
    rw [split, nothing, show token.lexeme = [] from spelled]
    rfl
  | @more s s' token result next kind _ ih =>
    cases result with
    | error => cases ok
    | ok others =>
      cases ok
      obtain ⟨front, u, rfl, takes, more, trivia⟩ := ih rfl
      refine ⟨token :: front, u, by rw [finish_next next]; rfl, .cons next takes, ?_, trivia⟩
      exact List.forall_mem_cons.mpr ⟨kind, more⟩

/-- Tokens that are taken first come first in the result of the loop. -/
theorem Takes.scans {s u : Scanner} {front : List Token} (takes : s.Takes front u)
    (more : ∀ token ∈ front, token.kind ≠ .finish) {result : Except SourceError (List Token)}
    (scans : u.Scans result) : s.Scans (result.map (front ++ ·)) := by
  induction takes with
  | nil =>
    cases result <;> exact scans
  | @cons s v u token front next _ ih =>
    obtain ⟨here, others⟩ := List.forall_mem_cons.mp more
    have behind := Scans.more next here (ih others scans)
    cases result <;> exact behind

/-- The last token taken is not prolonged by what is left. -/
theorem Takes.last_endsBefore {s u : Scanner} {tokens : List Token} (takes : s.Takes tokens u) :
    ∀ last ∈ tokens.getLast?, last.kind.EndsBefore u.rest := by
  intro last member
  obtain ⟨front, rfl⟩ := List.getLast?_eq_some_iff.mp member
  obtain ⟨v, -, final⟩ := append_iff.mp takes
  obtain ⟨gap, -, -, ends, -⟩ := next_eq_ok_iff.mp (singleton_iff.mp final)
  exact ends

/-! ### The scanner of a text below another -/

def below (a : List Char) (s : Scanner) : Scanner :=
  ⟨a ++ '\n' :: s.source, s.position.below a, s.rest⟩

/-- What comes of a text, when the text stands below `a`. -/
def resultBelow {α : Type} (a : List Char) (move : α → α) :
    Except SourceError α → Except SourceError α
  | .ok value => .ok (move value)
  | .error e => .error (e.below a)

/-- A call gives the same below another text. -/
theorem next_below (a : List Char) {s : Scanner} (counted : 1 ≤ s.position.line) :
    (s.below a).next = (resultBelow a (Token.below a) s.next.1, s.next.2.below a) := by
  have sameLine : ∀ gap, sourceLine (((s.position.after gap).below a).line - 1)
      (a ++ '\n' :: s.source) = sourceLine ((s.position.after gap).line - 1) s.source := by
    intro gap
    have line := Position.after_line s.position gap
    rw [← sourceLine_below ((s.position.after gap).line - 1) a s.source]
    congr 1
    simp only [Position.below]
    omega
  unfold next below
  dsimp only
  rw [Position.after_below, sameLine]
  split
  · simp only [resultBelow, Token.below, Position.after_below]
  · simp only [resultBelow, SourceError.below, Position.after_below]

/-- The loop gives the same below another text. -/
theorem scans_below (a : List Char) {s : Scanner} {result : Except SourceError (List Token)}
    (scans : s.Scans result) (counted : 1 ≤ s.position.line) :
    (s.below a).Scans (resultBelow a (List.map (Token.below a)) result) := by
  induction scans with
  | failed next =>
    have here := next_below a counted
    rw [next] at here
    exact .failed here
  | last next kind =>
    have here := next_below a counted
    rw [next] at here
    exact .last here kind
  | @more s s' token result next kind _ ih =>
    have here := next_below a counted
    rw [next] at here
    have further : 1 ≤ s'.position.line := by
      obtain ⟨gap, -, -, -, start, same⟩ := next_eq_ok_iff.mp next
      rw [same]
      simp only [start, Position.after_line]
      omega
    have behind := Scans.more here kind (ih further)
    cases result <;> exact behind

/-- Behind trivia that goes on to a newline, a scanner gives what it gives below the newline. -/
theorem next_newline {source gap b : List Char} {p : Position}
    (trivia : (Token.splitTrivia false gap).2 = []) :
    next ⟨source, p, gap ++ '\n' :: b⟩ = next ⟨source, p.after (gap ++ ['\n']), b⟩ := by
  have moved : p.after (gap ++ '\n' :: (Token.splitTrivia false b).1) =
      (p.after (gap ++ ['\n'])).after (Token.splitTrivia false b).1 := by
    rw [← Position.after_append, List.append_assoc, List.singleton_append]
  unfold next
  dsimp only
  rw [Token.splitTrivia_newline trivia, moved]

/-- The loop goes on below the newline. -/
theorem scans_newline {source gap b : List Char} {p : Position}
    {result : Except SourceError (List Token)} (trivia : (Token.splitTrivia false gap).2 = [])
    (scans : Scans ⟨source, p.after (gap ++ ['\n']), b⟩ result) :
    Scans ⟨source, p, gap ++ '\n' :: b⟩ result := by
  cases scans with
  | failed next => exact .failed ((next_newline trivia).trans next)
  | last next kind => exact .last ((next_newline trivia).trans next) kind
  | more next kind others => exact .more ((next_newline trivia).trans next) kind others

end Scanner

/-- Texts are scanned line by line. If the text `a` has tokens, then below it the text `b` has the
tokens that it has by itself, or fails as it fails by itself: with the same kinds, characters and
columns, or with the same code, message, column and source line, while offsets and lines count what
stands above. The tokens of `a` up to its end come before them. -/
theorem tokenize_newline {a : List Char} {tokens : List Token} (scanned : tokenize a = .ok tokens)
    (b : List Char) :
    ∃ front stop, tokens = front ++ [stop] ∧ stop.kind = .finish ∧
      (tokenize (a ++ '\n' :: b) = match tokenize b with
        | .ok lower => .ok (front ++ lower.map (Token.below a))
        | .error e => .error (e.below a)) ∧
      ∀ e, tokenize b = .error e → (e.below a).diagnostic = { e.diagnostic with
        offset := e.diagnostic.offset.map (· + (String.utf8Len a + 1))
        line := e.diagnostic.line.map (· + (a.count '\n' + 1)) } := by
  obtain ⟨front, u, split, takes, more, trivia⟩ := (Scanner.tokenize_eq_iff.mp scanned).takes rfl
  refine ⟨front, _, split, rfl, ?_, fun e _ => SourceError.diagnostic_below a e⟩
  obtain ⟨taken, whole, position, again⟩ := takes.relocate more
  have whole : a = taken ++ u.rest := whole
  -- The tokens of `a` are taken off the joined text, up to what is trivia at the end of `a`.
  have first : Scanner.Takes (.ofSource (a ++ '\n' :: b)) front
      ⟨a ++ '\n' :: b, u.position, u.rest ++ '\n' :: b⟩ := by
    have moved := again (a ++ '\n' :: b) (u.rest ++ '\n' :: b) fun last member =>
      (takes.last_endsBefore last member).newline (more last (List.mem_of_getLast? member)) b
    rwa [← List.append_assoc, ← whole] at moved
  have place : u.position.after (u.rest ++ ['\n']) = Position.start.below a := by
    rw [position, ← Position.after_append, ← List.append_assoc, ← whole]
    exact Position.start_after_newline a
  have second : Scanner.Scans ⟨a ++ '\n' :: b, u.position.after (u.rest ++ ['\n']), b⟩
      (Scanner.resultBelow a (List.map (Token.below a)) (tokenize b)) := by
    rw [place]
    exact Scanner.scans_below a (Scanner.tokenize_eq_iff.mp rfl) (Nat.le_refl 1)
  have joined := first.scans more (Scanner.scans_newline trivia second)
  rw [Scanner.tokenize_eq_iff.mpr joined]
  cases tokenize b <;> rfl

/-- A comma and an at sign on the next line are two tokens, although they are one mark when nothing
stands between them. -/
theorem tokenize_newline_comma :
    let comma : Token := ⟨.unquote, [','], ⟨0, 1, 1⟩⟩
    tokenize ",".toList = .ok [comma, ⟨.finish, [], ⟨1, 1, 2⟩⟩] ∧
      tokenize "@".toList = .ok [⟨.atom, ['@'], ⟨0, 1, 1⟩⟩, ⟨.finish, [], ⟨1, 1, 2⟩⟩] ∧
      tokenize ",\n@".toList =
        .ok [comma, ⟨.atom, ['@'], ⟨2, 2, 1⟩⟩, ⟨.finish, [], ⟨3, 2, 2⟩⟩] := by
  intro comma
  have above : tokenize ",".toList = .ok [comma, ⟨.finish, [], ⟨1, 1, 2⟩⟩] := rfl
  obtain ⟨front, stop, split, -, joined, -⟩ := tokenize_newline above "@".toList
  have before : front = [comma] := by
    simpa using (congrArg List.dropLast split).symm
  refine ⟨above, rfl, joined.trans ?_⟩
  rw [before]
  rfl

end SmallLisp
