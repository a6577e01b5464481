import Mathlib.Algebra.Ring.Parity
import SmallLisp.Proofs.Positions

/-!
String literals that are never closed.

A character is escaped if an odd number of backslashes stands right before it (`Token.Escaped`), and
the flag of the scanner says just that (`Token.splitString_eq_none_iff`). So a call fails exactly if
a quote comes next and every quote behind it is escaped. The error stands at the quote; the line
shown with it is the one on which the quote stands, and since its column counts the characters of
that line before the quote, the caret comes to stand below the quote
(`unterminated_string_at_quote`).
-/

namespace SmallLisp

namespace Token

/-! ### Escaped quotes -/

/-- What follows is escaped: an odd number of backslashes stands right before it. -/
def Escaped (cs : List Char) : Prop :=
  Odd (cs.rtakeWhile (· = '\\')).length

theorem not_escaped_nil : ¬ Escaped [] := by
  simp [Escaped]

/-- Only a backslash that is not escaped itself escapes what follows. -/
theorem escaped_concat {cs : List Char} {c : Char} :
    Escaped (cs ++ [c]) ↔ c = '\\' ∧ ¬ Escaped cs := by
  unfold Escaped
  rw [List.rtakeWhile_concat]
  by_cases backslash : c = '\\'
  · simp [backslash, Nat.odd_add_one]
  · simp [backslash]

/-- Every quote in the text `cs`, which stands behind `before`, is escaped. -/
def QuotesEscaped (before cs : List Char) : Prop :=
  ∀ inner later, cs = inner ++ '\"' :: later → Escaped (before ++ inner)

theorem quotesEscaped_nil (before : List Char) : QuotesEscaped before [] := by
  intro inner later split
  simp at split

/-- Whether a quote is escaped shows in what stands before it. -/
theorem quotesEscaped_cons {before cs : List Char} {c : Char} : QuotesEscaped before (c :: cs) ↔
    (c = '\"' → Escaped before) ∧ QuotesEscaped (before ++ [c]) cs := by
  constructor
  · intro escaped
    refine ⟨fun quote => ?_, fun inner later split => ?_⟩
    · simpa using escaped [] cs (by rw [quote]; rfl)
    · simpa using escaped (c :: inner) later (by rw [split]; rfl)
  · rintro ⟨first, others⟩ inner later split
    cases inner with
    | nil =>
      cases split
      simpa using first rfl
    | cons d inner =>
      cases split
      simpa using others inner later rfl

/-- A string literal is not closed exactly if all quotes behind its first are escaped. The flag says
whether the text before escapes the next character. -/
theorem splitString_eq_none_iff {escaped : Bool} {before cs : List Char}
    (flag : escaped = true ↔ Escaped before) :
    splitString escaped cs = none ↔ QuotesEscaped before cs := by
  fun_induction splitString escaped cs generalizing before with
  | case1 => simp [quotesEscaped_nil]
  | case2 c cs ih =>
    have here : Escaped before := flag.mp rfl
    have next : false = true ↔ Escaped (before ++ [c]) := by simp [escaped_concat, here]
    rw [Option.map_eq_none_iff, ih next, quotesEscaped_cons]
    simp [here]
  | case3 cs =>
    have here : ¬ Escaped before := by simpa using flag
    simp [quotesEscaped_cons, here]
  | case4 c cs other ih =>
    have here : ¬ Escaped before := by simpa using flag
    have next : (c == '\\') = true ↔ Escaped (before ++ [c]) := by simp [escaped_concat, here]
    rw [Option.map_eq_none_iff, ih next, quotesEscaped_cons]
    simp [other]

theorem splitString_false_eq_none_iff {tail : List Char} :
    splitString false tail = none ↔ QuotesEscaped [] tail :=
  splitString_eq_none_iff (by simp [not_escaped_nil])

/-! ### The first character behind trivia -/

theorem settled_quote (tail : List Char) : Settled ('\"' :: tail) :=
  ⟨rfl, by decide⟩

/-- A comment without a newline goes on to the end of the text. -/
theorem splitTrivia_of_not_mem {body : List Char} (free : '\n' ∉ body) :
    splitTrivia true body = (body, []) := by
  induction body with
  | nil => rfl
  | cons c body ih =>
    obtain ⟨newline, others⟩ := List.ne_and_not_mem_of_not_mem_cons free
    simp [splitTrivia, Ne.symm newline, ih others]

/-- Trivia is skipped, up to a character that is not trivia. -/
theorem Trivia.splitTrivia_eq {gap later : List Char} (trivia : Trivia gap later)
    (settled : Settled later) : splitTrivia false (gap ++ later) = (gap, later) := by
  induction trivia with
  | nil => exact splitTrivia_of_settled settled
  | @blank c gap later blank _ ih =>
    have mark : (c == ';') = false := by
      rw [beq_eq_false_iff_ne]
      rintro rfl
      cases blank
    simp [splitTrivia, blank, mark, ih settled]
  | @comment body gap later free _ ih =>
    have inside := splitTrivia_of_not_mem free
    have behind := splitTrivia_newline (congrArg Prod.snd inside) (gap ++ later)
    rw [ih settled] at behind
    simp [splitTrivia, behind]
  | lastComment free => simp [splitTrivia, splitTrivia_of_not_mem free]

end Token

/-! ### The line of the quote -/

/-- The quote before `tail` stands on the line `front ++ '\"' :: rear` of the text, and the lines
before and behind it are `above` and `below`. -/
structure QuoteOnLine (source tail above front rear below : List Char) : Prop where
  whole : source = above ++ (front ++ '\"' :: rear) ++ below
  behind : tail = rear ++ below
  starts : EndsLine above
  free : '\n' ∉ front ++ '\"' :: rear
  ends : below = [] ∨ ∃ lower, below = '\n' :: lower

/-- Every quote stands on a line. -/
theorem exists_quoteOnLine (before tail : List Char) : ∃ above below,
    QuoteOnLine (before ++ '\"' :: tail) tail above (lastLine before)
      (tail.takeWhile (· ≠ '\n')) below ∧ before = above ++ lastLine before := by
  obtain ⟨above, split, starts, free⟩ := exists_above_lastLine before
  obtain ⟨below, behind, unbroken, ends⟩ := exists_below_line tail
  refine ⟨above, below, ⟨?_, behind, starts, ?_, ends⟩, split⟩
  · rw [← List.append_assoc, ← split, List.append_assoc, List.cons_append, ← behind]
  · intro member
    rcases List.mem_append.mp member with front | quote
    · exact free front
    · rcases List.mem_cons.mp quote with same | rear
      · cases same
      · exact unbroken rear

/-- The text of an error with a source line ends with the line and the caret below it. -/
theorem Diagnostic.exists_text_located (code message : String) (p : Position) (snippet : String) :
    ∃ head, (located code message p (some snippet)).text = head ++ "\n" ++ snippet ++ "\n" ++
      String.ofList (List.replicate (p.column - 1) ' ') ++ "^" := by
  refine ⟨"[" ++ code ++ "] " ++ message ++ (located code message p (some snippet)).placeText, ?_⟩
  simp only [text, excerpt, located, String.append_assoc]

/-! ### Calls that fail -/

namespace Scanner

open Token

/-- A call fails exactly if a quote comes next and each quote behind it is escaped. -/
theorem next_fails_iff {s : Scanner} : (∃ e s', s.next = (.error e, s')) ↔
    ∃ gap tail, s.rest = gap ++ '\"' :: tail ∧ Trivia gap ('\"' :: tail) ∧
      QuotesEscaped [] tail := by
  constructor
  · rintro ⟨e, s', failed⟩
    obtain ⟨gap, tail, split, open_, -⟩ := next_eq_error_iff.mp failed
    have whole := splitTrivia_append false s.rest
    rw [split] at whole
    exact ⟨gap, tail, whole.symm, (splitTrivia_trivia split).1 rfl,
      splitString_false_eq_none_iff.mp open_⟩
  · rintro ⟨gap, tail, rest, trivia, quotes⟩
    have split := trivia.splitTrivia_eq (settled_quote tail)
    rw [← rest] at split
    exact ⟨_, _, next_eq_error_iff.mpr
      ⟨gap, tail, split, splitString_false_eq_none_iff.mpr quotes, rfl, rfl⟩⟩

/-- The error of a scanner that stands somewhere in a text has the place of the quote and the line
on which the quote stands. -/
theorem Reached.eq_unterminatedString {source gap tail : List Char} {s s' : Scanner}
    {e : SourceError} (reached : s.Reached source) (rest : s.rest = gap ++ '\"' :: tail)
    (trivia : Trivia gap ('\"' :: tail)) (failed : s.next = (.error e, s')) :
    ∃ before, source = before ++ '\"' :: tail ∧
      e = .unterminatedString (Position.start.after before)
        (lastLine before ++ '\"' :: tail.takeWhile (· ≠ '\n')) := by
  obtain ⟨gap', tail', split, -, rfl, -⟩ := next_eq_error_iff.mp failed
  rw [rest, trivia.splitTrivia_eq (settled_quote tail)] at split
  cases split
  obtain ⟨passed, whole, same, position⟩ := reached.exists_before
  rw [rest, ← List.append_assoc] at whole
  refine ⟨passed ++ gap, whole, ?_⟩
  have counts := Position.counts_after (passed ++ gap)
  rw [same, position, ← Position.after_append, counts.line, Nat.add_sub_cancel_left, whole,
    sourceLine_append]
  rfl

end Scanner

open Token in
/-- A string literal that is never closed is reported at its quote. Wherever a scanner of a text
stands, its next call fails exactly if behind blanks and comments comes a quote and each quote
behind that one is escaped. The error then has the code for this, the offset of the quote and the
number of its line; the line shown with it is the line of the text on which the quote stands,
without its newline, and the one that the table of line starts has for the number; the quote is the
character of that line with the number of the column, and the text that is shown ends with this line
and a line of spaces and a caret, which stands below the quote. -/
theorem unterminated_string_at_quote {source : List Char} {s : Scanner}
    (reached : s.Reached source) :
    ((∃ e s', s.next = (.error e, s')) ↔ ∃ gap tail, s.rest = gap ++ '\"' :: tail ∧
      Trivia gap ('\"' :: tail) ∧ QuotesEscaped [] tail) ∧
    ∀ gap tail e s', s.rest = gap ++ '\"' :: tail → Trivia gap ('\"' :: tail) →
      s.next = (.error e, s') → ∃ above front rear below head,
        QuoteOnLine source tail above front rear below ∧
        e.diagnostic.code = "LEX001" ∧
        e.diagnostic.offset = some (String.utf8Len (above ++ front)) ∧
        e.diagnostic.line = some (above.count '\n' + 1) ∧
        e.diagnostic.column = some (front.length + 1) ∧
        LineTable.lineText? source (above.count '\n' + 1) = some (front ++ '\"' :: rear) ∧
        e.diagnostic.snippet = some (String.ofList (front ++ '\"' :: rear)) ∧
        e.diagnostic.text = head ++ "\n" ++ String.ofList (front ++ '\"' :: rear) ++ "\n" ++
          String.ofList (List.replicate front.length ' ') ++ "^" := by
  refine ⟨Scanner.next_fails_iff, fun gap tail e s' rest trivia failed => ?_⟩
  obtain ⟨before, rfl, rfl⟩ := reached.eq_unterminatedString rest trivia failed
  obtain ⟨above, below, onLine, whole⟩ := exists_quoteOnLine before tail
  have counts := Position.counts_after before
  have column : (Position.start.after before).column = (lastLine before).length + 1 := by
    rw [counts.column, Nat.add_comm]
  obtain ⟨head, shown⟩ := Diagnostic.exists_text_located "LEX001" "unterminated string literal"
    (Position.start.after before)
    (String.ofList (lastLine before ++ '\"' :: tail.takeWhile (· ≠ '\n')))
  rw [column, Nat.add_sub_cancel] at shown
  have newlines : before.count '\n' = above.count '\n' := by
    have free : '\n' ∉ lastLine before := fun member => onLine.free (List.mem_append_left _ member)
    rw [whole, List.count_append, List.count_eq_zero.mpr free, Nat.add_zero]
  have cut := LineTable.lineText?_eq (before ++ '\"' :: tail) (before.count '\n')
  rw [sourceLine_append, newlines] at cut
  refine ⟨above, _, _, below, head, onLine, rfl, ?_, ?_, ?_, cut, rfl, shown⟩
  · rw [← whole, ← counts.offset]
    rfl
  · rw [← newlines, Nat.add_comm, ← counts.line]
    rfl
  · rw [← column]
    rfl

/-- On the second line an atom of two bytes stands before the literal, which holds an escaped quote
and goes on below. The caret stands below the quote, in the third column. -/
theorem unterminated_string_at_quote_second_line :
    let source := "x\né \"a\\\"\nb".toList
    let s := (Scanner.ofSource source).next.2.next.2
    let e : SourceError := .unterminatedString ⟨5, 2, 3⟩ "é \"a\\\"".toList
    s.Reached source ∧ s.next.1 = .error e ∧ Token.QuotesEscaped [] "a\\\"\nb".toList ∧
      ∃ head, e.diagnostic.text = head ++ "\n" ++ "é \"a\\\"" ++ "\n" ++ "  " ++ "^" := by
  intro source s e
  have reached : s.Reached source := .next (.next .start)
  have failed : s.next = (.error e, s.next.2) := rfl
  have trivia : Token.Trivia [' '] "\"a\\\"\nb".toList := .blank rfl .nil
  obtain ⟨fails, blames⟩ := unterminated_string_at_quote reached
  obtain ⟨gap, tail, rest, before, escaped⟩ := fails.mp ⟨_, _, failed⟩
  obtain ⟨above, front, rear, below, head, -, -, -, -, column, -, snippet, text⟩ :=
    blames [' '] _ _ _ rfl trivia failed
  have quote : tail = "a\\\"\nb".toList := by
    have skipped := before.splitTrivia_eq (Token.settled_quote tail)
    rw [← rest] at skipped
    exact (List.cons.inj (congrArg Prod.snd skipped)).2.symm
  have two : front.length = 2 := (Nat.succ.inj (Option.some.inj column)).symm
  rw [← Option.some.inj snippet, two] at text
  rw [quote] at escaped
  exact ⟨reached, rfl, escaped, head, text⟩

end SmallLisp
