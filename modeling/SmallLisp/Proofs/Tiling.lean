import Mathlib.Data.String.Basic
import SmallLisp.Diagnostic
import SmallLisp.Proofs.Tokens

/-!
Tokens tile the source text.

Whatever text a scanner stands before, each token it gives is the part of the text at the token's
offset, and only trivia stands between one token and the next (`Token.Tiles`). Behind the last token
the scanner comes to the end of the text, or to a string literal that is never closed; from then on
it answers with the end again and again (`Scanner.Closes`). Both are proved of every number of calls
by what a single call does (`Scanner.calls_tile`), and the loop that calls until the end stops because
each call before takes a character (`Scanner.tokenize_eq_iff`).
-/

namespace SmallLisp

/-- The offset of a place grows by the bytes that are passed. -/
theorem Position.after_offset (p : Position) (cs : List Char) :
    (p.after cs).offset = p.offset + String.utf8Len cs := by
  induction cs generalizing p with
  | nil => rfl
  | cons c cs ih =>
    have step : (p.next c).offset = p.offset + c.utf8Size := by
      unfold next
      split <;> rfl
    rw [after_cons, ih, step, String.utf8Len_cons]
    omega

namespace Token

/-! ### What stands between tokens -/

/-- Blank characters and comments before the text `later`. A comment runs to the end of its line;
only at the end of the whole text it may have no newline. -/
inductive Trivia : List Char → List Char → Prop
  | nil {later : List Char} : Trivia [] later
  | blank {c : Char} {gap later : List Char} :
      Text.isBlank c = true → Trivia gap later → Trivia (c :: gap) later
  | comment {body gap later : List Char} :
      '\n' ∉ body → Trivia gap later → Trivia (';' :: (body ++ '\n' :: gap)) later
  | lastComment {body : List Char} : '\n' ∉ body → Trivia (';' :: body) []

/-- What is skipped is trivia. Inside a comment, this holds behind the newline that ends it, if there
is one. -/
theorem splitTrivia_trivia {inComment : Bool} {cs gap later : List Char}
    (split : splitTrivia inComment cs = (gap, later)) :
    (inComment = false → Trivia gap later) ∧
    (inComment = true → (∃ body gap', '\n' ∉ body ∧ gap = body ++ '\n' :: gap' ∧ Trivia gap' later) ∨
      '\n' ∉ gap ∧ later = []) := by
  fun_induction splitTrivia inComment cs generalizing gap with
  | case1 =>
    cases split
    exact ⟨fun _ => .nil, fun _ => .inr ⟨List.not_mem_nil, rfl⟩⟩
  | case2 c cs skipped rest divided ih =>
    cases split
    refine ⟨by rintro ⟨⟩, fun _ => ?_⟩
    obtain ⟨behind, inside⟩ := ih divided
    by_cases newline : c = '\n'
    · exact .inl ⟨[], skipped, List.not_mem_nil, by rw [newline]; rfl, behind (by simp [newline])⟩
    · rcases inside (by simp [newline]) with ⟨body, gap', free, rfl, trivia⟩ | ⟨free, rfl⟩
      · refine .inl ⟨c :: body, gap', ?_, rfl, trivia⟩
        exact List.not_mem_cons_of_ne_of_not_mem (Ne.symm newline) free
      · exact .inr ⟨List.not_mem_cons_of_ne_of_not_mem (Ne.symm newline) free, rfl⟩
  | case3 c cs trivia skipped rest divided ih =>
    cases split
    refine ⟨fun _ => ?_, by rintro ⟨⟩⟩
    obtain ⟨behind, inside⟩ := ih divided
    by_cases comment : c = ';'
    · subst comment
      rcases inside rfl with ⟨body, gap', free, rfl, trivia⟩ | ⟨free, rfl⟩
      · exact .comment free trivia
      · exact .lastComment free
    · have blank : Text.isBlank c = true := by simpa [comment] using trivia
      exact .blank blank (behind (by simp [comment]))
  | case4 =>
    cases split
    exact ⟨fun _ => .nil, by rintro ⟨⟩⟩

/-! ### The shape of tokens -/

/-- Characters as they stand between the quotes of a string literal: a backslash takes the character
behind it along, and a quote can only stand behind a backslash. -/
inductive Enclosed : List Char → Prop
  | nil : Enclosed []
  | plain {c : Char} {cs : List Char} : c ≠ '\"' → c ≠ '\\' → Enclosed cs → Enclosed (c :: cs)
  | escape {c : Char} {cs : List Char} : Enclosed cs → Enclosed ('\\' :: c :: cs)

/-- A string literal reaches to the first quote that no backslash takes along. -/
theorem splitString_enclosed {escaped : Bool} {cs body rest : List Char}
    (split : splitString escaped cs = some (body, rest)) :
    ∃ inner, body = inner ++ ['\"'] ∧
      Enclosed (if escaped then '\\' :: inner else inner) := by
  fun_induction splitString escaped cs generalizing body with
  | case1 => cases split
  | case2 c cs ih =>
    obtain ⟨⟨body', rest'⟩, found, same⟩ := Option.map_eq_some_iff.mp split
    cases same
    obtain ⟨inner, rfl, enclosed⟩ := ih found
    exact ⟨c :: inner, rfl, .escape enclosed⟩
  | case3 cs =>
    cases split
    exact ⟨[], rfl, .nil⟩
  | case4 c cs quote ih =>
    obtain ⟨⟨body', rest'⟩, found, same⟩ := Option.map_eq_some_iff.mp split
    cases same
    obtain ⟨inner, rfl, enclosed⟩ := ih found
    refine ⟨c :: inner, rfl, ?_⟩
    by_cases backslash : c = '\\'
    · subst backslash
      exact enclosed
    · exact .plain quote backslash (by simpa [backslash] using enclosed)

/-- Enclosed characters reach up to the quote behind them. -/
theorem Enclosed.splitString_eq {inner : List Char} (enclosed : Enclosed inner)
    (later : List Char) :
    splitString false (inner ++ '\"' :: later) = some (inner ++ ['\"'], later) := by
  induction enclosed with
  | nil => rfl
  | plain quote backslash _ ih =>
    simp [splitString, quote, beq_eq_false_iff_ne.mpr backslash, ih]
  | escape _ ih => simp [splitString, ih]

/-- A string literal is what two quotes enclose. -/
theorem spells_string_iff {lexeme : List Char} : TokenKind.string.Spells lexeme ↔
    ∃ inner, lexeme = '\"' :: (inner ++ ['\"']) ∧ Enclosed inner := by
  constructor
  · rintro ⟨body, lexeme, closed⟩
    obtain ⟨inner, rfl, enclosed⟩ := splitString_enclosed closed
    exact ⟨inner, lexeme, enclosed⟩
  · rintro ⟨inner, lexeme, enclosed⟩
    exact ⟨inner ++ ['\"'], lexeme, enclosed.splitString_eq []⟩

/-- A token before the text `later` has the characters of its kind, and `later` gives it no more. -/
structure Fits (token : Token) (later : List Char) : Prop where
  spelled : token.kind.Spells token.lexeme
  ends : token.kind.EndsBefore later
  quoted : token.kind = .string →
    ∃ inner, token.lexeme = '\"' :: (inner ++ ['\"']) ∧ Enclosed inner

/-! ### Tokens one behind the other -/

/-- The tokens cover the text that starts at the offset, up to `later`: between them, and before the
first of them, is nothing but trivia. -/
inductive Tiles : Nat → List Char → List Token → List Char → Prop
  | nil {offset : Nat} {later : List Char} : Tiles offset later [] later
  | cons {offset : Nat} {gap behind later : List Char} {token : Token} {tokens : List Token} :
      Trivia gap (token.lexeme ++ behind) → token.start.offset = offset + String.utf8Len gap →
      token.kind ≠ .finish → token.Fits behind →
      Tiles (token.start.offset + String.utf8Len token.lexeme) behind tokens later →
      Tiles offset (gap ++ (token.lexeme ++ behind)) (token :: tokens) later

namespace Tiles

variable {offset : Nat} {cs later : List Char} {tokens : List Token}

/-- Each token is the part of the text at its offset. -/
theorem slice (tiles : Tiles offset cs tokens later) : ∀ token ∈ tokens, token.kind ≠ .finish ∧
    ∃ before after, cs = before ++ token.lexeme ++ after ∧
      token.start.offset = offset + String.utf8Len before := by
  induction tiles with
  | nil => simp
  | @cons offset gap behind later token tokens trivia start more fits rest ih =>
    refine List.forall_mem_cons.mpr ⟨⟨more, gap, behind, by simp, start⟩, ?_⟩
    intro other member
    obtain ⟨kind, before, after, whole, place⟩ := ih other member
    refine ⟨kind, gap ++ (token.lexeme ++ before), after, by simp [whole], ?_⟩
    simp only [String.utf8Len_append]
    omega

/-- Each token ends before the next one starts, and none is empty. -/
theorem pairwise (tiles : Tiles offset cs tokens later) : tokens.Pairwise fun token next =>
    token.start.offset < next.start.offset ∧
      token.start.offset + String.utf8Len token.lexeme ≤ next.start.offset := by
  induction tiles with
  | nil => exact .nil
  | @cons offset gap behind later token tokens trivia start more fits rest ih =>
    refine .cons (fun next member => ?_) ih
    obtain ⟨-, before, after, -, place⟩ := rest.slice next member
    have filled : String.utf8Len token.lexeme ≠ 0 :=
      String.utf8Len_eq_zero.not.mpr (fits.spelled.ne_nil more)
    omega

end Tiles

end Token

namespace Scanner

open Token

/-! ### What a call does -/

/-- A call gives an error for a string literal that is not closed, and then nothing is left. -/
theorem next_eq_error {s s' : Scanner} {e : SourceError} (failed : s.next = (.error e, s')) :
    ∃ start line, e = .unterminatedString start line ∧ s'.rest = [] := by
  unfold next at failed
  dsimp only at failed
  split at failed
  · cases failed
  · cases failed
    exact ⟨_, _, rfl, rfl⟩

/-- Where the text ends does not depend on how far the scanner is. -/
theorem next_end (s : Scanner) :
    s.next.2.position.after s.next.2.rest = s.position.after s.rest := by
  have trivia := congrArg s.position.after (splitTrivia_append false s.rest)
  rw [Position.after_append] at trivia
  unfold next
  dsimp only
  split
  · next kind lexeme unread split =>
    rw [← trivia, ← splitLexeme_append split, Position.after_append]
  · exact trivia

def finish (s : Scanner) : Token :=
  ⟨.finish, [], s.position.after s.rest⟩

/-- All calls agree on the token at the end. -/
theorem finish_next {s s' : Scanner} {answer : Except SourceError Token}
    (next : s.next = (answer, s')) : s'.finish = s.finish := by
  have kept := next_end s
  rw [next] at kept
  exact congrArg (Token.mk .finish []) kept

/-- At the end every call answers with the last token, and nothing moves. -/
theorem next_of_rest_eq_nil {s : Scanner} (nothing : s.rest = []) :
    s.next = (.ok s.finish, s) := by
  obtain ⟨source, position, rest⟩ := s
  cases nothing
  rfl

/-- The end is found behind trivia that goes on to the end of the text. -/
theorem next_finish {s s' : Scanner} {token : Token} (next : s.next = (.ok token, s'))
    (last : token.kind = .finish) : token = s.finish ∧ Trivia s.rest [] ∧ s'.rest = [] := by
  obtain ⟨gap, split, spelled, ends, start, -⟩ := next_eq_ok_iff.mp next
  obtain ⟨kind, lexeme, place⟩ := token
  cases last
  cases (show lexeme = [] from spelled)
  have nothing : s'.rest = [] := by
    cases unread : s'.rest with
    | nil => rfl
    | cons =>
      rw [unread] at ends
      cases ends
  have trivia := (splitTrivia_trivia split).1 rfl
  have whole := splitTrivia_append false s.rest
  rw [split] at whole
  simp only [nothing, List.append_nil] at trivia whole
  rw [whole] at trivia start
  exact ⟨congrArg (Token.mk .finish []) start, trivia, nothing⟩

/-- A token before the end is the next tile. -/
theorem next_tiles {s s' : Scanner} {token : Token} (next : s.next = (.ok token, s'))
    (more : token.kind ≠ .finish) {tokens : List Token} {later : List Char}
    (tiles : Tiles s'.position.offset s'.rest tokens later) :
    Tiles s.position.offset s.rest (token :: tokens) later := by
  obtain ⟨gap, split, spelled, ends, start, same⟩ := next_eq_ok_iff.mp next
  have whole := splitTrivia_append false s.rest
  rw [split] at whole
  have place : s'.position.offset = token.start.offset + String.utf8Len token.lexeme := by
    rw [same]
    exact Position.after_offset _ _
  have quoted : token.kind = .string →
      ∃ inner, token.lexeme = '\"' :: (inner ++ ['\"']) ∧ Enclosed inner := by
    intro kind
    rw [kind] at spelled
    exact spells_string_iff.mp spelled
  rw [← whole]
  refine .cons ((splitTrivia_trivia split).1 rfl) ?_ more ⟨spelled, ends, quoted⟩ (place ▸ tiles)
  rw [start, Position.after_offset]

/-- Each token before the end moves the scanner on. -/
theorem next_offset_lt {s s' : Scanner} {token : Token} (next : s.next = (.ok token, s'))
    (more : token.kind ≠ .finish) : s.position.offset < s'.position.offset := by
  obtain ⟨gap, -, spelled, -, start, same⟩ := next_eq_ok_iff.mp next
  have filled : String.utf8Len token.lexeme ≠ 0 :=
    String.utf8Len_eq_zero.not.mpr (spelled.ne_nil more)
  rw [same]
  dsimp only
  rw [Position.after_offset, start, Position.after_offset]
  omega

/-! ### Any number of calls -/

/-- The answers to a number of calls, and the scanner behind the last of them. -/
def calls : Nat → Scanner → List (Except SourceError Token) × Scanner
  | 0, s => ([], s)
  | count + 1, s =>
    let (answer, s) := s.next
    let (answers, s) := calls count s
    (answer :: answers, s)

/-- How calls go on behind the last token, where `later` stands and `stop` is the token at the end:
there are none; the end is reached and answered again and again; or a string literal is not closed,
which leaves nothing unread, and the end is answered from then on. -/
inductive Closes (stop : Token) (later : List Char) :
    List (Except SourceError Token) → List Char → Prop
  | running : Closes stop later [] later
  | ended (count : Nat) : Trivia later [] →
      Closes stop later (List.replicate (count + 1) (.ok stop)) []
  | broken (count : Nat) {e : SourceError} : e.diagnostic.code = "LEX001" →
      Closes stop later (.error e :: List.replicate count (.ok stop)) []

theorem calls_succ {s s' : Scanner} {answer : Except SourceError Token}
    (next : s.next = (answer, s')) (count : Nat) :
    s.calls (count + 1) = (answer :: (s'.calls count).1, (s'.calls count).2) := by
  rw [calls, next]

theorem calls_of_rest_eq_nil {s : Scanner} (nothing : s.rest = []) :
    ∀ count, s.calls count = (List.replicate count (.ok s.finish), s)
  | 0 => rfl
  | count + 1 => by
    rw [calls_succ (next_of_rest_eq_nil nothing), calls_of_rest_eq_nil nothing count,
      List.replicate_succ]

/-- Any number of calls gives tokens that tile the text, and closes in one of three ways. -/
theorem calls_tile (count : Nat) (s : Scanner) : ∃ tokens later answers,
    (s.calls count).1 = tokens.map .ok ++ answers ∧
      Tiles s.position.offset s.rest tokens later ∧
      Closes s.finish later answers (s.calls count).2.rest := by
  induction count generalizing s with
  | zero => exact ⟨[], s.rest, [], rfl, .nil, .running⟩
  | succ count ih =>
    rcases next : s.next with ⟨e | token, s'⟩
    · obtain ⟨start, line, rfl, nothing⟩ := next_eq_error next
      rw [calls_succ next, calls_of_rest_eq_nil nothing, finish_next next, nothing]
      exact ⟨[], s.rest, _, rfl, .nil, .broken count rfl⟩
    · by_cases last : token.kind = .finish
      · obtain ⟨rfl, trivia, nothing⟩ := next_finish next last
        rw [calls_succ next, calls_of_rest_eq_nil nothing, finish_next next, nothing]
        exact ⟨[], s.rest, _, rfl, .nil, .ended count trivia⟩
      · obtain ⟨tokens, later, answers, same, tiles, closes⟩ := ih s'
        rw [finish_next next] at closes
        rw [calls_succ next, same]
        exact ⟨token :: tokens, later, answers, rfl, next_tiles next last tiles, closes⟩

/-! ### Calling until the end -/

/-- The loop that calls until the end or an error, and what it gives. -/
inductive Scans : Scanner → Except SourceError (List Token) → Prop
  | failed {s s' : Scanner} {e : SourceError} : s.next = (.error e, s') → Scans s (.error e)
  | last {s s' : Scanner} {token : Token} : s.next = (.ok token, s') → token.kind = .finish →
      Scans s (.ok [token])
  | more {s s' : Scanner} {token : Token} {result : Except SourceError (List Token)} :
      s.next = (.ok token, s') → token.kind ≠ .finish → Scans s' result →
      Scans s (result.map (token :: ·))

/-- The loop stops before it has made more calls than there are characters and one. -/
theorem scans_take {count : Nat} {s : Scanner} (enough : s.rest.length < count) :
    s.Scans (s.take count) := by
  induction count generalizing s with
  | zero => cases enough
  | succ count ih =>
    rcases next : s.next with ⟨e | token, s'⟩
    · rw [take, next]
      exact .failed next
    · rw [take, next]
      dsimp only
      split
      · next last => exact .last next last
      · next more =>
        have shorter := next_rest_lt next more
        exact .more next more (ih (by omega))

/-- A bound that is not reached makes no difference to the loop. -/
theorem Scans.take_eq {s : Scanner} {result : Except SourceError (List Token)}
    (scans : s.Scans result) {count : Nat} (enough : s.rest.length < count) :
    s.take count = result := by
  induction scans generalizing count with
  | failed next =>
    cases count with
    | zero => cases enough
    | succ count => rw [take, next]
  | last next kind =>
    cases count with
    | zero => cases enough
    | succ count =>
      rw [take, next]
      exact if_pos kind
  | @more s s' token result next kind _ ih =>
    cases count with
    | zero => cases enough
    | succ count =>
      have shorter := next_rest_lt next kind
      have others : s'.take count = result := ih (by omega)
      rw [take, next, ← others]
      exact if_neg kind

/-- All tokens of a text are those of the loop that calls until the end. -/
theorem tokenize_eq_iff {source : List Char} {result : Except SourceError (List Token)} :
    tokenize source = result ↔ (ofSource source).Scans result := by
  have enough : (ofSource source).rest.length < source.length + 1 := Nat.lt_succ_self _
  constructor
  · rintro rfl
    exact scans_take enough
  · intro scans
    exact scans.take_eq enough

end Scanner

open Token Scanner in
/-- Tokens tile the source text. Any number of calls gives tokens, each of them the part of the text
at its offset and each behind the one before it, with nothing but blanks and comments before, between
and behind them; each has the characters of its kind and as many as there are. Then comes the end of
the text, at the offset that is its length in bytes, and the calls after that give the end again, as
do those after a string literal that is not closed, which leaves nothing unread. Each token before
the end moves the scanner on, so that the loop over all tokens comes to an end. -/
theorem tokens_tile_source (source : List Char) :
    (∀ count, ∃ tokens later answers,
      ((ofSource source).calls count).1 = tokens.map .ok ++ answers ∧
      Tiles 0 source tokens later ∧
      Closes ⟨.finish, [], Position.start.after source⟩ later answers
        ((ofSource source).calls count).2.rest ∧
      (∀ token ∈ tokens, token.kind ≠ .finish ∧ ∃ before after,
        source = before ++ token.lexeme ++ after ∧ token.start.offset = String.utf8Len before) ∧
      tokens.Pairwise fun token next => token.start.offset < next.start.offset ∧
        token.start.offset + String.utf8Len token.lexeme ≤ next.start.offset) ∧
    (Position.start.after source).offset = String.utf8Len source ∧
    (∀ s token s', next s = (.ok token, s') → token.kind ≠ .finish →
      s.position.offset < s'.position.offset) ∧
    (ofSource source).Scans (tokenize source) := by
  refine ⟨fun count => ?_, ?_, fun s token s' => next_offset_lt, tokenize_eq_iff.mp rfl⟩
  · obtain ⟨tokens, later, answers, same, tiles, closes⟩ := calls_tile count (ofSource source)
    refine ⟨tokens, later, answers, same, tiles, closes, fun token member => ?_, tiles.pairwise⟩
    obtain ⟨kind, before, after, whole, place⟩ := tiles.slice token member
    exact ⟨kind, before, after, whole, place.trans (Nat.zero_add _)⟩
  · rw [Position.after_offset]
    exact Nat.zero_add _

/-- A blank, a comment and its newline stand before an atom of two bytes, which moves the scanner on
to the mark behind it. -/
theorem tokens_tile_source_behind_comment :
    let source := " ;c\né,@".toList
    let atom : Token := ⟨.atom, "é".toList, ⟨4, 2, 1⟩⟩
    let rest : Scanner := ⟨source, ⟨6, 2, 2⟩, ",@".toList⟩
    (Scanner.ofSource source).next = (.ok atom, rest) ∧ atom.kind ≠ .finish ∧
      (Scanner.ofSource source).position.offset < rest.position.offset := by
  intro source atom rest
  have next : (Scanner.ofSource source).next = (.ok atom, rest) := rfl
  have more : atom.kind ≠ .finish := by decide
  exact ⟨next, more, (tokens_tile_source source).2.2.1 _ atom rest next more⟩

end SmallLisp
