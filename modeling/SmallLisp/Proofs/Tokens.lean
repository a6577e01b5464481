import Mathlib.Data.List.TakeWhile
import SmallLisp.Source.Scanner

/-!
Where tokens begin and end.

A token is a spelling that belongs to its kind, with trivia before it and behind it a text that does
not prolong it (`Scanner.next_eq_ok_iff`). What follows a token can thus change it only by its first
character: `Scanner.Takes.relocate` says that tokens taken off a text are taken off every other text
that has the same characters in front and does not prolong the last of them.
-/

namespace SmallLisp

/-! ### The spelling of tokens -/

namespace TokenKind

/-- The spellings of tokens of a kind. -/
def Spells : TokenKind → List Char → Prop
  | opening, lexeme => lexeme = ['(']
  | closing, lexeme => lexeme = [')']
  | quote, lexeme => lexeme = ['\'']
  | quasiquote, lexeme => lexeme = ['`']
  | unquote, lexeme => lexeme = [',']
  | splice, lexeme => lexeme = [',', '@']
  | string, lexeme => ∃ body, lexeme = '\"' :: body ∧ Token.splitString false body = some (body, [])
  | atom, lexeme => lexeme ≠ [] ∧ ∀ c ∈ lexeme, isDelimiter c = false
  | finish, lexeme => lexeme = []

/-- A token of this kind is not prolonged by the text `later` that follows it. -/
def EndsBefore : TokenKind → List Char → Prop
  | atom, c :: _ => isDelimiter c = true
  | unquote, c :: _ => c ≠ '@'
  | finish, _ :: _ => False
  | _, _ => True

/-- Every token but the last has a character. -/
theorem Spells.ne_nil {kind : TokenKind} {lexeme : List Char} (spelled : kind.Spells lexeme)
    (more : kind ≠ .finish) : lexeme ≠ [] := by
  cases kind with
  | finish => exact absurd rfl more
  | atom => exact spelled.1
  | string =>
    obtain ⟨body, rfl, -⟩ := spelled
    simp
  | _ =>
    rw [spelled]
    simp

/-- Only for an atom, an unquotation and the end of the text it matters what follows. -/
theorem endsBefore_of_not_mem {kind : TokenKind} (closed : kind ∉ [.atom, .unquote, .finish])
    (later : List Char) : kind.EndsBefore later := by
  cases kind <;> cases later <;> first | exact trivial | exact absurd (by decide) closed

/-- Only the first character of what follows counts. -/
theorem EndsBefore.of_append {kind : TokenKind} {front rest : List Char}
    (ends : kind.EndsBefore (front ++ rest)) (filled : front ≠ []) (later : List Char) :
    kind.EndsBefore (front ++ later) := by
  cases front with
  | nil => exact absurd rfl filled
  | cons => cases kind <;> exact ends

end TokenKind

namespace Token

/-- The text does not start with trivia. -/
def Settled : List Char → Prop
  | [] => True
  | c :: _ => Text.isBlank c = false ∧ c ≠ ';'

/-- Whether a text starts with trivia shows in its first character. -/
theorem Settled.of_append {front rest : List Char} (settled : Settled (front ++ rest))
    (filled : front ≠ []) (later : List Char) : Settled (front ++ later) := by
  cases front with
  | nil => exact absurd rfl filled
  | cons => exact settled

theorem settled_of_not_isDelimiter {c : Char} (inside : isDelimiter c = false) (cs : List Char) :
    Settled (c :: cs) := by
  simp only [isDelimiter, Bool.or_eq_false_iff, beq_eq_false_iff_ne] at inside
  exact ⟨inside.1.1.1.1.1.1.1, inside.2⟩

theorem settled_of_spells {kind : TokenKind} {lexeme : List Char} (spelled : kind.Spells lexeme)
    (more : kind ≠ .finish) (later : List Char) : Settled (lexeme ++ later) := by
  cases kind with
  | finish => exact absurd rfl more
  | atom =>
    obtain ⟨filled, inside⟩ := spelled
    cases lexeme with
    | nil => exact absurd rfl filled
    | cons c cs => exact settled_of_not_isDelimiter (inside c List.mem_cons_self) _
  | string =>
    obtain ⟨body, rfl, -⟩ := spelled
    exact ⟨rfl, by decide⟩
  | _ =>
    rw [spelled]
    exact ⟨rfl, by decide⟩

/-! ### What the divisions of a text take -/

/-- Behind the trivia stands something else. -/
theorem splitTrivia_settled (inComment : Bool) (cs : List Char) :
    Settled (splitTrivia inComment cs).2 := by
  fun_induction splitTrivia inComment cs with
  | case1 => exact trivial
  | case2 c cs skipped rest split ih =>
    rw [split] at ih
    exact ih
  | case3 c cs trivia skipped rest split ih =>
    rw [split] at ih
    exact ih
  | case4 c cs other =>
    simp only [Bool.or_eq_true, beq_iff_eq, not_or, Bool.not_eq_true] at other
    exact other

theorem splitTrivia_of_settled {cs : List Char} (settled : Settled cs) :
    splitTrivia false cs = ([], cs) := by
  cases cs with
  | nil => rfl
  | cons c cs => simp [splitTrivia, settled.1, settled.2]

theorem splitTrivia_of_blank {gap cs : List Char} (blank : ∀ c ∈ gap, Text.isBlank c = true)
    (settled : Settled cs) : splitTrivia false (gap ++ cs) = (gap, cs) := by
  induction gap with
  | nil => exact splitTrivia_of_settled settled
  | cons c gap ih =>
    obtain ⟨first, others⟩ := List.forall_mem_cons.mp blank
    have mark : (c == ';') = false := by
      rw [beq_eq_false_iff_ne]
      rintro rfl
      cases first
    simp only [List.cons_append, splitTrivia, first, Bool.true_or, if_true, mark, ih others]

/-- Trivia that something follows is trivia before anything else as well. -/
theorem splitTrivia_append_right {inComment : Bool} {cs gap text later : List Char}
    (split : splitTrivia inComment cs = (gap, text)) (followed : text ≠ [])
    (settled : Settled later) : splitTrivia inComment (gap ++ later) = (gap, later) := by
  fun_induction splitTrivia inComment cs generalizing gap with
  | case1 =>
    cases split
    exact absurd rfl followed
  | case2 c cs skipped rest divided ih =>
    cases split
    simp only [List.cons_append, splitTrivia, ih divided]
  | case3 c cs trivia skipped rest divided ih =>
    cases split
    simp only [List.cons_append, splitTrivia, trivia, ih divided, if_true]
  | case4 =>
    cases split
    exact splitTrivia_of_settled settled

/-- A string literal ends at its closing quote, whatever follows. -/
theorem splitString_append_right {escaped : Bool} {cs body rest : List Char}
    (split : splitString escaped cs = some (body, rest)) (later : List Char) :
    splitString escaped (body ++ later) = some (body, later) := by
  fun_induction splitString escaped cs generalizing body with
  | case1 => cases split
  | case2 c cs ih =>
    obtain ⟨⟨body', rest'⟩, found, same⟩ := Option.map_eq_some_iff.mp split
    cases same
    simp [splitString, ih found]
  | case3 cs =>
    cases split
    simp [splitString]
  | case4 c cs open_ ih =>
    obtain ⟨⟨body', rest'⟩, found, same⟩ := Option.map_eq_some_iff.mp split
    cases same
    simp [splitString, open_, ih found]

/-- An atom goes up to the next delimiter. -/
theorem splitLexeme_of_not_isDelimiter {c : Char} (inside : isDelimiter c = false)
    (cs : List Char) : splitLexeme (c :: cs) =
      some (.atom, c :: cs.takeWhile (!isDelimiter ·), cs.dropWhile (!isDelimiter ·)) := by
  unfold splitLexeme
  split
  case h_9 same => cases same; rfl
  case h_1 same => cases same
  all_goals
    next same =>
      cases same
      cases inside

/-- A text without leading trivia is divided into a spelling and a text that does not prolong it. -/
theorem splitLexeme_eq_some_iff {cs lexeme rest : List Char} {kind : TokenKind}
    (settled : Settled cs) : splitLexeme cs = some (kind, lexeme, rest) ↔
      cs = lexeme ++ rest ∧ kind.Spells lexeme ∧ kind.EndsBefore rest := by
  constructor
  · intro split
    refine ⟨(splitLexeme_append split).symm, ?_⟩
    unfold splitLexeme at split
    split at split
    case h_7 cs single =>
      cases split
      refine ⟨rfl, ?_⟩
      match rest with
      | [] => exact trivial
      | c :: _ => exact fun same => single _ (by rw [same])
    case h_8 cs =>
      obtain ⟨⟨body, rest'⟩, found, same⟩ := Option.map_eq_some_iff.mp split
      cases same
      have closed := splitString_append_right found []
      rw [List.append_nil] at closed
      exact ⟨⟨body, rfl, closed⟩, trivial⟩
    case h_9 c cs _ _ _ _ _ _ _ =>
      cases split
      have first : isDelimiter c = false := by
        simp_all [isDelimiter, Settled]
      have others : ∀ d ∈ cs.takeWhile (!isDelimiter ·), isDelimiter d = false := by
        intro d member
        simpa using List.mem_takeWhile_imp member
      refine ⟨⟨List.cons_ne_nil _ _, List.forall_mem_cons.mpr ⟨first, others⟩⟩, ?_⟩
      have stop := List.head?_dropWhile_not (!isDelimiter ·) cs
      cases unread : cs.dropWhile (!isDelimiter ·) with
      | nil => exact trivial
      | cons d _ => simpa [unread, TokenKind.EndsBefore] using stop
    all_goals
      cases split
      exact ⟨rfl, trivial⟩
  · rintro ⟨rfl, spelled, ends⟩
    cases kind with
    | string =>
      obtain ⟨body, rfl, closed⟩ := spelled
      simp [splitLexeme, splitString_append_right closed rest]
    | atom =>
      obtain ⟨filled, inside⟩ := spelled
      match lexeme with
      | [] => exact absurd rfl filled
      | c :: lexeme =>
        obtain ⟨first, others⟩ := List.forall_mem_cons.mp inside
        have all : ∀ d ∈ lexeme, (!isDelimiter d) = true := by simpa using others
        rw [List.cons_append, splitLexeme_of_not_isDelimiter first,
          List.takeWhile_append_of_pos all, List.dropWhile_append_of_pos all]
        cases rest with
        | nil => simp
        | cons d _ => simp [show isDelimiter d = true from ends]
    | finish =>
      cases rest with
      | nil =>
        rw [spelled]
        rfl
      | cons => cases ends
    | unquote =>
      rw [spelled]
      match rest with
      | [] => rfl
      | c :: rest =>
        simp [splitLexeme, show c ≠ '@' from ends]
    | _ =>
      rw [spelled]
      rfl

end Token

/-! ### Tokens one after the other -/

namespace Scanner

/-- A token comes with the trivia before it: it starts behind the trivia, and the scanner stands
behind its spelling. -/
theorem next_eq_ok_iff {s s' : Scanner} {token : Token} : s.next = (.ok token, s') ↔
    ∃ gap, Token.splitTrivia false s.rest = (gap, token.lexeme ++ s'.rest) ∧
      token.kind.Spells token.lexeme ∧ token.kind.EndsBefore s'.rest ∧
      token.start = s.position.after gap ∧
      s' = ⟨s.source, token.start.after token.lexeme, s'.rest⟩ := by
  have settled := Token.splitTrivia_settled false s.rest
  unfold next
  constructor
  · intro taken
    dsimp only at taken
    split at taken
    · next kind lexeme unread split =>
      cases taken
      obtain ⟨same, spelled, ends⟩ := (Token.splitLexeme_eq_some_iff settled).mp split
      exact ⟨_, Prod.ext rfl same, spelled, ends, rfl, rfl⟩
    · cases taken
  · rintro ⟨gap, trivia, spelled, ends, start, same⟩
    rw [trivia] at settled ⊢
    have split := (Token.splitLexeme_eq_some_iff settled).mpr ⟨rfl, spelled, ends⟩
    simp only [split, ← start]
    exact Prod.ext rfl same.symm

/-- A spelling behind blanks is taken off, if what follows does not prolong it. -/
theorem next_of_spells {s : Scanner} {kind : TokenKind} {gap lexeme later : List Char}
    (whole : s.rest = gap ++ (lexeme ++ later)) (blank : ∀ c ∈ gap, Text.isBlank c = true)
    (spelled : kind.Spells lexeme) (more : kind ≠ .finish) (ends : kind.EndsBefore later) :
    ∃ start s', s.next = (.ok ⟨kind, lexeme, start⟩, s') ∧ s'.rest = later := by
  refine ⟨s.position.after gap, ⟨s.source, (s.position.after gap).after lexeme, later⟩, ?_, rfl⟩
  refine next_eq_ok_iff.mpr ⟨gap, ?_, spelled, ends, rfl, rfl⟩
  rw [whole]
  exact Token.splitTrivia_of_blank blank (Token.settled_of_spells spelled more later)

/-- A token is taken off every text in which the same characters stand in front and which does not
prolong it. -/
theorem next_relocate {s s' : Scanner} {token : Token} (first : s.next = (.ok token, s'))
    (more : token.kind ≠ .finish) : ∃ gap, s.rest = gap ++ (token.lexeme ++ s'.rest) ∧
      token.start = s.position.after gap ∧ s'.position = token.start.after token.lexeme ∧
      token.kind.EndsBefore s'.rest ∧ ∀ source later, token.kind.EndsBefore later →
        next ⟨source, s.position, gap ++ (token.lexeme ++ later)⟩ =
          (.ok token, ⟨source, s'.position, later⟩) := by
  obtain ⟨gap, trivia, spelled, ends, start, same⟩ := next_eq_ok_iff.mp first
  have nonempty := spelled.ne_nil more
  have whole := Token.splitTrivia_append false s.rest
  have settled := Token.splitTrivia_settled false s.rest
  rw [trivia] at whole settled
  have position : s'.position = token.start.after token.lexeme := by rw [same]
  refine ⟨gap, whole.symm, start, position, ends, fun source later endsNow => ?_⟩
  have triviaNow := Token.splitTrivia_append_right trivia (by simp [nonempty])
    (settled.of_append nonempty later)
  exact next_eq_ok_iff.mpr ⟨gap, triviaNow, spelled, endsNow, start, by rw [position]⟩

/-- The scanner gives the tokens one after the other, and then it is `s'`. -/
inductive Takes : Scanner → List Token → Scanner → Prop
  | nil {s : Scanner} : Takes s [] s
  | cons {s u s' : Scanner} {token : Token} {tokens : List Token} :
      s.next = (.ok token, u) → Takes u tokens s' → Takes s (token :: tokens) s'

namespace Takes

variable {s u s' : Scanner} {tokens tokens' : List Token}

theorem append_iff :
    Takes s (tokens ++ tokens') s' ↔ ∃ u, Takes s tokens u ∧ Takes u tokens' s' := by
  constructor
  · intro takes
    induction tokens generalizing s with
    | nil => exact ⟨s, .nil, takes⟩
    | cons token tokens ih =>
      cases takes with
      | cons first others =>
        obtain ⟨u, before, after⟩ := ih others
        exact ⟨u, .cons first before, after⟩
  · rintro ⟨u, before, after⟩
    induction before with
    | nil => exact after
    | cons first _ ih => exact .cons first (ih after)

theorem singleton_iff {token : Token} : Takes s [token] s' ↔ s.next = (.ok token, s') := by
  constructor
  · rintro (_ | ⟨first, (_ | _)⟩)
    exact first
  · exact fun first => .cons first .nil

/-- Of the tokens that a scanner gives, fewer are the first of more. -/
theorem isPrefix_or (takes : Takes s tokens u) (takes' : Takes s tokens' s') :
    (∃ more, tokens' = tokens ++ more ∧ Takes u more s') ∨
      ∃ more, tokens = tokens' ++ more ∧ Takes s' more u := by
  induction takes generalizing tokens' with
  | nil => exact .inl ⟨tokens', rfl, takes'⟩
  | @cons s v u token tokens first others ih =>
    cases takes' with
    | nil => exact .inr ⟨token :: tokens, rfl, .cons first others⟩
    | cons first' others' =>
      rw [first] at first'
      cases first'
      obtain ⟨more, rfl, rest⟩ | ⟨more, rfl, rest⟩ := ih others'
      · exact .inl ⟨more, rfl, rest⟩
      · exact .inr ⟨more, rfl, rest⟩

/-- Each token before the end takes a character. -/
theorem length_le (takes : Takes s tokens s') (more : ∀ token ∈ tokens, token.kind ≠ .finish) :
    tokens.length + s'.rest.length ≤ s.rest.length := by
  induction takes with
  | nil => simp
  | cons first _ ih =>
    obtain ⟨here, others⟩ := List.forall_mem_cons.mp more
    have shorter := next_rest_lt first here
    have := ih others
    simp only [List.length_cons]
    omega

/-- What the tokens take off a text can be taken off every text that starts in the same way, as long
as the last token is not prolonged. -/
theorem relocate (takes : Takes s tokens s') (more : ∀ token ∈ tokens, token.kind ≠ .finish) :
    ∃ taken, s.rest = taken ++ s'.rest ∧ s'.position = s.position.after taken ∧
      ∀ source later, (∀ last ∈ tokens.getLast?, last.kind.EndsBefore later) →
        Takes ⟨source, s.position, taken ++ later⟩ tokens ⟨source, s'.position, later⟩ := by
  induction takes with
  | nil => exact ⟨[], rfl, rfl, fun _ _ _ => .nil⟩
  | @cons s u s' token tokens first others ih =>
    obtain ⟨here, beyond⟩ := List.forall_mem_cons.mp more
    obtain ⟨taken, rest, position, relocated⟩ := ih beyond
    obtain ⟨gap, whole, start, behind, ends, again⟩ := next_relocate first here
    refine ⟨gap ++ (token.lexeme ++ taken), ?_, ?_, fun source later lastEnds => ?_⟩
    · rw [whole, rest]
      simp
    · rw [position, behind, start, Position.after_append, Position.after_append]
    -- The text behind the token still starts with what the next token takes, if there is one.
    have endsNow : token.kind.EndsBefore (taken ++ later) := by
      cases tokens with
      | nil =>
        cases others
        rw [List.self_eq_append_left.mp rest]
        exact lastEnds token rfl
      | cons =>
        have further := length_le others beyond
        have filled : taken ≠ [] := by
          rintro rfl
          rw [rest, List.nil_append, List.length_cons] at further
          omega
        rw [rest] at ends
        exact ends.of_append filled later
    have moved := again source _ endsNow
    rw [← List.append_assoc token.lexeme, ← List.append_assoc gap] at moved
    refine .cons moved (relocated source later fun last member => lastEnds last ?_)
    rw [List.getLast?_cons, member]
    rfl

/-- What is left when tokens have been taken is the text behind the last of them. -/
theorem exists_before_last {last : Token} (takes : Takes s (tokens ++ [last]) s')
    (more : ∀ token ∈ tokens ++ [last], token.kind ≠ .finish) :
    ∃ before, s.rest = before ++ last.lexeme ++ s'.rest ∧
      last.start = s.position.after before := by
  obtain ⟨u, earlier, final⟩ := append_iff.mp takes
  obtain ⟨others, here⟩ := List.forall_mem_append.mp more
  obtain ⟨taken, rest, position, -⟩ := earlier.relocate others
  obtain ⟨gap, whole, start, -⟩ :=
    next_relocate (singleton_iff.mp final) (here last List.mem_cons_self)
  refine ⟨taken ++ gap, ?_, ?_⟩
  · rw [rest, whole]
    simp
  · rw [start, position, Position.after_append]

end Takes

end Scanner

end SmallLisp
