import SmallLisp.Proofs.LineTable
import SmallLisp.Proofs.Unfinished

/-!
Exact positions.

A scanner only moves on: what it has passed is the text before its place (`Scanner.Passes`), however
tokens are taken off and forms are read (`Scanner.Reached.passes`). A token starts behind the trivia
that stands before it, and an unclosed string literal at its quote; the reader blames a token, one
that it took off last or one that still waits on its stack (`Scanner.place_of_readForm_eq_error`).
So every token and every error stands at an exact place of the text (`positions_exact`).
-/

namespace SmallLisp

/-- The place lies between two characters of the text and counts what stands before it, and it is
found again from its offset in the table of line starts. -/
structure Position.Exact (source : List Char) (p : Position) : Prop where
  counted : ∃ before after, source = before ++ after ∧ p.Counts before
  located : locate? source p.offset = some p

/-- A place that is carried forward over a part of the text is exact. -/
theorem Position.exact_after (before after : List Char) :
    (start.after before).Exact (before ++ after) where
  counted := ⟨before, after, rfl, counts_after before⟩
  located := locate?_after before after

def QuoteAt (source : List Char) (p : Position) : Prop :=
  ∃ before after, source = before ++ '\"' :: after ∧ p.Counts before

def SourceError.place : SourceError → Position
  | unterminatedString start _ => start
  | unbalanced opening => opening
  | unexpectedClosing start => start
  | unknownAtom _ start => start
  | endAfterMark _ start => start
  | endOfInput start => start

/-- An error is shown with its place. -/
theorem SourceError.diagnostic_eq_located (e : SourceError) :
    ∃ code message snippet, e.diagnostic = .located code message e.place snippet := by
  cases e <;> exact ⟨_, _, _, rfl⟩

namespace Scanner

/-! ### Moving on -/

/-- The scanner `s'` stands in the same text as `s`, behind a part that `s` has not read. -/
def Passes (s s' : Scanner) : Prop :=
  ∃ passed, s.rest = passed ++ s'.rest ∧ s'.source = s.source ∧
    s'.position = s.position.after passed

theorem Passes.refl (s : Scanner) : s.Passes s :=
  ⟨[], rfl, rfl, rfl⟩

theorem Passes.trans {s u s' : Scanner} (first : s.Passes u) (second : u.Passes s') :
    s.Passes s' := by
  obtain ⟨passed, rest, source, position⟩ := first
  obtain ⟨passed', rest', source', position'⟩ := second
  refine ⟨passed ++ passed', ?_, source'.trans source, ?_⟩
  · rw [rest, rest', List.append_assoc]
  · rw [position', position, Position.after_append]

/-- A token starts behind the trivia before it. -/
theorem exists_gap_of_next_eq_ok {s s' : Scanner} {token : Token}
    (next : s.next = (.ok token, s')) :
    ∃ gap, s.rest = gap ++ (token.lexeme ++ s'.rest) ∧ token.start = s.position.after gap ∧
      s'.source = s.source ∧ s'.position = token.start.after token.lexeme := by
  obtain ⟨gap, split, -, -, start, same⟩ := next_eq_ok_iff.mp next
  have whole := Token.splitTrivia_append false s.rest
  rw [split] at whole
  refine ⟨gap, whole.symm, start, ?_, ?_⟩ <;> rw [same]

/-- A string literal that is not closed is blamed at its quote. -/
theorem exists_gap_of_next_eq_error {s s' : Scanner} {e : SourceError}
    (next : s.next = (.error e, s')) :
    ∃ gap body, s.rest = gap ++ '\"' :: body ∧ e.place = s.position.after gap ∧
      s'.source = s.source ∧ s'.position = e.place.after ('\"' :: body) ∧ s'.rest = [] := by
  obtain ⟨gap, body, split, -, rfl, rfl⟩ := next_eq_error_iff.mp next
  have whole := Token.splitTrivia_append false s.rest
  rw [split] at whole
  exact ⟨gap, body, whole.symm, rfl, rfl, rfl, rfl⟩

/-- A call moves a scanner forward, whatever it answers. -/
theorem next_passes {s s' : Scanner} {answer : Except SourceError Token}
    (next : s.next = (answer, s')) : s.Passes s' := by
  cases answer with
  | ok token =>
    obtain ⟨gap, rest, start, source, position⟩ := exists_gap_of_next_eq_ok next
    refine ⟨gap ++ token.lexeme, ?_, source, ?_⟩
    · rw [rest, List.append_assoc]
    · rw [position, start, Position.after_append]
  | error e =>
    obtain ⟨gap, body, rest, place, source, position, nothing⟩ := exists_gap_of_next_eq_error next
    refine ⟨gap ++ '\"' :: body, ?_, source, ?_⟩
    · rw [rest, nothing, List.append_nil]
    · rw [position, place, Position.after_append]

theorem Takes.passes {s s' : Scanner} {tokens : List Token} (takes : s.Takes tokens s') :
    s.Passes s' := by
  induction takes with
  | nil => exact .refl _
  | cons next _ ih => exact (next_passes next).trans ih

/-- The reader leaves the scanner that its last token leaves. -/
theorem readForm_passes {s s' : Scanner} {r : Except SourceError Value}
    (ran : s.readForm = (r, s')) : s.Passes s' := by
  obtain ⟨tokens, stack, u, takes, -, stops⟩ := readForm_eq_iff.mp ran
  have last : u.Passes s' := by
    cases stops with
    | value next => exact next_passes next
    | refused next => exact next_passes next
    | ended next => exact next_passes next
    | broken next => exact next_passes next
  exact takes.passes.trans last

/-- The scanners of a text: tokens are taken off and forms are read in any order, also behind
errors and the end. -/
inductive Reached (source : List Char) : Scanner → Prop
  | start : Reached source (ofSource source)
  | next {s : Scanner} : Reached source s → Reached source s.next.2
  | readForm {s : Scanner} : Reached source s → Reached source s.readForm.2

/-- Every scanner of a text stands behind a part of it. -/
theorem Reached.passes {source : List Char} {s : Scanner} (reached : s.Reached source) :
    (ofSource source).Passes s := by
  induction reached with
  | start => exact .refl _
  | next _ ih => exact ih.trans (next_passes rfl)
  | readForm _ ih => exact ih.trans (readForm_passes rfl)

/-- Taking tokens leads from scanners of a text to scanners of the same text. -/
theorem Reached.takes {source : List Char} {s u : Scanner} {tokens : List Token}
    (reached : s.Reached source) (takes : s.Takes tokens u) : u.Reached source := by
  induction takes with
  | nil => exact reached
  | cons next _ ih =>
    have further := reached.next
    rw [next] at further
    exact ih further

/-- A scanner of a text stands behind the part that it has passed. -/
theorem Reached.exists_before {source : List Char} {s : Scanner} (reached : s.Reached source) :
    ∃ before, source = before ++ s.rest ∧ s.source = source ∧
      s.position = Position.start.after before := by
  obtain ⟨before, rest, same, position⟩ := reached.passes
  exact ⟨before, rest, same, position⟩

end Scanner

namespace Reading

/-! ### What the reader blames -/

/-- Where a list or quotation that is still being read starts. -/
def start : Pending → Position
  | .list opening _ => opening
  | .quotation _ _ start => start

/-- Handing over a form opens nothing new. -/
theorem start_of_complete {stack stack' : List Pending} {v : Value}
    (completed : complete stack v = .more stack') : stack'.map start ⊆ stack.map start := by
  fun_induction complete stack v with
  | case1 => cases completed
  | case2 =>
    cases completed
    exact List.Subset.refl _
  | case3 v keyword mark place stack ih => exact List.subset_cons_of_subset _ (ih completed)

/-- A token puts at most itself on the stack. -/
theorem start_of_step {stack stack' : List Pending} {token : Token}
    (taken : step stack token = .more stack') :
    stack'.map start ⊆ token.start :: stack.map start := by
  unfold step at taken
  split at taken
  case h_2 =>
    split at taken
    · exact List.subset_cons_of_subset _ (List.subset_cons_of_subset _ (start_of_complete taken))
    · cases taken
  case h_7 => exact List.subset_cons_of_subset _ (start_of_complete taken)
  case h_8 =>
    split at taken
    · exact List.subset_cons_of_subset _ (start_of_complete taken)
    · cases taken
  case h_9 => cases taken
  all_goals
    cases taken
    exact List.Subset.refl _

/-- Whatever waits on the stack starts with a token that was taken in. -/
theorem Leads.start_subset {stack stack' : List Pending} {tokens : List Token}
    (leads : Leads stack tokens stack') :
    stack'.map start ⊆ tokens.map Token.start ++ stack.map start := by
  induction leads with
  | nil => exact List.Subset.refl _
  | @cons stack middle stack' token tokens taken _ ih =>
    intro p member
    rcases List.mem_append.mp (ih member) with later | earlier
    · exact List.mem_cons_of_mem _ (List.mem_append_left _ later)
    · rcases List.mem_cons.mp (start_of_step taken earlier) with same | waiting
      · rw [same]
        exact List.mem_cons_self
      · exact List.mem_append_right _ waiting

/-- The end of the text is blamed on what waits on the stack, or on the end itself. -/
theorem place_atEnd (finish : Position) (stack : List Pending) :
    (atEnd finish stack).place ∈ finish :: stack.map start := by
  rcases stack with _ | ⟨_ | _, stack⟩ <;> simp [atEnd, SourceError.place, start]

end Reading

namespace Scanner

open Reading

/-- The reader blames one of the tokens that it has taken off, or its next token is a string literal
that is not closed. -/
theorem place_of_readForm_eq_error {s s' : Scanner} {e : SourceError}
    (failed : s.readForm = (.error e, s')) :
    (∃ tokens u, s.Takes tokens u ∧ ∃ token ∈ tokens, token.start = e.place) ∨
      ∃ tokens u, s.Takes tokens u ∧ u.next = (.error e, s') := by
  obtain ⟨tokens, stack, u, takes, leads, stops⟩ := readForm_eq_iff.mp failed
  cases stops with
  | @refused token s' e next more refused =>
    refine .inl ⟨tokens ++ [token], s', ?_, token, by simp, ?_⟩
    · exact Takes.append_iff.mpr ⟨u, takes, Takes.singleton_iff.mpr next⟩
    · rcases step_eq_failed refused more with rfl | rfl <;> rfl
  | @ended token s' next last =>
    have all := Takes.append_iff.mpr ⟨u, takes, Takes.singleton_iff.mpr next⟩
    rcases List.mem_cons.mp (place_atEnd token.start stack) with same | waiting
    · exact .inl ⟨_, s', all, token, by simp, same.symm⟩
    · have started := leads.start_subset waiting
      rw [List.map_nil, List.append_nil] at started
      obtain ⟨blamed, member, same⟩ := List.mem_map.mp started
      exact .inl ⟨_, s', all, blamed, List.mem_append_left _ member, same⟩
  | broken next => exact .inr ⟨tokens, u, takes, next⟩

/-! ### Exact places -/

section Places

variable {source : List Char} {s s' : Scanner}

/-- A token starts at an exact place. -/
theorem Reached.exact_token {token : Token} (reached : s.Reached source)
    (next : s.next = (.ok token, s')) : token.start.Exact source := by
  obtain ⟨before, whole, -, position⟩ := reached.exists_before
  obtain ⟨gap, rest, start, -⟩ := exists_gap_of_next_eq_ok next
  rw [start, position, ← Position.after_append, whole, rest, ← List.append_assoc]
  exact Position.exact_after _ _

/-- The only error of a call is that a string is not closed, and it is placed at the quote. -/
theorem Reached.exact_error {e : SourceError} (reached : s.Reached source)
    (next : s.next = (.error e, s')) : e.place.Exact source ∧ QuoteAt source e.place := by
  obtain ⟨before, whole, -, position⟩ := reached.exists_before
  obtain ⟨gap, body, rest, place, -⟩ := exists_gap_of_next_eq_error next
  rw [place, position, ← Position.after_append, whole, rest, ← List.append_assoc]
  exact ⟨Position.exact_after _ _, _, body, rfl, Position.counts_after _⟩

theorem Takes.exact_tokens {tokens : List Token} (takes : s.Takes tokens s')
    (reached : s.Reached source) : ∀ token ∈ tokens, token.start.Exact source := by
  induction takes with
  | nil => exact List.forall_mem_nil _
  | cons next others ih =>
    refine List.forall_mem_cons.mpr ⟨reached.exact_token next, ih ?_⟩
    exact reached.takes (.cons next .nil)

end Places

end Scanner

/-- Positions are exact. Wherever a scanner of a text stands, its next token has an exact place: one
between two characters, with as many lines and columns as the text before it has newlines and,
behind the last of them, code points; and the table of line starts leads back from its offset to it,
so that no access to the table or to the text misses. The errors of the scanner and of the reader
are shown with a place that is exact in the same way: that of a string literal's quote or of a token
that was taken off. -/
theorem positions_exact {source : List Char} {s : Scanner} (reached : s.Reached source) :
    (∀ token s', s.next = (.ok token, s') → token.start.Exact source) ∧
    (∀ e s', s.next = (.error e, s') → e.place.Exact source ∧ QuoteAt source e.place) ∧
    (∀ e s', s.readForm = (.error e, s') → e.place.Exact source ∧
      (QuoteAt source e.place ∨
        ∃ tokens u, s.Takes tokens u ∧ ∃ token ∈ tokens, token.start = e.place)) ∧
    ∀ e : SourceError,
      ∃ code message snippet, e.diagnostic = .located code message e.place snippet := by
  refine ⟨fun token s' => reached.exact_token, fun e s' => reached.exact_error, ?_,
    SourceError.diagnostic_eq_located⟩
  intro e s' failed
  rcases Scanner.place_of_readForm_eq_error failed with
    ⟨tokens, u, takes, token, member, same⟩ | ⟨tokens, u, takes, next⟩
  · refine ⟨?_, .inr ⟨tokens, u, takes, token, member, same⟩⟩
    rw [← same]
    exact takes.exact_tokens reached token member
  · obtain ⟨exact_, quote⟩ := (reached.takes takes).exact_error next
    exact ⟨exact_, .inl quote⟩

/-- Behind a letter of two bytes and two newlines, a list is opened and never closed: the reader
blames the opening parenthesis, at the sixth byte and in the second column of the third line. -/
theorem positions_exact_unbalanced :
    let source := "é\n\n (".toList
    let s := (Scanner.ofSource source).next.2
    let opening : Position := ⟨5, 3, 2⟩
    s.Reached source ∧ s.next.1 = .ok ⟨.opening, ['('], opening⟩ ∧
      s.readForm.1 = .error (.unbalanced opening) ∧ opening.Exact source := by
  intro source s opening
  have reached : s.Reached source := .next .start
  have failed : s.readForm = (.error (.unbalanced opening), s.readForm.2) := rfl
  exact ⟨reached, rfl, rfl, ((positions_exact reached).2.2.1 _ _ failed).1⟩

end SmallLisp
