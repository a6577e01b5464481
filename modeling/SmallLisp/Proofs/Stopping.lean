import SmallLisp.Proofs.Grammar
import SmallLisp.Proofs.LineByLine

/-!
Where the reader stops.

The reader takes tokens in as long as its stack only changes (`Reading.Leads`), and then stops in one
of four ways (`Reading.Stops`): a token completes the form, a token cannot stand where it does, the
text ends, or a string literal is not closed. Every result comes about like this
(`Scanner.readForm_eq_iff`). In the first two ways the reader has looked at nothing behind the token
that decides, so that no text below can change the result (`read_settled_above`).
-/

namespace SmallLisp

namespace Reading

/-! ### The tokens before the one that decides -/

/-- The tokens, taken in one after the other, lead from one stack to another. -/
inductive Leads : List Pending → List Token → List Pending → Prop
  | nil {stack : List Pending} : Leads stack [] stack
  | cons {stack middle stack' : List Pending} {token : Token} {tokens : List Token} :
      step stack token = .more middle → Leads middle tokens stack' →
      Leads stack (token :: tokens) stack'

namespace Leads

variable {stack stack' : List Pending} {tokens : List Token}

/-- The end of the text leads nowhere. -/
theorem kind_ne_finish (leads : Leads stack tokens stack') :
    ∀ token ∈ tokens, token.kind ≠ .finish := by
  induction leads with
  | nil => exact List.forall_mem_nil _
  | @cons stack middle stack' token tokens taken _ ih =>
    refine List.forall_mem_cons.mpr ⟨fun last => ?_, ih⟩
    simp only [step, last] at taken
    cases taken

/-- Reading on behind the tokens is reading from the stack that they lead to. -/
theorem run_eq (leads : Leads stack tokens stack') {s u : Scanner} (takes : s.Takes tokens u)
    (count : Nat) : run (tokens.length + count) stack s = run count stack' u := by
  induction leads generalizing s with
  | nil =>
    cases takes
    rw [List.length_nil, Nat.zero_add]
  | cons taken _ ih =>
    cases takes with
    | cons next others =>
      rw [List.length_cons, Nat.add_right_comm, run_succ next, taken]
      exact ih others

end Leads

/-! ### The ways to stop -/

/-- With this stack and before this text the reader stops, with a result and a text left. -/
inductive Stops (stack : List Pending) (s : Scanner) : Except SourceError Value → Scanner → Prop
  | value {token : Token} {s' : Scanner} {v : Value} :
      s.next = (.ok token, s') → step stack token = .done v → Stops stack s (.ok v) s'
  | refused {token : Token} {s' : Scanner} {e : SourceError} :
      s.next = (.ok token, s') → token.kind ≠ .finish → step stack token = .failed e →
      Stops stack s (.error e) s'
  | ended {token : Token} {s' : Scanner} :
      s.next = (.ok token, s') → token.kind = .finish →
      Stops stack s (.error (atEnd token.start stack)) s'
  | broken {s' : Scanner} {e : SourceError} : s.next = (.error e, s') → Stops stack s (.error e) s'

/-- Where the reader stops, a run ends with its result, however many tokens it may take. -/
theorem Stops.run_eq {stack : List Pending} {s s' : Scanner} {r : Except SourceError Value}
    (stops : Stops stack s r s') (count : Nat) : run (count + 1) stack s = (r, s') := by
  cases stops with
  | value next done => rw [run_succ next, done, proceed]
  | refused next _ failed => rw [run_succ next, failed, proceed]
  | ended next last => simp only [run_succ next, step, last, proceed]
  | broken next => rw [run, next]

/-- A run with enough tokens gives the result with which the reader stops. -/
theorem run_eq_of_stops {stack stack' : List Pending} {tokens : List Token} {s u s' : Scanner}
    {r : Except SourceError Value} (takes : s.Takes tokens u) (leads : Leads stack tokens stack')
    (stops : Stops stack' u r s') {count : Nat} (enough : s.rest.length < count) :
    run count stack s = (r, s') := by
  have fewer := takes.length_le leads.kind_ne_finish
  have bound : count = tokens.length + (count - tokens.length - 1 + 1) := by omega
  rw [bound, leads.run_eq takes, stops.run_eq]

/-- A run that has enough tokens for the text stops somewhere. -/
theorem exists_stops {count : Nat} {s : Scanner} (enough : s.rest.length < count)
    (stack : List Pending) : ∃ tokens stack' u, s.Takes tokens u ∧ Leads stack tokens stack' ∧
      Stops stack' u (run count stack s).1 (run count stack s).2 := by
  induction count generalizing s stack with
  | zero => cases enough
  | succ count ih =>
    rcases next : s.next with ⟨e | token, u⟩
    · have stops : Stops stack s (.error e) u := .broken next
      rw [stops.run_eq]
      exact ⟨[], stack, s, .nil, .nil, stops⟩
    · by_cases last : token.kind = .finish
      · have stops : Stops stack s _ u := .ended next last
        rw [stops.run_eq]
        exact ⟨[], stack, s, .nil, .nil, stops⟩
      · cases taken : step stack token with
        | more middle =>
          have shorter := Scanner.next_rest_lt next last
          obtain ⟨tokens, stack', v, takes, leads, stops⟩ := ih (s := u) (by omega) middle
          rw [run_succ next, taken]
          exact ⟨token :: tokens, stack', v, .cons next takes, .cons taken leads, stops⟩
        | done v =>
          have stops : Stops stack s (.ok v) u := .value next taken
          rw [stops.run_eq]
          exact ⟨[], stack, s, .nil, .nil, stops⟩
        | failed e =>
          have stops : Stops stack s (.error e) u := .refused next last taken
          rw [stops.run_eq]
          exact ⟨[], stack, s, .nil, .nil, stops⟩

end Reading

namespace Scanner

open Reading

/-- Whatever the reader answers, tokens lead it to a stack with which it stops, and where it stops
so it gives this answer. -/
theorem readForm_eq_iff {s s' : Scanner} {r : Except SourceError Value} :
    s.readForm = (r, s') ↔
      ∃ tokens stack u, s.Takes tokens u ∧ Leads [] tokens stack ∧ Stops stack u r s' := by
  constructor
  · intro ran
    obtain ⟨tokens, stack, u, takes, leads, stops⟩ := exists_stops (Nat.lt_succ_self s.rest.length) []
    rw [show run (s.rest.length + 1) [] s = (r, s') from ran] at stops
    exact ⟨tokens, stack, u, takes, leads, stops⟩
  · rintro ⟨tokens, stack, u, takes, leads, stops⟩
    exact run_eq_of_stops takes leads stops (Nat.lt_succ_self _)

end Scanner

open Reading Scanner

/-- What is read of a text is settled by the tokens before the stop and the stop itself. -/
theorem read_eq_iff {source : List Char} {r : Except SourceError Value} :
    read source = r ↔ ∃ tokens stack u s', (ofSource source).Takes tokens u ∧
      Leads [] tokens stack ∧ Stops stack u r s' := by
  constructor
  · intro result
    obtain ⟨tokens, stack, u, takes, leads, stops⟩ :=
      readForm_eq_iff.mp (Prod.ext result rfl : (ofSource source).readForm = (r, _))
    exact ⟨tokens, stack, u, _, takes, leads, stops⟩
  · rintro ⟨tokens, stack, u, s', takes, leads, stops⟩
    exact congrArg Prod.fst (readForm_eq_iff.mpr ⟨tokens, stack, u, takes, leads, stops⟩)

/-! ### Texts below -/

/-- A text that stands below takes nothing from the tokens above, and changes none of them. -/
theorem Scanner.Takes.above {a : List Char} {tokens : List Token} {u : Scanner}
    (takes : (ofSource a).Takes tokens u) (more : ∀ token ∈ tokens, token.kind ≠ .finish)
    (b : List Char) : (ofSource (a ++ '\n' :: b)).Takes tokens
      ⟨a ++ '\n' :: b, u.position, u.rest ++ '\n' :: b⟩ := by
  obtain ⟨taken, whole, -, again⟩ := takes.relocate more
  have moved := again (a ++ '\n' :: b) (u.rest ++ '\n' :: b) fun last member =>
    (takes.last_endsBefore last member).newline (more last (List.mem_of_getLast? member)) b
  rwa [← List.append_assoc, ← whole] at moved

/-- A token that is taken off a text is taken off the longer text as well, in the same place. -/
theorem Scanner.Takes.next_above {source : List Char} {tokens : List Token} {token : Token}
    {u s' : Scanner} (takes : (ofSource source).Takes tokens u)
    (more : ∀ token ∈ tokens, token.kind ≠ .finish) (next : u.next = (.ok token, s'))
    (kind : token.kind ≠ .finish) (later : List Char) :
    ∃ u' s'', (ofSource (source ++ '\n' :: later)).Takes tokens u' ∧ u'.next = (.ok token, s'') := by
  have whole := Takes.append_iff.mpr ⟨u, takes, Takes.singleton_iff.mpr next⟩
  have above := whole.above (List.forall_mem_append.mpr ⟨more, by simpa using kind⟩) later
  obtain ⟨u', before, last⟩ := Takes.append_iff.mp above
  exact ⟨u', _, before, Takes.singleton_iff.mp last⟩

/-- The errors of a text that ends too early have other codes than those of a token that cannot stand
where it does. -/
theorem Reading.atEnd_code (finish : Position) (stack : List Pending) :
    (atEnd finish stack).diagnostic.code ∉ ["READ002", "READ003"] := by
  unfold atEnd
  split <;> simp [SourceError.diagnostic, Diagnostic.located]

/-- A result is settled by the shortest text that gives it. If a text reads as a value, or fails
because a closing parenthesis stands where a form has to or because an atom is of no kind, then it
comes to the same value or to the same error, at the same place, whatever stands below it. -/
theorem read_settled_above {source : List Char}
    (settled : (∃ v, read source = .ok v) ∨
      ∃ e, read source = .error e ∧ e.diagnostic.code ∈ ["READ002", "READ003"])
    (later : List Char) : read (source ++ '\n' :: later) = read source := by
  obtain ⟨tokens, stack, u, s', takes, leads, stops⟩ := read_eq_iff.mp (rfl : read source = _)
  generalize read source = r at settled stops ⊢
  -- Only a token can settle the result, and in the longer text the same stack waits for it.
  cases stops with
  | @value token s' v next done =>
    have kind : token.kind ≠ .finish := by
      intro last
      simp only [step, last] at done
      cases done
    obtain ⟨u', s'', before, last⟩ := takes.next_above leads.kind_ne_finish next kind later
    exact read_eq_iff.mpr ⟨tokens, stack, u', s'', before, leads, .value last done⟩
  | refused next kind failed =>
    obtain ⟨u', s'', before, last⟩ := takes.next_above leads.kind_ne_finish next kind later
    exact read_eq_iff.mpr ⟨tokens, stack, u', s'', before, leads, .refused last kind failed⟩
  | @ended token s' next last =>
    rcases settled with ⟨v, impossible⟩ | ⟨e, same, code⟩
    · cases impossible
    · cases same
      exact absurd code (atEnd_code token.start stack)
  | broken next =>
    obtain ⟨start, line, rfl, -⟩ := next_eq_error next
    rcases settled with ⟨v, impossible⟩ | ⟨e, same, code⟩
    · cases impossible
    · cases same
      simp [SourceError.diagnostic, Diagnostic.located] at code

/-- An atom of no kind inside a list is refused where it stands, although the line below holds a
string that is not closed. -/
theorem read_settled_above_unknown_atom :
    let refused : Except SourceError Value := .error (.unknownAtom ['#'] ⟨1, 1, 2⟩)
    read "(#".toList = refused ∧ read "(#\n\"".toList = refused := by
  intro refused
  have result : read "(#".toList = refused := rfl
  exact ⟨result, (read_settled_above (.inr ⟨_, result, by decide⟩) ['\"']).trans result⟩

end SmallLisp
