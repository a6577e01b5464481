import SmallLisp.Proofs.Stopping

/-!
Texts that end too early.

An opening parenthesis is not closed if no initial part of the tokens behind it has more closing than
opening ones (`Token.Unclosed`). The stack of the reader holds exactly these parentheses
(`Reading.Leads.tracks`). When the text ends inside a list, the reader would go on below it with the
same stack (`read_below`): each closing parenthesis there completes one list, and the last of them
completes the form. Nothing else that can be wrong with a text is mended by closing parentheses, so
that the error for an unbalanced text means that the text is unfinished
(`unbalanced_means_unfinished`).
-/

namespace SmallLisp

namespace Token

/-! ### Parentheses that are not closed -/

def count (kind : TokenKind) (tokens : List Token) : Nat :=
  (tokens.map Token.kind).count kind

/-- No initial part of the tokens has more closing than opening parentheses, so that none of them
closes a parenthesis opened before them. -/
def LeavesOpen (tokens : List Token) : Prop :=
  ∀ part, part <+: tokens → count .closing part ≤ count .opening part

/-- The opening parenthesis `token` is closed by none of the tokens behind it, which leave `inner`
parentheses open themselves. -/
def Unclosed (tokens : List Token) (inner : Nat) (token : Token) : Prop :=
  ∃ before behind, tokens = before ++ token :: behind ∧ token.kind = .opening ∧ LeavesOpen behind ∧
    count .opening behind = count .closing behind + inner

theorem count_append (kind : TokenKind) (tokens tokens' : List Token) :
    count kind (tokens ++ tokens') = count kind tokens + count kind tokens' := by
  simp [count]

/-- One more token leaves the earlier parts as they are. -/
theorem LeavesOpen.concat {tokens : List Token} {token : Token} (leaves : LeavesOpen tokens)
    (enough : count .closing (tokens ++ [token]) ≤ count .opening (tokens ++ [token])) :
    LeavesOpen (tokens ++ [token]) := by
  intro part initial
  rcases List.prefix_concat_iff.mp initial with rfl | earlier
  · exact enough
  · exact leaves part earlier

/-- One more token opens or closes a parenthesis behind those that are open. -/
theorem Unclosed.concat {tokens : List Token} {inner inner' : Nat} {opened token : Token}
    (unclosed : Unclosed tokens inner opened)
    (balance : count .opening [token] + inner = count .closing [token] + inner') :
    Unclosed (tokens ++ [token]) inner' opened := by
  obtain ⟨before, behind, rfl, kind, leaves, left⟩ := unclosed
  have total : count .opening (behind ++ [token]) = count .closing (behind ++ [token]) + inner' := by
    rw [count_append, count_append]
    omega
  exact ⟨before, behind ++ [token], by simp, kind, leaves.concat (by omega), total⟩

/-- The parentheses that the tokens leave open stand at the given places, the innermost first. -/
structure Tracks (tokens : List Token) (places : List Position) : Prop where
  balance : count .opening tokens = count .closing tokens + places.length
  unclosed : ∀ j p, places[j]? = some p → ∃ token, Unclosed tokens j token ∧ token.start = p

namespace Tracks

variable {tokens : List Token} {places : List Position} {token : Token}

theorem nil : Tracks [] [] :=
  ⟨rfl, nofun⟩

/-- An opening parenthesis is the innermost from then on. -/
theorem opening (tracks : Tracks tokens places) (kind : token.kind = .opening) :
    Tracks (tokens ++ [token]) (token.start :: places) where
  balance := by
    have here : count .opening [token] = 1 ∧ count .closing [token] = 0 := by simp [count, kind]
    rw [count_append, count_append, List.length_cons, tracks.balance]
    omega
  unclosed := by
    rintro (_ | j) p found
    · cases found
      have leaves : LeavesOpen [] := by
        intro part initial
        rw [List.prefix_nil.mp initial]
        exact Nat.le_refl _
      exact ⟨token, ⟨tokens, [], rfl, kind, leaves, rfl⟩, rfl⟩
    · obtain ⟨opened, unclosed, start⟩ := tracks.unclosed j p found
      exact ⟨opened, unclosed.concat (by simp [count, kind]; omega), start⟩

/-- A closing parenthesis closes the innermost one. -/
theorem closing {p : Position} (tracks : Tracks tokens (p :: places)) (kind : token.kind = .closing) :
    Tracks (tokens ++ [token]) places where
  balance := by
    have here : count .opening [token] = 0 ∧ count .closing [token] = 1 := by simp [count, kind]
    have before := tracks.balance
    rw [List.length_cons] at before
    rw [count_append, count_append]
    omega
  unclosed j p found := by
    obtain ⟨opened, unclosed, start⟩ := tracks.unclosed (j + 1) p found
    exact ⟨opened, unclosed.concat (by simp [count, kind]; omega), start⟩

theorem other (tracks : Tracks tokens places) (opens : token.kind ≠ .opening)
    (closes : token.kind ≠ .closing) : Tracks (tokens ++ [token]) places where
  balance := by
    have here : count .opening [token] = 0 ∧ count .closing [token] = 0 := by
      simp [count, opens, closes]
    rw [count_append, count_append, tracks.balance]
    omega
  unclosed j p found := by
    obtain ⟨opened, unclosed, start⟩ := tracks.unclosed j p found
    exact ⟨opened, unclosed.concat (by simp [count, opens, closes]), start⟩

end Tracks

/-! ### String literals that are not closed -/

theorem splitLexeme_eq_none {cs : List Char} (unclosed : splitLexeme cs = none) :
    ∃ body, cs = '\"' :: body ∧ splitString false body = none := by
  unfold splitLexeme at unclosed
  split at unclosed
  case h_8 body => exact ⟨body, rfl, Option.map_eq_none_iff.mp unclosed⟩
  all_goals cases unclosed

/-- Only a quote closes a string literal. -/
theorem splitString_of_not_mem {cs : List Char} (free : '\"' ∉ cs) (escaped : Bool) :
    splitString escaped cs = none := by
  induction cs generalizing escaped with
  | nil => rfl
  | cons c cs ih =>
    obtain ⟨quote, others⟩ := List.ne_and_not_mem_of_not_mem_cons free
    cases escaped <;> simp [splitString, Ne.symm quote, ih others]

/-- A string that is not closed stays open until a quote comes. -/
theorem splitString_append_eq_none {escaped : Bool} {cs later : List Char}
    (unclosed : splitString escaped cs = none) (free : '\"' ∉ later) :
    splitString escaped (cs ++ later) = none := by
  fun_induction splitString escaped cs with
  | case1 escaped => exact splitString_of_not_mem free escaped
  | case2 c cs ih => simp [splitString, ih (Option.map_eq_none_iff.mp unclosed)]
  | case3 => cases unclosed
  | case4 c cs open_ ih => simp [splitString, open_, ih (Option.map_eq_none_iff.mp unclosed)]

end Token

namespace Reading

open Token

/-! ### The lists on the stack -/

/-- Where the lists on a stack were opened, the innermost first. -/
def openings : List Pending → List Position
  | [] => []
  | .list opening _ :: stack => opening :: openings stack
  | .quotation .. :: stack => openings stack

/-- A completed form ends up in the innermost list, or is the result if there is none. -/
theorem complete_cases (stack : List Pending) (v : Value) :
    (openings stack = [] ∧ ∃ w, complete stack v = .done w) ∨
      ∃ p items outer, complete stack v = .more (.list p items :: outer) ∧
        openings stack = p :: openings outer := by
  fun_induction complete stack v with
  | case1 v => exact .inl ⟨rfl, v, rfl⟩
  | case2 => exact .inr ⟨_, _, _, rfl, rfl⟩
  | case3 _ _ _ _ _ ih => exact ih

/-- Handing over a form neither opens nor closes a list. -/
theorem openings_of_complete {stack stack' : List Pending} {v : Value}
    (completed : complete stack v = .more stack') : openings stack' = openings stack := by
  rcases complete_cases stack v with ⟨-, w, done⟩ | ⟨p, items, outer, more, same⟩
  · rw [done] at completed
    cases completed
  · rw [more] at completed
    cases completed
    exact same.symm

/-- The stack keeps track of the parentheses that the tokens leave open. -/
theorem step_tracks {stack stack' : List Pending} {token : Token} {tokens : List Token}
    (tracks : Tracks tokens (openings stack)) (taken : step stack token = .more stack') :
    Tracks (tokens ++ [token]) (openings stack') := by
  have marked : ∀ keyword, token.kind.quotation? = some keyword →
      Tracks (tokens ++ [token]) (openings stack') := by
    intro keyword quotation
    rw [step_quotation quotation] at taken
    cases taken
    refine tracks.other ?_ ?_ <;> intro kind <;> simp [kind, TokenKind.quotation?] at quotation
  cases kind : token.kind with
  | opening =>
    rw [step_opening kind] at taken
    cases taken
    exact tracks.opening kind
  | closing =>
    rcases stack with _ | ⟨⟨p, items⟩ | _, stack⟩
    · simp only [step, kind] at taken
      cases taken
    · rw [step_closing kind] at taken
      rw [openings_of_complete taken]
      exact tracks.closing kind
    · simp only [step, kind] at taken
      cases taken
  | string =>
    simp only [step, kind] at taken
    rw [openings_of_complete taken]
    exact tracks.other (by simp [kind]) (by simp [kind])
  | atom =>
    simp only [step, kind] at taken
    split at taken
    · rw [openings_of_complete taken]
      exact tracks.other (by simp [kind]) (by simp [kind])
    · cases taken
  | finish =>
    simp only [step, kind] at taken
    cases taken
  | _ => exact marked _ (by rw [kind]; rfl)

/-- The stack of a reader has the parentheses that its tokens leave open. -/
theorem Leads.tracks {stack stack' : List Pending} {tokens before : List Token}
    (leads : Leads stack tokens stack') (tracks : Tracks before (openings stack)) :
    Tracks (before ++ tokens) (openings stack') := by
  induction leads generalizing before with
  | nil => rwa [List.append_nil]
  | cons taken _ ih =>
    have whole := ih (step_tracks tracks taken)
    rwa [List.append_assoc, List.singleton_append] at whole

/-! ### Closing what is open -/

/-- Fewer closing parentheses than there are lists leave the outer lists open. -/
theorem exists_leads_closing {closers : List Token}
    (closing : ∀ token ∈ closers, token.kind = .closing) (p : Position) (items : List Value)
    {stack : List Pending} (fewer : closers.length ≤ (openings stack).length) :
    ∃ p' items' stack', Leads (.list p items :: stack) closers (.list p' items' :: stack') ∧
      (p :: openings stack)[closers.length]? = some p' := by
  induction closers generalizing p items stack with
  | nil => exact ⟨p, items, stack, .nil, rfl⟩
  | cons closer closers ih =>
    obtain ⟨here, others⟩ := List.forall_mem_cons.mp closing
    rcases complete_cases stack (.list items.reverse) with ⟨none, -⟩ | ⟨p', items', outer, more, same⟩
    · rw [none] at fewer
      cases fewer
    · rw [same, List.length_cons, List.length_cons] at fewer
      obtain ⟨p'', items'', stack', leads, place⟩ :=
        ih others p' items' (Nat.le_of_succ_le_succ fewer)
      refine ⟨p'', items'', stack', .cons ((step_closing here p items stack).trans more) leads, ?_⟩
      rw [same]
      exact place

/-- As many closing parentheses as there are lists complete the form, the same form each time. -/
theorem exists_value_of_closing (p : Position) (items : List Value) (stack : List Pending) :
    ∃ v, ∀ closers last, (∀ token ∈ closers ++ [last], token.kind = .closing) →
      closers.length = (openings stack).length →
      ∃ stack', Leads (.list p items :: stack) closers stack' ∧ step stack' last = .done v := by
  induction depth : (openings stack).length generalizing p items stack with
  | zero =>
    rcases complete_cases stack (.list items.reverse) with ⟨-, v, done⟩ | ⟨p', items', outer, -, same⟩
    · refine ⟨v, fun closers last closing none => ?_⟩
      rw [List.length_eq_zero_iff] at none
      subst none
      exact ⟨_, .nil, (step_closing (closing last (by simp)) p items stack).trans done⟩
    · rw [same] at depth
      cases depth
  | succ n ih =>
    rcases complete_cases stack (.list items.reverse) with ⟨none, -⟩ | ⟨p', items', outer, more, same⟩
    · rw [none] at depth
      cases depth
    · rw [same, List.length_cons] at depth
      obtain ⟨v, closes⟩ := ih p' items' outer (Nat.succ.inj depth)
      refine ⟨v, fun closers last closing number => ?_⟩
      cases closers with
      | nil => cases number
      | cons closer closers =>
        obtain ⟨here, others⟩ := List.forall_mem_cons.mp closing
        obtain ⟨stack', leads, done⟩ := closes closers last others (Nat.succ.inj number)
        exact ⟨stack', .cons ((step_closing here p items stack).trans more) leads, done⟩

end Reading

/-! ### The text below an unfinished one -/

namespace Scanner

/-- A row of closing parentheses gives as many tokens. -/
theorem exists_takes_closing (source : List Char) (p : Position) (count : Nat) (rest : List Char) :
    ∃ closers p', Takes ⟨source, p, List.replicate count ')' ++ rest⟩ closers ⟨source, p', rest⟩ ∧
      closers.length = count ∧ ∀ token ∈ closers, token.kind = .closing := by
  induction count generalizing p with
  | zero => exact ⟨[], p, .nil, rfl, List.forall_mem_nil _⟩
  | succ count ih =>
    have next : Scanner.next ⟨source, p, List.replicate (count + 1) ')' ++ rest⟩ =
        (.ok ⟨.closing, [')'], p⟩, ⟨source, p.next ')', List.replicate count ')' ++ rest⟩) := rfl
    obtain ⟨closers, p', takes, length, closing⟩ := ih (p.next ')')
    refine ⟨_ :: closers, p', .cons next takes, by rw [List.length_cons, length], ?_⟩
    exact List.forall_mem_cons.mpr ⟨rfl, closing⟩

/-- Before the end of the text is nothing but trivia. -/
theorem splitTrivia_of_next_finish {s s' : Scanner} {token : Token} (next : s.next = (.ok token, s'))
    (last : token.kind = .finish) : (Token.splitTrivia false s.rest).2 = [] := by
  obtain ⟨-, -, nothing⟩ := next_finish next last
  obtain ⟨gap, split, spelled, -⟩ := next_eq_ok_iff.mp next
  rw [last] at spelled
  rw [split, nothing, show token.lexeme = [] from spelled]
  rfl

/-- A call fails for a string literal that no quote closes, at its opening quote and with the line
there, and leaves nothing unread. -/
theorem next_eq_error_iff {s s' : Scanner} {e : SourceError} : s.next = (.error e, s') ↔
    ∃ gap body, Token.splitTrivia false s.rest = (gap, '\"' :: body) ∧
      Token.splitString false body = none ∧
      e = .unterminatedString (s.position.after gap)
        (sourceLine ((s.position.after gap).line - 1) s.source) ∧
      s' = ⟨s.source, (s.position.after gap).after ('\"' :: body), []⟩ := by
  unfold next
  constructor
  · intro failed
    dsimp only at failed
    split at failed
    · cases failed
    · next unclosed =>
      obtain ⟨body, text, open_⟩ := Token.splitLexeme_eq_none unclosed
      rw [text] at failed
      cases failed
      exact ⟨_, body, Prod.ext rfl text, open_, rfl, rfl⟩
  · rintro ⟨gap, body, split, open_, rfl, rfl⟩
    simp only [split, Token.splitLexeme, open_, Option.map_none]

/-- A call that fails fails as well when more text without a quote follows. -/
theorem next_fails_append {s : Scanner} (failed : ∃ e s', s.next = (.error e, s'))
    {later : List Char} (free : '\"' ∉ later) (source : List Char) :
    ∃ e s', next ⟨source, s.position, s.rest ++ later⟩ = (.error e, s') := by
  obtain ⟨e, s', failed⟩ := failed
  obtain ⟨gap, body, split, open_, -⟩ := next_eq_error_iff.mp failed
  have whole := Token.splitTrivia_append false s.rest
  rw [split] at whole
  have unclosed := Token.splitString_append_eq_none open_ free
  refine ⟨_, _, next_eq_error_iff.mpr ⟨gap, body ++ later, ?_, unclosed, rfl, rfl⟩⟩
  have settled : Token.Settled ('\"' :: (body ++ later)) := ⟨rfl, by decide⟩
  rw [← Token.splitTrivia_append_right split (List.cons_ne_nil _ _) settled, ← whole]
  simp

end Scanner

open Reading Scanner

/-- The reader looks at a text only through the next token. -/
theorem Reading.run_congr {s s' : Scanner} (same : s.next = s'.next) (count : Nat)
    (stack : List Pending) : run (count + 1) stack s = run (count + 1) stack s' := by
  rw [run, run, same]

/-- Where a text ends before its form is complete, the reader goes on below with the stack it has. -/
theorem read_below {source b : List Char} {tokens tokens' : List Token} {stack stack' : List Pending}
    {u v s' : Scanner} {r : Except SourceError Value} (takes : (ofSource source).Takes tokens u)
    (leads : Leads [] tokens stack) (trivia : (Token.splitTrivia false u.rest).2 = [])
    (further : Takes ⟨source ++ '\n' :: b, u.position.after (u.rest ++ ['\n']), b⟩ tokens' v)
    (leads' : Leads stack tokens' stack') (stops : Stops stack' v r s') :
    read (source ++ '\n' :: b) = r := by
  have above := takes.above leads.kind_ne_finish b
  have fewer : tokens.length + (u.rest ++ '\n' :: b).length ≤ (source ++ '\n' :: b).length :=
    above.length_le leads.kind_ne_finish
  have longer : b.length < (u.rest ++ '\n' :: b).length := by
    rw [List.length_append, List.length_cons]
    omega
  have bound : (source ++ '\n' :: b).length + 1 =
      tokens.length + ((source ++ '\n' :: b).length - tokens.length + 1) := by omega
  have ran := run_eq_of_stops further leads' stops
    (show b.length < (source ++ '\n' :: b).length - tokens.length + 1 by omega)
  change (run ((source ++ '\n' :: b).length + 1) [] (ofSource (source ++ '\n' :: b))).1 = r
  rw [bound, leads.run_eq above, run_congr (next_newline trivia), ran]

/-! ### Closing parentheses below a text -/

/-- The text with a line of closing parentheses below it. -/
def closedBelow (source : List Char) (count : Nat) : List Char :=
  source ++ '\n' :: List.replicate count ')'

section Closing

variable {source : List Char} {tokens : List Token} {u : Scanner} {p : Position}
  {items : List Value} {stack : List Pending} (takes : (ofSource source).Takes tokens u)
  (leads : Leads [] tokens (.list p items :: stack))
  (trivia : (Token.splitTrivia false u.rest).2 = [])

include takes leads trivia

/-- With fewer closing parentheses than lists are open, the text ends in an outer list. -/
theorem read_closedBelow_of_fewer {count : Nat} (fewer : count ≤ (openings stack).length) :
    ∃ p', (p :: openings stack)[count]? = some p' ∧
      read (closedBelow source count) = .error (.unbalanced p') := by
  obtain ⟨closers, q, given, rfl, closing⟩ := exists_takes_closing (closedBelow source count)
    (u.position.after (u.rest ++ ['\n'])) count []
  obtain ⟨p', items', stack', more, place⟩ := exists_leads_closing closing p items fewer
  rw [List.append_nil] at given
  exact ⟨p', place, read_below takes leads trivia given more (.ended (next_of_rest_eq_nil rfl) rfl)⟩

/-- With as many closing parentheses as lists are open, or more, the text has one value. -/
theorem read_closedBelow_of_enough :
    ∃ v, ∀ count, (openings stack).length < count → read (closedBelow source count) = .ok v := by
  obtain ⟨v, closes⟩ := exists_value_of_closing p items stack
  refine ⟨v, fun count enough => ?_⟩
  have row : List.replicate (openings stack).length ')' ++
      ')' :: List.replicate (count - (openings stack).length - 1) ')' = List.replicate count ')' := by
    rw [← List.replicate_succ, List.replicate_append_replicate]
    congr 1
    omega
  obtain ⟨closers, q, given, length, closing⟩ := exists_takes_closing (closedBelow source count)
    (u.position.after (u.rest ++ ['\n'])) (openings stack).length
    (')' :: List.replicate (count - (openings stack).length - 1) ')')
  rw [row] at given
  obtain ⟨stack', more, done⟩ := closes closers ⟨.closing, [')'], q⟩
    (List.forall_mem_append.mpr ⟨closing, List.forall_mem_singleton.mpr rfl⟩) length
  exact read_below takes leads trivia given more (.value rfl done)

end Closing

/-! ### Other errors -/

/-- Two tokens cannot stand where they do: a closing parenthesis that closes nothing, and an atom
without a value. -/
theorem Reading.step_eq_failed {stack : List Pending} {token : Token} {e : SourceError}
    (failed : step stack token = .failed e) (more : token.kind ≠ .finish) :
    e = .unexpectedClosing token.start ∨ e = .unknownAtom token.lexeme token.start := by
  unfold step at failed
  split at failed
  · cases failed
  · split at failed
    · exact absurd failed (complete_ne_failed _ _ _)
    · cases failed
      exact .inl rfl
  · cases failed
  · cases failed
  · cases failed
  · cases failed
  · exact absurd failed (complete_ne_failed _ _ _)
  · split at failed
    · exact absurd failed (complete_ne_failed _ _ _)
    · cases failed
      exact .inr rfl
  · next last => exact absurd last more

/-- Where a closing parenthesis cannot stand, no number of them completes the form. -/
theorem read_closedBelow_of_refused {source : List Char} {tokens : List Token} {u : Scanner}
    {stack : List Pending} (takes : (ofSource source).Takes tokens u)
    (leads : Leads [] tokens stack) (trivia : (Token.splitTrivia false u.rest).2 = [])
    (refused : ∀ place, ∃ e, step stack ⟨.closing, [')'], place⟩ = .failed e) (count : Nat) :
    ∃ e, read (closedBelow source count) = .error e := by
  cases count with
  | zero => exact ⟨_, read_below takes leads trivia .nil .nil (.ended (next_of_rest_eq_nil rfl) rfl)⟩
  | succ count =>
    obtain ⟨e, failed⟩ := refused (u.position.after (u.rest ++ ['\n']))
    exact ⟨e, read_below takes leads trivia .nil .nil (.refused rfl (by simp) failed)⟩

/-- Closing parentheses mend no text but one that ends inside a list. -/
theorem unbalanced_of_closedBelow {source : List Char} {e : SourceError} {count : Nat} {v : Value}
    (failed : read source = .error e) (mended : read (closedBelow source count) = .ok v) :
    e.diagnostic.code = "READ001" := by
  obtain ⟨tokens, stack, u, s', takes, leads, stops⟩ := read_eq_iff.mp failed
  cases stops with
  | refused next more refused =>
    obtain ⟨u', s'', before, again⟩ :=
      takes.next_above leads.kind_ne_finish next more (List.replicate count ')')
    have result := read_eq_iff.mpr
      ⟨tokens, stack, u', s'', before, leads, .refused again more refused⟩
    rw [closedBelow, result] at mended
    cases mended
  | broken next =>
    have free : '\"' ∉ '\n' :: List.replicate count ')' := by
      simp [List.mem_replicate]
    obtain ⟨e', s'', again⟩ := next_fails_append ⟨_, _, next⟩ free (closedBelow source count)
    have above := takes.above leads.kind_ne_finish (List.replicate count ')')
    have result := read_eq_iff.mpr ⟨tokens, stack, _, s'', above, leads, .broken again⟩
    rw [closedBelow, result] at mended
    cases mended
  | @ended token s' next last =>
    have accepts : ¬∀ place, ∃ e, step stack ⟨.closing, [')'], place⟩ = .failed e := by
      intro refused
      obtain ⟨e', fails⟩ := read_closedBelow_of_refused takes leads
        (splitTrivia_of_next_finish next last) refused count
      rw [fails] at mended
      cases mended
    rcases stack with _ | ⟨⟨p, items⟩ | _, stack⟩
    · exact absurd (fun _ => ⟨_, rfl⟩) accepts
    · rfl
    · exact absurd (fun _ => ⟨_, rfl⟩) accepts

/-- A text that ends inside a list has been read up to its end, with that list on the stack. -/
theorem exists_leads_of_unbalanced {source : List Char} {e : SourceError}
    (failed : read source = .error e) (code : e.diagnostic.code = "READ001") :
    ∃ tokens u token s' p items stack, (ofSource source).Takes tokens u ∧
      Leads [] tokens (.list p items :: stack) ∧ u.next = (.ok token, s') ∧ token.kind = .finish ∧
      e = .unbalanced p := by
  obtain ⟨tokens, stack, u, s', takes, leads, stops⟩ := read_eq_iff.mp failed
  cases stops with
  | refused next more refused =>
    rcases step_eq_failed refused more with rfl | rfl <;>
      simp [SourceError.diagnostic, Diagnostic.located] at code
  | broken next =>
    obtain ⟨start, line, rfl, -⟩ := next_eq_error next
    simp [SourceError.diagnostic, Diagnostic.located] at code
  | @ended token s' next last =>
    rcases stack with _ | ⟨⟨p, items⟩ | _, stack⟩
    · simp [atEnd, SourceError.diagnostic, Diagnostic.located] at code
    · exact ⟨tokens, u, token, s', p, items, stack, takes, leads, next, last, rfl⟩
    · simp [atEnd, SourceError.diagnostic, Diagnostic.located] at code

/-- A text is reported as unbalanced exactly if it is unfinished: it is no form, and closing
parentheses below it make it one. Then let `k` be the number by which its opening parentheses exceed
the closing ones. There is at least one, the error stands at the last opening parenthesis that
nothing closes, fewer than `k` closing parentheses lead to the same error at the innermost parenthesis
that is still open, and `k` or more of them all lead to the same value. -/
theorem unbalanced_means_unfinished (source : List Char) :
    ((∃ e, read source = .error e ∧ e.diagnostic.code = "READ001") ↔
      (∃ e, read source = .error e) ∧ ∃ count v, read (closedBelow source count) = .ok v) ∧
    ∀ e, read source = .error e → e.diagnostic.code = "READ001" →
      ∃ tokens k, tokenize source = .ok tokens ∧
        Token.count .opening tokens = Token.count .closing tokens + k ∧ 1 ≤ k ∧
        (∃ last, Token.Unclosed tokens 0 last ∧ e = .unbalanced last.start) ∧
        (∀ count < k, ∃ inner, Token.Unclosed tokens count inner ∧
          read (closedBelow source count) = .error (.unbalanced inner.start)) ∧
        ∃ v, ∀ count, k ≤ count → read (closedBelow source count) = .ok v := by
  refine ⟨⟨?_, ?_⟩, ?_⟩
  · rintro ⟨e, failed, code⟩
    obtain ⟨tokens, u, token, s', p, items, stack, takes, leads, next, last, -⟩ :=
      exists_leads_of_unbalanced failed code
    obtain ⟨v, closed⟩ :=
      read_closedBelow_of_enough takes leads (splitTrivia_of_next_finish next last)
    exact ⟨⟨e, failed⟩, _, v, closed _ (Nat.lt_succ_self _)⟩
  · rintro ⟨⟨e, failed⟩, count, v, mended⟩
    exact ⟨e, failed, unbalanced_of_closedBelow failed mended⟩
  · intro e failed code
    obtain ⟨tokens, u, token, s', p, items, stack, takes, leads, next, last, rfl⟩ :=
      exists_leads_of_unbalanced failed code
    have trivia := splitTrivia_of_next_finish next last
    have scanned := tokenize_eq_iff.mpr (takes.scans leads.kind_ne_finish (.last next last))
    have tracks : Token.Tracks (tokens ++ [token]) (p :: openings stack) :=
      (leads.tracks .nil).other (by simp [last]) (by simp [last])
    refine ⟨tokens ++ [token], (openings stack).length + 1, scanned, tracks.balance,
      Nat.le_add_left 1 _, ?_, ?_, read_closedBelow_of_enough takes leads trivia⟩
    · obtain ⟨opened, unclosed, start⟩ := tracks.unclosed 0 p rfl
      exact ⟨opened, unclosed, by rw [start]⟩
    · intro count fewer
      obtain ⟨p', place, result⟩ :=
        read_closedBelow_of_fewer takes leads trivia (Nat.le_of_lt_succ fewer)
      obtain ⟨opened, unclosed, rfl⟩ := tracks.unclosed count p' place
      exact ⟨opened, unclosed, result⟩

/-- Two lists are open, one of them quoted, although a comment holds a closing parenthesis and a
string an opening one. One closing parenthesis leaves the outer list open, and two or more
complete it. -/
theorem unbalanced_means_unfinished_quoted_list :
    let source := "('(\"(\" ; )".toList
    let tokens : List Token := [⟨.opening, ['('], ⟨0, 1, 1⟩⟩, ⟨.quote, ['\''], ⟨1, 1, 2⟩⟩,
      ⟨.opening, ['('], ⟨2, 1, 3⟩⟩, ⟨.string, "\"(\"".toList, ⟨3, 1, 4⟩⟩, ⟨.finish, [], ⟨10, 1, 11⟩⟩]
    read source = .error (.unbalanced ⟨2, 1, 3⟩) ∧ tokenize source = .ok tokens ∧
      (∃ last, Token.Unclosed tokens 0 last ∧ last.start = ⟨2, 1, 3⟩) ∧
      (∃ outer, Token.Unclosed tokens 1 outer ∧
        read (closedBelow source 1) = .error (.unbalanced outer.start)) ∧
      ∃ v, ∀ count, 2 ≤ count → read (closedBelow source count) = .ok v := by
  intro source tokens
  have failed : read source = .error (.unbalanced ⟨2, 1, 3⟩) := rfl
  have scanned : tokenize source = .ok tokens := rfl
  obtain ⟨tokens', k, same, balance, -, ⟨last, unclosed, place⟩, fewer, enough⟩ :=
    (unbalanced_means_unfinished source).2 _ failed rfl
  rw [scanned] at same
  cases same
  have two : k = 2 := by
    have opened : Token.count .opening tokens = 2 := by decide
    have closed : Token.count .closing tokens = 0 := by decide
    omega
  subst two
  have start := (SourceError.unbalanced.inj place).symm
  exact ⟨failed, scanned, ⟨last, unclosed, start⟩, fewer 1 (by decide), enough⟩

end SmallLisp
