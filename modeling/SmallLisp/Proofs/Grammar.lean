import SmallLisp.Proofs.Tokens
import SmallLisp.Source.Reading

/-!
The grammar of forms, and the reader that accepts exactly its sentences.

`Form tokens v` derives the value `v` from a whole row of tokens. The reader keeps on a stack what
is unfinished: `Reading.Resumes stack v tokens w` says that the tokens finish what is on the stack
once `v` has been handed to it, and give `w`. Each accepting run has a derivation behind it
(`Reading.sound`) and each derivation is followed by a run (`Form.run`), so that the reader returns
a value if and only if the grammar derives it (`Scanner.readForm_eq_ok_iff`).
-/

namespace SmallLisp

/-- The special form that a quotation mark stands for. -/
def TokenKind.quotation? : TokenKind → Option SpecialForm
  | quote => some .quote
  | quasiquote => some .quasiquote
  | unquote => some .unquote
  | splice => some .unquoteSplicing
  | _ => none

/-- The value of a token that is a form by itself. -/
def Token.value? (token : Token) : Option Value :=
  match token.kind with
  | .atom => Literal.atom? token.lexeme
  | .string => some (Literal.string token.lexeme)
  | _ => none

mutual

/-- The tokens are a form of the given value. -/
inductive Form : List Token → Value → Prop
  | literal {token : Token} {v : Value} : token.value? = some v → Form [token] v
  | quotation {mark : Token} {keyword : SpecialForm} {tokens : List Token} {v : Value} :
      mark.kind.quotation? = some keyword → Form tokens v →
      Form (mark :: tokens) (.list [.symbol keyword.name, v])
  | list {opening closing : Token} {tokens : List Token} {vs : List Value} :
      opening.kind = .opening → Forms tokens vs → closing.kind = .closing →
      Form (opening :: (tokens ++ [closing])) (.list vs)

/-- The tokens are forms of the given values, one after the other. -/
inductive Forms : List Token → List Value → Prop
  | nil : Forms [] []
  | cons {tokens tokens' : List Token} {v : Value} {vs : List Value} :
      Form tokens v → Forms tokens' vs → Forms (tokens ++ tokens') (v :: vs)

end

/-! ### The steps of the reader -/

namespace Reading

/-- Reads on after a token, with at most `count` more. -/
def proceed (count : Nat) (s : Scanner) : Step → Except SourceError Value × Scanner
  | .more stack => run count stack s
  | .done form => (.ok form, s)
  | .failed e => (.error e, s)

/-- A reader takes one token and goes on with what it leads to. -/
theorem run_succ {s s' : Scanner} {token : Token} (next : s.next = (.ok token, s')) (count : Nat)
    (stack : List Pending) :
    run (count + 1) stack s = proceed count s' (step stack token) := by
  rw [run, next]
  dsimp only
  cases step stack token <;> rfl

/-- A token that is a form by itself completes a form. -/
theorem step_literal {token : Token} {v : Value} (value : token.value? = some v)
    (stack : List Pending) : step stack token = complete stack v := by
  unfold Token.value? at value
  unfold step
  split at value
  · next kind => simp only [kind, value]
  · next kind =>
    cases value
    simp only [kind]
  · cases value

theorem step_quotation {mark : Token} {keyword : SpecialForm}
    (quotation : mark.kind.quotation? = some keyword) (stack : List Pending) :
    step stack mark = .more (.quotation keyword mark.lexeme mark.start :: stack) := by
  unfold TokenKind.quotation? at quotation
  unfold step
  split at quotation <;> cases quotation <;> simp only [*]

theorem step_opening {token : Token} (kind : token.kind = .opening) (stack : List Pending) :
    step stack token = .more (.list token.start [] :: stack) := by
  simp only [step, kind]

/-- A closing parenthesis completes the innermost list, with its elements in the order they came in.
-/
theorem step_closing {token : Token} (kind : token.kind = .closing) (opening : Position)
    (items : List Value) (stack : List Pending) :
    step (.list opening items :: stack) token = complete stack (.list items.reverse) := by
  simp only [step, kind]

end Reading

/-! ### A derivation is followed by a run -/

mutual

/-- Reading the tokens of a form hands its value to the stack. -/
theorem Form.run {tokens : List Token} {v : Value} (form : Form tokens v) {s s' : Scanner}
    (takes : s.Takes tokens s') (count : Nat) (stack : List Pending) :
    Reading.run (tokens.length + count) stack s =
      Reading.proceed count s' (Reading.complete stack v) := by
  cases form with
  | literal value =>
    have next := Scanner.Takes.singleton_iff.mp takes
    rw [List.length_singleton, Nat.add_comm, Reading.run_succ next, Reading.step_literal value]
  | @quotation mark keyword tokens v quotation form =>
    cases takes with
    | cons next takes =>
      rw [List.length_cons, Nat.add_right_comm, Reading.run_succ next,
        Reading.step_quotation quotation]
      exact form.run takes count _
  | @list opening closing tokens vs opens forms closes =>
    cases takes with
    | cons next takes =>
      obtain ⟨u, items, last⟩ := Scanner.Takes.append_iff.mp takes
      have bound : (opening :: (tokens ++ [closing])).length + count =
          tokens.length + (count + 1) + 1 := by
        simp only [List.length_cons, List.length_append, List.length_nil]
        omega
      rw [bound, Reading.run_succ next, Reading.step_opening opens, Reading.proceed,
        forms.run items, Reading.run_succ (Scanner.Takes.singleton_iff.mp last),
        Reading.step_closing closes]
      simp

/-- Reading the tokens of forms puts their values on the list that is being read. -/
theorem Forms.run {tokens : List Token} {vs : List Value} (forms : Forms tokens vs)
    {s s' : Scanner} (takes : s.Takes tokens s') (count : Nat) (opening : Position)
    (items : List Value) (stack : List Pending) :
    Reading.run (tokens.length + count) (.list opening items :: stack) s =
      Reading.run count (.list opening (vs.reverse ++ items) :: stack) s' := by
  cases forms with
  | nil =>
    cases takes
    simp
  | @cons tokens tokens' v vs form forms =>
    obtain ⟨u, first, others⟩ := Scanner.Takes.append_iff.mp takes
    rw [List.length_append, Nat.add_assoc, form.run first, Reading.complete, Reading.proceed,
      forms.run others]
    simp

end

/-! ### A run has a derivation behind it -/

namespace Reading

/-- The tokens finish what is on the stack, once `v` has been handed to it, and give `w`. -/
def Resumes : List Pending → Value → List Token → Value → Prop
  | [], v, tokens, w => tokens = [] ∧ w = v
  | .list _ items :: stack, v, tokens, w =>
    ∃ inner vs closing outer, tokens = inner ++ closing :: outer ∧ Forms inner vs ∧
      closing.kind = .closing ∧ Resumes stack (.list (items.reverse ++ v :: vs)) outer w
  | .quotation keyword _ _ :: stack, v, tokens, w =>
    Resumes stack (.list [.symbol keyword.name, v]) tokens w

/-- The tokens finish what is on the stack, from where it is, and give `w`. -/
def Finishes : List Pending → List Token → Value → Prop
  | .list _ items :: stack, tokens, w =>
    ∃ inner vs closing outer, tokens = inner ++ closing :: outer ∧ Forms inner vs ∧
      closing.kind = .closing ∧ Resumes stack (.list (items.reverse ++ vs)) outer w
  | stack, tokens, w =>
    ∃ inner v outer, tokens = inner ++ outer ∧ Form inner v ∧ Resumes stack v outer w

/-- A form that is read first is handed to the stack. -/
theorem Finishes.of_form {stack : List Pending} {inner outer : List Token} {v w : Value}
    (form : Form inner v) (resumes : Resumes stack v outer w) :
    Finishes stack (inner ++ outer) w := by
  match stack with
  | [] => exact ⟨inner, v, outer, rfl, form, resumes⟩
  | .quotation .. :: _ => exact ⟨inner, v, outer, rfl, form, resumes⟩
  | .list _ _ :: _ =>
    obtain ⟨inner', vs, closing, outer', rfl, forms, closes, resumes⟩ := resumes
    exact ⟨inner ++ inner', v :: vs, closing, outer', by simp, .cons form forms, closes, resumes⟩

/-- If a value completes the whole form, no token is needed any more. -/
theorem resumes_of_complete_eq_done {stack : List Pending} {v w : Value}
    (completed : complete stack v = .done w) : Resumes stack v [] w := by
  fun_induction complete stack v with
  | case1 =>
    cases completed
    exact ⟨rfl, rfl⟩
  | case2 => cases completed
  | case3 v keyword mark start stack ih => exact ih completed

theorem resumes_of_complete_eq_more {stack stack' : List Pending} {v w : Value}
    {tokens : List Token} (completed : complete stack v = .more stack')
    (finishes : Finishes stack' tokens w) : Resumes stack v tokens w := by
  fun_induction complete stack v with
  | case1 => cases completed
  | case2 v opening items stack =>
    cases completed
    obtain ⟨inner, vs, closing, outer, rfl, forms, closes, resumes⟩ := finishes
    refine ⟨inner, vs, closing, outer, rfl, forms, closes, ?_⟩
    simpa using resumes
  | case3 v keyword mark start stack ih => exact ih completed

/-- Handing over a form never fails. -/
theorem complete_ne_failed (stack : List Pending) (v : Value) (e : SourceError) :
    complete stack v ≠ .failed e := by
  fun_induction complete stack v with
  | case1 => nofun
  | case2 => nofun
  | case3 _ _ _ _ _ ih => exact ih

/-- The runs with at most `count` tokens that return `w` have derivations behind them. -/
def Sound (count : Nat) (w : Value) (s' : Scanner) : Prop :=
  ∀ stack s, run count stack s = (.ok w, s') → ∃ tokens, s.Takes tokens s' ∧ Finishes stack tokens w

/-- Behind a form that is handed over stand the tokens that finish the rest of the stack. -/
theorem Sound.resumes {count : Nat} {w v : Value} {s s' : Scanner} {stack : List Pending}
    (sound : Sound count w s') (ran : proceed count s (complete stack v) = (.ok w, s')) :
    ∃ tokens, s.Takes tokens s' ∧ Resumes stack v tokens w := by
  cases completed : complete stack v with
  | more stack' =>
    rw [completed] at ran
    obtain ⟨tokens, takes, finishes⟩ := sound stack' s ran
    exact ⟨tokens, takes, resumes_of_complete_eq_more completed finishes⟩
  | done form =>
    rw [completed] at ran
    cases ran
    exact ⟨[], .nil, resumes_of_complete_eq_done completed⟩
  | failed e => exact absurd completed (complete_ne_failed stack v e)

/-- One more token is put before those of the derivation that the rest of the run has. -/
theorem Sound.step {count : Nat} {w : Value} {s s' : Scanner} {stack : List Pending} {token : Token}
    (sound : Sound count w s') (ran : proceed count s (step stack token) = (.ok w, s')) :
    ∃ tokens, s.Takes tokens s' ∧ Finishes stack (token :: tokens) w := by
  have ofValue : ∀ v, token.value? = some v →
      ∃ tokens, s.Takes tokens s' ∧ Finishes stack (token :: tokens) w := by
    intro v value
    rw [step_literal value] at ran
    obtain ⟨tokens, takes, resumes⟩ := sound.resumes ran
    exact ⟨tokens, takes, .of_form (.literal value) resumes⟩
  have ofMark : ∀ keyword, token.kind.quotation? = some keyword →
      ∃ tokens, s.Takes tokens s' ∧ Finishes stack (token :: tokens) w := by
    intro keyword quotation
    rw [step_quotation quotation] at ran
    obtain ⟨tokens, takes, inner, v, outer, rfl, form, resumes⟩ := sound _ s ran
    exact ⟨inner ++ outer, takes, .of_form (.quotation quotation form) resumes⟩
  cases kind : token.kind with
  | opening =>
    rw [step_opening kind] at ran
    obtain ⟨tokens, takes, inner, vs, closing, outer, rfl, forms, closes, resumes⟩ := sound _ s ran
    refine ⟨inner ++ closing :: outer, takes, ?_⟩
    simpa using Finishes.of_form (.list kind forms closes) resumes
  | closing =>
    match stack with
    | .list opening items :: stack =>
      rw [step_closing kind] at ran
      obtain ⟨tokens, takes, resumes⟩ := sound.resumes ran
      exact ⟨tokens, takes, [], [], token, tokens, rfl, .nil, kind, by simpa using resumes⟩
    | [] =>
      simp only [Reading.step, kind] at ran
      cases ran
    | .quotation .. :: _ =>
      simp only [Reading.step, kind] at ran
      cases ran
  | atom =>
    cases value : Literal.atom? token.lexeme with
    | some v => exact ofValue v (by simp only [Token.value?, kind, value])
    | none =>
      simp only [Reading.step, kind, value] at ran
      cases ran
  | string => exact ofValue (Literal.string token.lexeme) (by simp only [Token.value?, kind])
  | finish =>
    simp only [Reading.step, kind] at ran
    cases ran
  | _ => exact ofMark _ (by rw [kind]; rfl)

/-- Every run that returns a value has a derivation behind it. -/
theorem sound (w : Value) (s' : Scanner) : ∀ count, Sound count w s'
  | 0, _, _, ran => by cases ran
  | count + 1, stack, s, ran => by
    rcases next : s.next with ⟨e | token, u⟩
    · rw [run, next] at ran
      cases ran
    · rw [run_succ next] at ran
      obtain ⟨tokens, takes, finishes⟩ := (sound w s' count).step ran
      exact ⟨token :: tokens, .cons next takes, finishes⟩

/-- The number of tokens that may be read makes no difference, if it is greater than that of the
characters: each token before the end takes one. -/
theorem run_eq_run {s : Scanner} : ∀ {count count' : Nat} (stack : List Pending),
    s.rest.length < count → s.rest.length < count' → run count stack s = run count' stack s := by
  intro count
  induction count generalizing s with
  | zero =>
    intro _ _ impossible
    cases impossible
  | succ count ih =>
    rintro (_ | count') stack enough enough'
    · cases enough'
    rcases next : s.next with ⟨e | token, u⟩
    · rw [run, run, next]
    · rw [run_succ next, run_succ next]
      by_cases more : token.kind = .finish
      · simp only [Reading.step, more, proceed]
      · have shorter := Scanner.next_rest_lt next more
        cases Reading.step stack token with
        | more stack' => exact ih stack' (by omega) (by omega)
        | done => rfl
        | failed => rfl

end Reading

/-! ### The tokens of a form -/

mutual

/-- The end of the text is part of no form. -/
theorem Form.kind_ne_finish {tokens : List Token} {v : Value} (form : Form tokens v) :
    ∀ token ∈ tokens, token.kind ≠ .finish := by
  cases form with
  | @literal token v value =>
    rw [List.forall_mem_singleton]
    intro kind
    simp [Token.value?, kind] at value
  | @quotation mark _ _ _ quotation form =>
    refine List.forall_mem_cons.mpr ⟨fun kind => ?_, form.kind_ne_finish⟩
    rw [kind] at quotation
    cases quotation
  | list opens forms closes =>
    refine List.forall_mem_cons.mpr ⟨by simp [opens], List.forall_mem_append.mpr ?_⟩
    exact ⟨forms.kind_ne_finish, by simp [closes]⟩

theorem Forms.kind_ne_finish {tokens : List Token} {vs : List Value} (forms : Forms tokens vs) :
    ∀ token ∈ tokens, token.kind ≠ .finish := by
  cases forms with
  | nil => simp
  | cons form forms =>
    exact List.forall_mem_append.mpr ⟨form.kind_ne_finish, forms.kind_ne_finish⟩

end

/-- A form ends with a token that only an atom's further characters could prolong. -/
theorem Form.exists_last {tokens : List Token} {v : Value} (form : Form tokens v) :
    ∃ front last, tokens = front ++ [last] ∧
      ∀ later : List Char, (last.kind = .atom → ∀ c ∈ later.head?, isDelimiter c = true) →
        last.kind.EndsBefore later := by
  cases form with
  | @literal token v value =>
    refine ⟨[], token, rfl, fun later apart => ?_⟩
    unfold Token.value? at value
    split at value
    · next kind =>
      rw [kind]
      cases later with
      | nil => exact trivial
      | cons c _ => exact apart kind c rfl
    · next kind =>
      rw [kind]
      cases later <;> exact trivial
    · cases value
  | @quotation mark _ _ _ _ form =>
    obtain ⟨front, last, rfl, ends⟩ := form.exists_last
    exact ⟨mark :: front, last, rfl, ends⟩
  | @list opening closing tokens _ _ _ closes =>
    refine ⟨opening :: tokens, closing, rfl, fun later _ => ?_⟩
    rw [closes]
    cases later <;> exact trivial

/-! ### The reader and the grammar -/

namespace Scanner

/-- The reader returns the value of the first tokens that are a form, and nothing else. -/
theorem readForm_eq_ok_iff {s s' : Scanner} {v : Value} :
    s.readForm = (.ok v, s') ↔ ∃ tokens, s.Takes tokens s' ∧ Form tokens v := by
  constructor
  · intro ran
    obtain ⟨tokens, takes, inner, w, outer, rfl, form, rfl, rfl⟩ := Reading.sound v s' _ [] s ran
    exact ⟨inner ++ [], takes, by simpa using form⟩
  · rintro ⟨tokens, takes, form⟩
    have fewer := takes.length_le form.kind_ne_finish
    have bound : s.rest.length + 1 = tokens.length + (s.rest.length + 1 - tokens.length) := by omega
    rw [readForm, bound, form.run takes]
    rfl

/-- Of the tokens that a scanner gives, those of one form come first, and it has one value. -/
theorem form_unique {s s' s'' : Scanner} {tokens tokens' : List Token} {v v' : Value}
    (takes : s.Takes tokens s') (form : Form tokens v) (takes' : s.Takes tokens' s'')
    (form' : Form tokens' v') : tokens = tokens' ∧ v = v' ∧ s' = s'' := by
  have read := readForm_eq_ok_iff.mpr ⟨tokens, takes, form⟩
  rw [readForm_eq_ok_iff.mpr ⟨tokens', takes', form'⟩] at read
  cases read
  -- Both rows end at the same place, and a longer one would have taken further characters.
  have none_more : ∀ {front more : List Token}, s'.Takes more s' →
      (∀ token ∈ front ++ more, token.kind ≠ .finish) → more = [] := by
    intro front more takes ends
    have shorter := takes.length_le fun token member => ends token (List.mem_append_right _ member)
    exact List.length_eq_zero_iff.mp (by omega)
  obtain ⟨more, rfl, rest⟩ | ⟨more, rfl, rest⟩ := takes.isPrefix_or takes'
  · rw [none_more rest form'.kind_ne_finish]
    simp
  · rw [none_more rest form.kind_ne_finish]
    simp

end Scanner

/-- The reader accepts exactly the grammar. On every source text it returns a value if and only if
the first tokens of the text are a form of that value; these tokens and the value are the only ones,
and the reader comes to its answer without using up its allowance of tokens. What it leaves unread
is the text behind the last of the tokens, and any other text in this place, whatever it holds,
leads to the same value, unless it prolongs an atom. -/
theorem readForm_accepts_grammar (source : List Char) :
    let start := Scanner.ofSource source
    (∀ v s', start.readForm = (.ok v, s') ↔ ∃ tokens, start.Takes tokens s' ∧ Form tokens v) ∧
    (∀ tokens tokens' v v' s' s'', start.Takes tokens s' → Form tokens v →
      start.Takes tokens' s'' → Form tokens' v' → tokens = tokens' ∧ v = v') ∧
    (∀ count, source.length < count → Reading.run count [] start = start.readForm) ∧
    ∀ tokens v s', start.Takes tokens s' → Form tokens v →
      ∃ before last, last ∈ tokens.getLast? ∧ last.start = Position.start.after before ∧
        source = before ++ last.lexeme ++ s'.rest ∧
        ∀ later, (last.kind = .atom → ∀ c ∈ later.head?, isDelimiter c = true) →
          (Scanner.ofSource (before ++ last.lexeme ++ later)).readForm =
            (.ok v, ⟨before ++ last.lexeme ++ later, s'.position, later⟩) := by
  intro start
  refine ⟨fun v s' => Scanner.readForm_eq_ok_iff, ?_, ?_, ?_⟩
  · intro tokens tokens' v v' s' s'' takes form takes' form'
    obtain ⟨same, value, -⟩ := Scanner.form_unique takes form takes' form'
    exact ⟨same, value⟩
  · intro count enough
    exact Reading.run_eq_run [] enough (Nat.lt_succ_self _)
  · intro tokens v s' takes form
    obtain ⟨taken, whole, -, relocated⟩ := takes.relocate form.kind_ne_finish
    obtain ⟨front, last, rfl, ends⟩ := form.exists_last
    obtain ⟨before, parts, position⟩ := takes.exists_before_last form.kind_ne_finish
    have same : taken = before ++ last.lexeme := List.append_cancel_right (whole.symm.trans parts)
    refine ⟨before, last, by simp, position, parts, fun later apart => ?_⟩
    refine Scanner.readForm_eq_ok_iff.mpr ⟨_, ?_, form⟩
    rw [← same]
    exact relocated _ later (by simpa using ends later apart)

/-- A quoted list is read although the text goes on with a string that never ends. -/
theorem readForm_accepts_grammar_quoted_list :
    let source := "'(a) \"".toList
    let rest : Scanner := ⟨source, ⟨4, 1, 5⟩, " \"".toList⟩
    let tokens : List Token := [⟨.quote, "'".toList, ⟨0, 1, 1⟩⟩, ⟨.opening, "(".toList, ⟨1, 1, 2⟩⟩,
      ⟨.atom, "a".toList, ⟨2, 1, 3⟩⟩, ⟨.closing, ")".toList, ⟨3, 1, 4⟩⟩]
    let form : Value := .list [.symbol "quote", .list [.symbol "a"]]
    (Scanner.ofSource source).Takes tokens rest ∧ Form tokens form ∧
      (Scanner.ofSource source).readForm = (.ok form, rest) := by
  intro source rest tokens form
  have takes : (Scanner.ofSource source).Takes tokens rest :=
    .cons rfl (.cons rfl (.cons rfl (.cons rfl .nil)))
  have atom : Form [⟨.atom, "a".toList, ⟨2, 1, 3⟩⟩] (.symbol "a") := .literal rfl
  have derived : Form tokens form :=
    @Form.quotation _ .quote _ _ rfl (.list rfl (.cons atom .nil) rfl)
  have accepts := (readForm_accepts_grammar source).1 form rest
  exact ⟨takes, derived, accepts.mpr ⟨tokens, takes, derived⟩⟩

end SmallLisp
