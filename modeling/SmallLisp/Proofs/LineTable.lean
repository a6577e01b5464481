import Mathlib.Data.List.DropRight
import SmallLisp.Proofs.LineByLine

/-!
Places found again from their offset.

A position is carried forward over the characters that are passed. What it says can be counted in
the text before it (`Position.counts_after`), and it can be found again from its offset alone
(`Position.locate?`): a table holds the offset at which each line starts, the table is searched by
halving, and the code points between the start of the line and the offset are counted. Every entry
that is asked for is in the table and every part of the text that is asked for begins and ends
between two characters, so that a place is found, and it is the one that was carried forward
(`Position.locate?_after`). The line that is shown with an error is cut out by the same table
(`LineTable.lineText?_eq`).
-/

namespace SmallLisp

/-! ### The line before a place -/

/-- What stands behind the last newline of a text. -/
def lastLine (cs : List Char) : List Char :=
  cs.rtakeWhile (· ≠ '\n')

/-- A newline ends the last line, and any other character goes on with it. -/
theorem lastLine_concat (cs : List Char) (c : Char) :
    lastLine (cs ++ [c]) = if c = '\n' then [] else lastLine cs ++ [c] := by
  unfold lastLine
  rw [List.rtakeWhile_concat]
  by_cases newline : c = '\n' <;> simp [newline]

/-- The text is empty or ends with a newline, so that a line starts behind it. -/
def EndsLine (cs : List Char) : Prop :=
  cs = [] ∨ ∃ above, cs = above ++ ['\n']

/-- Before the last line stand whole lines. -/
theorem exists_above_lastLine (cs : List Char) :
    ∃ above, cs = above ++ lastLine cs ∧ EndsLine above ∧ '\n' ∉ lastLine cs := by
  induction cs using List.reverseRecOn with
  | nil => exact ⟨[], rfl, .inl rfl, List.not_mem_nil⟩
  | append_singleton cs c ih =>
    rw [lastLine_concat]
    by_cases newline : c = '\n'
    · rw [if_pos newline, newline]
      exact ⟨cs ++ ['\n'], (List.append_nil _).symm, .inr ⟨cs, rfl⟩, List.not_mem_nil⟩
    · obtain ⟨above, whole, ends, free⟩ := ih
      rw [if_neg newline]
      refine ⟨above, ?_, ends, ?_⟩
      · rw [← List.append_assoc, ← whole]
      · rw [List.mem_append, List.mem_singleton]
        rintro (member | same)
        · exact free member
        · exact newline same.symm

theorem EndsLine.lastLine_eq {cs : List Char} (ends : EndsLine cs) : lastLine cs = [] := by
  rcases ends with rfl | ⟨above, rfl⟩
  · rfl
  · rw [lastLine_concat, if_pos rfl]

/-- A line ends with the text or at a newline. -/
theorem exists_below_line (cs : List Char) : ∃ below,
    cs = cs.takeWhile (· ≠ '\n') ++ below ∧ '\n' ∉ cs.takeWhile (· ≠ '\n') ∧
      (below = [] ∨ ∃ lower, below = '\n' :: lower) := by
  refine ⟨cs.dropWhile (· ≠ '\n'), List.takeWhile_append_dropWhile.symm, ?_, ?_⟩
  · intro member
    simpa using List.mem_takeWhile_imp member
  · cases rest : cs.dropWhile (· ≠ '\n') with
    | nil => exact .inl rfl
    | cons c lower =>
      have stop := List.head?_dropWhile_not (· ≠ '\n') cs
      rw [rest] at stop
      have newline : c = '\n' := by simpa using stop
      exact .inr ⟨lower, by rw [newline]⟩

/-- The place counts the text `before`: its bytes, its newlines, and the code points behind the last
newline. -/
structure Position.Counts (before : List Char) (p : Position) : Prop where
  offset : p.offset = String.utf8Len before
  line : p.line = 1 + before.count '\n'
  column : p.column = 1 + (lastLine before).length

/-- A place that is carried forward counts what it has passed. -/
theorem Position.counts_after (before : List Char) : (start.after before).Counts before where
  offset := (after_offset start before).trans (Nat.zero_add _)
  line := after_line start before
  column := by
    induction before using List.reverseRecOn with
    | nil => rfl
    | append_singleton cs c ih =>
      rw [after_append, after_cons, after_nil, lastLine_concat, next]
      by_cases newline : c = '\n'
      · rw [if_pos newline, if_pos newline]
        rfl
      · rw [if_neg newline, if_neg newline]
        simp only [ih, List.length_append, List.length_singleton]
        omega

/-! ### The table of line starts -/

/-- The offsets behind the newlines of a text that starts at the given offset. -/
def startsBehind : Nat → List Char → List Nat
  | _, [] => []
  | offset, c :: cs =>
    if c = '\n' then (offset + c.utf8Size) :: startsBehind (offset + c.utf8Size) cs
    else startsBehind (offset + c.utf8Size) cs

/-- The offsets at which the lines of a text start. -/
def lineStarts (source : List Char) : List Nat :=
  0 :: startsBehind 0 source

/-- The offsets behind a part of the text go on where its bytes end. -/
theorem startsBehind_append (offset : Nat) (as bs : List Char) :
    startsBehind offset (as ++ bs) =
      startsBehind offset as ++ startsBehind (offset + String.utf8Len as) bs := by
  induction as generalizing offset with
  | nil => rfl
  | cons c as ih =>
    have further : offset + c.utf8Size + String.utf8Len as = offset + String.utf8Len (c :: as) := by
      rw [String.utf8Len_cons]
      omega
    rw [List.cons_append, startsBehind, startsBehind, ih, further]
    split <;> rfl

theorem length_startsBehind (offset : Nat) (cs : List Char) :
    (startsBehind offset cs).length = cs.count '\n' := by
  induction cs generalizing offset with
  | nil => rfl
  | cons c cs ih =>
    rw [startsBehind, List.count_cons]
    by_cases newline : c = '\n' <;> simp [newline, ih]

/-- A line starts behind its newline, and not behind the end of the text. -/
theorem mem_startsBehind {offset : Nat} {cs : List Char} :
    ∀ n ∈ startsBehind offset cs, offset < n ∧ n ≤ offset + String.utf8Len cs := by
  induction cs generalizing offset with
  | nil => exact List.forall_mem_nil _
  | cons c cs ih =>
    have size := c.utf8Size_pos
    have others : ∀ n ∈ startsBehind (offset + c.utf8Size) cs,
        offset < n ∧ n ≤ offset + String.utf8Len (c :: cs) := by
      intro n member
      obtain ⟨above, below⟩ := ih n member
      rw [String.utf8Len_cons]
      omega
    rw [startsBehind]
    split
    · refine List.forall_mem_cons.mpr ⟨?_, others⟩
      rw [String.utf8Len_cons]
      omega
    · exact others

theorem lineStarts_append (before after : List Char) :
    lineStarts (before ++ after) =
      lineStarts before ++ startsBehind (String.utf8Len before) after := by
  rw [lineStarts, startsBehind_append, Nat.zero_add, lineStarts, List.cons_append]

/-- There is one line more than there are newlines. -/
theorem length_lineStarts (source : List Char) :
    (lineStarts source).length = source.count '\n' + 1 := by
  rw [lineStarts, List.length_cons, length_startsBehind]

/-- Exactly the lines that start before a place or at it are counted there. -/
theorem lineStarts_le_iff {before after : List Char} {i n : Nat}
    (entry : (lineStarts (before ++ after))[i]? = some n) :
    n ≤ String.utf8Len before ↔ i < before.count '\n' + 1 := by
  rw [lineStarts_append, List.getElem?_append, length_lineStarts] at entry
  split at entry
  · next early =>
    refine iff_of_true ?_ early
    rcases List.mem_cons.mp (List.mem_of_getElem? entry) with rfl | member
    · exact Nat.zero_le _
    · have := (mem_startsBehind n member).2
      omega
  · next late =>
    have := (mem_startsBehind n (List.mem_of_getElem? entry)).1
    exact iff_of_false (by omega) late

/-- The last line starts where its entry says. -/
theorem lineStarts_getElem? {above line : List Char} (ends : EndsLine above) (free : '\n' ∉ line)
    (after : List Char) :
    (lineStarts (above ++ line ++ after))[(above ++ line).count '\n']? =
      some (String.utf8Len above) := by
  rw [List.append_assoc, lineStarts_append, List.count_append, List.count_eq_zero.mpr free,
    Nat.add_zero, List.getElem?_append_left (by rw [length_lineStarts]; omega)]
  rcases ends with rfl | ⟨a, rfl⟩
  · rfl
  · have last : lineStarts (a ++ ['\n']) = lineStarts a ++ [String.utf8Len a + 1] :=
      lineStarts_append a ['\n']
    have index : (a ++ ['\n']).count '\n' = (lineStarts a).length := by
      rw [length_lineStarts, List.count_append]
      rfl
    rw [last, index, List.getElem?_concat_length, String.utf8Len_append]
    rfl

/-! ### Searching by halving -/

namespace LineTable

/-- Halves the `size` entries from `low` on until one is left, which is the last that is not above
`x` if there is such an entry; nothing when an entry is not in the table. -/
def bisect (table : List Nat) (x low size : Nat) : Option Nat :=
  if 1 < size then
    match table[low + size / 2]? with
    | some entry =>
      if x < entry then bisect table x low (size - size / 2)
      else bisect table x (low + size / 2) (size - size / 2)
    | none => none
  else some low
termination_by size

/-- The index at which `x` stands in an ascending table or, as an error, the one at which it would
have to be put in. -/
def search (table : List Nat) (x : Nat) : Option (Except Nat Nat) := do
  let low ← bisect table x 0 table.length
  let entry ← table[low]?
  return if entry = x then .ok low else .error (if entry < x then low + 1 else low)

variable {table : List Nat} {x count : Nat}

/-- If just the first `count` entries are not above `x`, then the search ends at the last
of them. -/
theorem bisect_eq (parted : ∀ (i n : Nat), table[i]? = some n → (n ≤ x ↔ i < count))
    {low size : Nat} (inside : low + size ≤ table.length) (above : low < count)
    (below : count ≤ low + size) :
    bisect table x low size = some (count - 1) := by
  fun_induction bisect table x low size with
  | case1 low size several entry found behind ih =>
    have side := parted _ _ found
    exact ih (by omega) above (by omega)
  | case2 low size several entry found before ih =>
    have side := parted _ _ found
    exact ih (by omega) (by omega) (by omega)
  | case3 low size several missing =>
    have := List.getElem?_eq_none_iff.mp missing
    omega
  | case4 low size single => rw [show low = count - 1 by omega]

/-- The search finds the last entry that is not above `x`, or says that `x` belongs behind it. -/
theorem search_eq (parted : ∀ (i n : Nat), table[i]? = some n → (n ≤ x ↔ i < count + 1))
    {entry : Nat} (last : table[count]? = some entry) :
    search table x = some (if entry = x then .ok count else .error (count + 1)) := by
  have inside := (List.getElem?_eq_some_iff.mp last).1
  have below := (parted count entry last).mpr (Nat.lt_succ_self count)
  have found : bisect table x 0 table.length = some count :=
    bisect_eq parted (by omega) (by omega) (by omega)
  simp only [search, found, Option.bind_eq_bind, Option.bind_some, last]
  by_cases same : entry = x
  · rw [if_pos same, if_pos same]
    rfl
  · rw [if_neg same, if_neg same, if_pos (by omega)]
    rfl

end LineTable

/-! ### Parts of a text -/

/-- The text before an offset and the text behind it, when the offset lies between
two characters. -/
def Text.splitBytes? : Nat → List Char → Option (List Char × List Char)
  | 0, cs => some ([], cs)
  | _ + 1, [] => none
  | n + 1, c :: cs =>
    if c.utf8Size ≤ n + 1 then
      (splitBytes? (n + 1 - c.utf8Size) cs).map fun (before, after) => (c :: before, after)
    else none

/-- The text between two offsets, when both lie between two characters, in this order. -/
def Text.slice? (source : List Char) (low high : Nat) : Option (List Char) := do
  let (_, behind) ← splitBytes? low source
  if high < low then none
  let (part, _) ← splitBytes? (high - low) behind
  return part

/-- A text can be split at the offset where one of its parts ends. -/
theorem Text.splitBytes?_append (before after : List Char) :
    splitBytes? (String.utf8Len before) (before ++ after) = some (before, after) := by
  induction before with
  | nil => cases after <;> rfl
  | cons c before ih =>
    obtain ⟨size, positive⟩ := Nat.exists_eq_succ_of_ne_zero c.utf8Size_pos.ne'
    have total : String.utf8Len (c :: before) = String.utf8Len before + size + 1 := by
      rw [String.utf8Len_cons]
      omega
    rw [total, List.cons_append, splitBytes?, if_pos (by omega),
      show String.utf8Len before + size + 1 - c.utf8Size = String.utf8Len before by omega, ih]
    rfl

/-- A part of the text is found between the offsets where it begins and ends. -/
theorem Text.slice?_append (above part after : List Char) :
    slice? (above ++ part ++ after) (String.utf8Len above) (String.utf8Len (above ++ part)) =
      some part := by
  have order : ¬ String.utf8Len above + String.utf8Len part < String.utf8Len above := by omega
  simp only [slice?, List.append_assoc, splitBytes?_append, String.utf8Len_append, order, if_false,
    Nat.add_sub_cancel_left, Option.bind_eq_bind, Option.bind_some, pure]

/-! ### The line with a number -/

/-- The line of a place goes from behind the newline before it to the newline behind it. -/
theorem sourceLine_append (before after : List Char) :
    sourceLine (before.count '\n') (before ++ after) =
      lastLine before ++ after.takeWhile (· ≠ '\n') := by
  obtain ⟨above, whole, ends, free⟩ := exists_above_lastLine before
  generalize lastLine before = line at whole free ⊢
  have first : ∀ c ∈ line, decide (c ≠ '\n') = true := by
    intro c member
    exact decide_eq_true fun newline => free (newline ▸ member)
  have here : sourceLine 0 (line ++ after) = line ++ after.takeWhile (· ≠ '\n') := by
    rw [sourceLine, List.takeWhile_append_of_pos first]
  subst whole
  rw [List.count_append, List.count_eq_zero.mpr free, Nat.add_zero, List.append_assoc]
  rcases ends with rfl | ⟨a, rfl⟩
  · exact here
  · rw [List.count_append, List.append_assoc, List.singleton_append, ← here,
      ← sourceLine_below 0 a (line ++ after), Nat.zero_add]
    rfl

theorem sourceLine_nil (n : Nat) : sourceLine n [] = [] := by
  induction n with
  | zero => rfl
  | succ n ih => exact ih

/-- A line behind the last one is empty. -/
theorem sourceLine_eq_nil {n : Nat} {source : List Char} (behind : source.count '\n' < n) :
    sourceLine n source = [] := by
  induction source generalizing n with
  | nil => exact sourceLine_nil n
  | cons c source ih =>
    obtain ⟨n, rfl⟩ := Nat.exists_eq_succ_of_ne_zero (Nat.ne_zero_of_lt behind)
    by_cases newline : c = '\n'
    · subst newline
      rw [List.count_cons_self] at behind
      simpa [sourceLine] using ih (Nat.lt_of_succ_lt_succ behind)
    · rw [List.count_cons_of_ne newline] at behind
      simpa [sourceLine, newline] using ih behind

/-- Each line up to the last one starts somewhere. -/
theorem exists_endsLine_append {n : Nat} {source : List Char} (present : n ≤ source.count '\n') :
    ∃ above rest, source = above ++ rest ∧ EndsLine above ∧ above.count '\n' = n := by
  induction n with
  | zero => exact ⟨[], source, rfl, .inl rfl, rfl⟩
  | succ n ih =>
    obtain ⟨above, rest, rfl, -, same⟩ := ih (Nat.le_of_succ_le present)
    rw [List.count_append, same] at present
    have newline : '\n' ∈ rest := List.count_pos_iff.mp (by omega)
    obtain ⟨line, lower, rfl, free⟩ := List.eq_append_cons_of_mem newline
    refine ⟨above ++ line ++ ['\n'], lower, by simp, .inr ⟨_, rfl⟩, ?_⟩
    rw [List.count_append, List.count_append, same, List.count_eq_zero.mpr free]
    rfl

/-- The line with the given number, counted from 1, without its newline: the part of the text from
its start to the start of the next line or the end of the text. A number that is not in the table
has an empty line, and nothing comes out when the part of the text is not there. -/
def LineTable.lineText? (source : List Char) (line : Nat) : Option (List Char) :=
  match (lineStarts source)[line - 1]? with
  | none => some []
  | some start => do
    let stop := (lineStarts source)[line]?.getD (String.utf8Len source)
    let part ← Text.slice? source start stop
    return if part.getLast? = some '\n' then part.dropLast else part

/-- A whole line is cut out without its newline. -/
theorem LineTable.lineText?_append {above line below : List Char} (ends : EndsLine above)
    (free : '\n' ∉ line) (ended : below = [] ∨ ∃ lower, below = '\n' :: lower) :
    lineText? (above ++ line ++ below) (above.count '\n' + 1) = some line := by
  have count : (above ++ line).count '\n' = above.count '\n' := by
    rw [List.count_append, List.count_eq_zero.mpr free, Nat.add_zero]
  have start := lineStarts_getElem? ends free below
  rw [count] at start
  rw [lineText?, Nat.add_sub_cancel, start]
  rcases ended with rfl | ⟨lower, rfl⟩
  · have last : (lineStarts (above ++ line ++ []))[above.count '\n' + 1]? = none := by
      rw [List.getElem?_eq_none_iff, length_lineStarts, List.append_nil, count]
    have unbroken : line.getLast? ≠ some '\n' := fun newline =>
      free (List.mem_of_getLast? newline)
    have part := Text.slice?_append above line []
    rw [List.append_nil] at last part ⊢
    simp only [last, Option.getD_none, part, Option.bind_eq_bind, Option.bind_some,
      if_neg unbroken, pure]
  · have next := lineStarts_getElem? (.inr ⟨above ++ line, rfl⟩) List.not_mem_nil lower
    have part := Text.slice?_append above (line ++ ['\n']) lower
    have whole : above ++ line ++ ['\n'] ++ lower = above ++ line ++ '\n' :: lower :=
      (List.append_cons _ _ _).symm
    have one : ['\n'].count '\n' = 1 := rfl
    rw [List.append_nil, List.count_append, count, one, whole] at next
    rw [← List.append_assoc, whole] at part
    simp only [next, Option.getD_some, part, Option.bind_eq_bind, Option.bind_some,
      List.getLast?_concat, List.dropLast_concat, if_true, pure]

/-- The table leads to the line that is found by counting newlines. -/
theorem LineTable.lineText?_eq (source : List Char) (n : Nat) :
    lineText? source (n + 1) = some (sourceLine n source) := by
  by_cases present : n ≤ source.count '\n'
  · obtain ⟨above, rest, rfl, ends, rfl⟩ := exists_endsLine_append present
    obtain ⟨below, split, free, ended⟩ := exists_below_line rest
    have cut := lineText?_append ends free ended
    rw [List.append_assoc, ← split] at cut
    rw [cut, sourceLine_append, ends.lastLine_eq, List.nil_append]
  · have missing : (lineStarts source)[n]? = none := by
      rw [List.getElem?_eq_none_iff, length_lineStarts]
      omega
    rw [lineText?, Nat.add_sub_cancel, missing, sourceLine_eq_nil (by omega)]

/-! ### From the offset back to the place -/

/-- The place at an offset: the line is that of the last start not behind the offset, and the column
counts the code points from there; nothing when a part of the table or of the text that is asked for
is not there. -/
def Position.locate? (source : List Char) (offset : Nat) : Option Position := do
  let index ← match ← LineTable.search (lineStarts source) offset with
    | .ok index => some index
    | .error 0 => some 0
    | .error (index + 1) => some index
  let start ← (lineStarts source)[index]?
  let part ← Text.slice? source start offset
  return ⟨offset, index + 1, part.length + 1⟩

/-- A place that was carried forward over a text is found again from its offset. -/
theorem Position.locate?_after (before after : List Char) :
    locate? (before ++ after) (Position.start.after before).offset =
      some (Position.start.after before) := by
  obtain ⟨above, whole, ends, free⟩ := exists_above_lastLine before
  have counts := Position.counts_after before
  have entry := lineStarts_getElem? ends free after
  have part := Text.slice?_append above (lastLine before) after
  rw [← whole] at entry part
  have found := LineTable.search_eq (fun i n => lineStarts_le_iff) entry
  have place : Position.start.after before =
      ⟨String.utf8Len before, before.count '\n' + 1, (lastLine before).length + 1⟩ := by
    rw [← counts.offset, Nat.add_comm (before.count '\n'), ← counts.line, Nat.add_comm _ 1,
      ← counts.column]
  rw [counts.offset, locate?, found, place]
  split_ifs <;> simp only [Option.bind_eq_bind, Option.bind_some, entry, part, pure]

end SmallLisp
