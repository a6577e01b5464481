import Mathlib.Data.List.DropRight
import SmallLisp.Shell.Dialogue

/-!
Lines and trimmed texts.

Dividing a text into lines and ending each line with a newline undo each other: `Text.lines_unlines`
one way, `Text.unlines_lines` the other. Trimming a trimmed text does nothing (`Text.trim_trim`).

A newline is a byte that is in the encoding of no other character, so it makes no difference whether
an input is decoded before it is divided into lines or afterwards (`Dialogue.inputLines_eq`).
-/

namespace SmallLisp

namespace Text

/-! ### Pieces between marks -/

section Pieces

variable {α : Type} [DecidableEq α] {mark : α}

/-- The pieces with a mark behind each of them. -/
def marked (mark : α) (pieces : List (List α)) : List α :=
  pieces.flatMap (· ++ [mark])

omit [DecidableEq α] in
theorem marked_cons (piece : List α) (more : List (List α)) :
    marked mark (piece :: more) = piece ++ mark :: marked mark more := by
  simp [marked]

theorem linesAt_mark (rest : List α) : linesAt mark (mark :: rest) = [] :: linesAt mark rest := by
  simp [linesAt]

/-- Something without marks at the front belongs to the first piece. -/
theorem linesAt_append {front : List α} (nonempty : front ≠ []) (free : mark ∉ front)
    (rest : List α) :
    linesAt mark (front ++ rest) =
      match linesAt mark rest with
      | [] => [front]
      | piece :: more => (front ++ piece) :: more := by
  induction front with
  | nil => exact absurd rfl nonempty
  | cons a front ih =>
    obtain ⟨other, free⟩ := not_or.mp (mt List.mem_cons.mpr free)
    rw [List.cons_append, linesAt, if_neg (Ne.symm other)]
    by_cases last : front = []
    · subst last
      rfl
    · rw [ih last free]
      cases linesAt mark rest <;> rfl

/-- A piece goes up to the first mark. -/
theorem linesAt_append_mark {piece : List α} (free : mark ∉ piece) (rest : List α) :
    linesAt mark (piece ++ mark :: rest) = piece :: linesAt mark rest := by
  by_cases empty : piece = []
  · subst empty
    exact linesAt_mark rest
  · rw [linesAt_append empty free, linesAt_mark]
    simp

/-- Pieces without marks in them are found again. -/
theorem linesAt_marked {pieces : List (List α)} (free : ∀ piece ∈ pieces, mark ∉ piece) :
    linesAt mark (marked mark pieces) = pieces := by
  induction pieces with
  | nil => rfl
  | cons piece more ih =>
    obtain ⟨first, others⟩ := List.forall_mem_cons.mp free
    rw [marked_cons, linesAt_append_mark first, ih others]

/-- No piece holds a mark. -/
theorem not_mem_linesAt (xs : List α) : ∀ piece ∈ linesAt mark xs, mark ∉ piece := by
  induction xs with
  | nil => simp [linesAt]
  | cons a rest ih =>
    unfold linesAt
    split
    · simpa using ih
    next other =>
      split
      · simpa using Ne.symm other
      next pieces =>
        rw [pieces] at ih
        obtain ⟨first, others⟩ := List.forall_mem_cons.mp ih
        refine List.forall_mem_cons.mpr ⟨?_, others⟩
        exact List.not_mem_cons_of_ne_of_not_mem (Ne.symm other) first

/-- Nothing is lost between the pieces. Only a mark behind the last piece may have been missing, and
then that piece is not empty. -/
theorem marked_linesAt (xs : List α) :
    marked mark (linesAt mark xs) = xs ∨
      marked mark (linesAt mark xs) = xs ++ [mark] ∧ (linesAt mark xs).getLast? ≠ some [] := by
  induction xs with
  | nil => exact .inl rfl
  | cons a rest ih =>
    unfold linesAt
    split
    next isMark =>
      subst isMark
      rw [marked_cons]
      rcases ih with all | ⟨all, last⟩
      · exact .inl (by rw [all]; rfl)
      · refine .inr ⟨by rw [all]; rfl, ?_⟩
        cases pieces : linesAt a rest with
        | nil => simp [pieces, marked] at all
        | cons piece more => simpa [pieces] using last
    · split
      next pieces =>
        rw [pieces] at ih
        rcases ih with all | ⟨all, -⟩
        · subst all
          exact .inr ⟨rfl, by simp⟩
        · simp [marked] at all
      next piece more pieces =>
        rw [pieces, marked_cons] at ih
        rw [marked_cons]
        rcases ih with all | ⟨all, last⟩
        · exact .inl (by rw [List.cons_append, all])
        · refine .inr ⟨by rw [List.cons_append, all]; rfl, ?_⟩
          cases more with
          | nil => simp
          | cons _ _ => simpa using last

end Pieces

/-! ### Lines of texts -/

def unlines (lines : List String) : String :=
  String.join (lines.map (· ++ "\n"))

theorem toList_unlines (lines : List String) :
    (unlines lines).toList = marked '\n' (lines.map String.toList) := by
  simp [unlines, marked, List.flatMap_map]

theorem not_mem_lines (text : String) : ∀ line ∈ lines text, '\n' ∉ line.toList := by
  intro line mem
  obtain ⟨piece, isPiece, rfl⟩ := List.mem_map.mp mem
  rw [String.toList_ofList]
  exact not_mem_linesAt text.toList piece isPiece

/-- Lines that are put together with newlines are found again. -/
theorem lines_unlines {entries : List String} (free : ∀ entry ∈ entries, '\n' ∉ entry.toList) :
    lines (unlines entries) = entries := by
  have pieces : ∀ piece ∈ entries.map String.toList, '\n' ∉ piece := by simpa using free
  rw [lines, toList_unlines, linesAt_marked pieces]
  simp [Function.comp_def]

/-- The lines of a text make it up again, but for a newline that it may lack at its end. -/
theorem unlines_lines (text : String) :
    unlines (lines text) = text ∨
      unlines (lines text) = text ++ "\n" ∧ (lines text).getLast? ≠ some "" := by
  have chars : (unlines (lines text)).toList = marked '\n' (linesAt '\n' text.toList) := by
    rw [toList_unlines, lines]
    simp [Function.comp_def]
  rcases @marked_linesAt Char _ '\n' text.toList with all | ⟨all, last⟩
  · exact .inl (String.toList_inj.mp (chars.trans all))
  · refine .inr ⟨String.toList_inj.mp ?_, ?_⟩
    · rw [chars, all, String.toList_append]
      rfl
    · intro empty
      obtain ⟨piece, isLast, isEmpty⟩ := Option.map_eq_some_iff.mp (List.getLast?_map ▸ empty)
      rw [String.ofList_eq_empty_iff.mp isEmpty] at isLast
      exact last isLast

/-! ### Trimming -/

theorem trimChars_eq (cs : List Char) : trimChars cs = (cs.dropWhile isBlank).rdropWhile isBlank :=
  rfl

/-- A trimmed text begins with a character that is not blank, so there is nothing to drop. -/
theorem dropWhile_trimChars (cs : List Char) : (trimChars cs).dropWhile isBlank = trimChars cs := by
  rw [List.dropWhile_eq_self_iff]
  intro nonempty
  have begins := List.rdropWhile_prefix isBlank (cs.dropWhile isBlank)
  rw [← trimChars_eq] at begins
  have longer : 0 < (cs.dropWhile isBlank).length := Nat.lt_of_lt_of_le nonempty begins.length_le
  rw [begins.getElem nonempty]
  exact List.dropWhile_get_zero_not isBlank cs longer

/-- A text is trimmed once and for all. -/
theorem trim_trim (s : String) : trim (trim s) = trim s := by
  have chars : trimChars (trimChars s.toList) = trimChars s.toList := by
    rw [trimChars_eq (trimChars s.toList), dropWhile_trimChars, trimChars_eq,
      List.rdropWhile_idempotent]
  rw [trim, trim, String.toList_ofList, chars]

theorem mem_of_mem_trim {c : Char} {s : String} (mem : c ∈ (trim s).toList) : c ∈ s.toList := by
  rw [trim, String.toList_ofList, trimChars_eq] at mem
  exact List.dropWhile_subset _ ((List.rdropWhile_prefix _ _).subset mem)

/-! ### Lines of encoded texts -/

def encoded (cs : List Char) : List UInt8 :=
  cs.flatMap String.utf8EncodeChar

theorem encoded_cons (c : Char) (cs : List Char) :
    encoded (c :: cs) = String.utf8EncodeChar c ++ encoded cs :=
  List.flatMap_cons

/-- The byte of a newline is in no other character. -/
theorem eq_newline_of_mem {c : Char} (mem : 10 ∈ String.utf8EncodeChar c) : c = '\n' := by
  have byte : ∀ n, 10 = UInt8.ofNat n → n % 256 = 10 := by
    intro n same
    simpa using (congrArg UInt8.toNat same).symm
  have code : c.val.toNat = 10 := by
    simp only [String.utf8EncodeChar] at mem
    -- All bytes of a longer encoding are at least 128.
    grind
  exact Char.ext (UInt32.toNat_inj.mp code)

/-- Cutting bytes at newlines and encoding commute, since no other character has the byte of a
newline. -/
theorem linesAt_encoded (cs : List Char) :
    linesAt 10 (encoded cs) = (linesAt '\n' cs).map encoded := by
  induction cs with
  | nil => rfl
  | cons c cs ih =>
    rw [encoded_cons]
    by_cases newline : c = '\n'
    · subst newline
      have byte : String.utf8EncodeChar '\n' = [10] := by decide
      rw [byte, List.singleton_append, linesAt_mark, linesAt_mark, ih]
      rfl
    · have free : 10 ∉ String.utf8EncodeChar c := mt eq_newline_of_mem newline
      have nonempty : String.utf8EncodeChar c ≠ [] := by simp
      rw [linesAt_append nonempty free, ih, linesAt, if_neg newline]
      cases linesAt '\n' cs with
      | nil => simp [encoded]
      | cons piece more => simp [encoded_cons]

end Text

/-- Bytes are decoded exactly if they encode a text. -/
theorem FileTree.decode_eq_ok_iff {bytes : ByteArray} {text : String} :
    FileTree.decode bytes = .ok text ↔ text.toUTF8 = bytes := by
  unfold FileTree.decode String.fromUTF8?
  constructor
  · intro decoded
    split at decoded
    next valid =>
      split at valid
      · obtain rfl := Option.some.inj valid
        obtain rfl := Except.ok.inj decoded
        rfl
      · cases valid
    · cases decoded
  · rintro rfl
    rw [String.toUTF8_eq_toByteArray, dif_pos text.isValidUTF8]
    rfl

/-! ### Lines of an input -/

namespace Dialogue

theorem toList_loop_eq (bytes : ByteArray) (i : Nat) (passed : List UInt8) :
    ByteArray.toList.loop bytes i passed = passed.reverse ++ bytes.data.toList.drop i := by
  fun_induction ByteArray.toList.loop bytes i passed with
  | case1 i passed inside ih =>
    have bound : i < bytes.data.toList.length := inside
    have here : bytes.get! i = bytes.data.toList[i] :=
      getElem!_pos bytes.data i inside
    rw [ih, List.drop_eq_getElem_cons bound, here]
    simp
  | case2 i passed outside =>
    have bound : bytes.data.toList.length ≤ i := Nat.le_of_not_lt outside
    rw [List.drop_eq_nil_of_le bound, List.append_nil]

theorem toList_toUTF8 (text : String) : text.toUTF8.toList = Text.encoded text.toList := by
  rw [ByteArray.toList, toList_loop_eq, String.toUTF8_eq_toByteArray, ← String.utf8Encode_toList,
    List.utf8Encode, List.toList_data_toByteArray]
  rfl

/-- The input that encodes a text has the lines of the text. -/
theorem inputLines_toUTF8 (text : String) : inputLines text.toUTF8 = (Text.lines text).map .ok := by
  have decoded : FileTree.decode text.toUTF8 = .ok text := FileTree.decode_eq_ok_iff.mpr rfl
  rw [inputLines, decoded]

/-- Each line is read by itself, whether or not all of the input is a text. -/
theorem inputLines_eq (input : ByteArray) :
    inputLines input =
      (Text.linesAt 10 input.toList).map fun line => FileTree.decode line.toByteArray := by
  cases decoded : FileTree.decode input with
  | error e => rw [inputLines, decoded]
  | ok text =>
    obtain rfl := FileTree.decode_eq_ok_iff.mp decoded
    rw [inputLines_toUTF8, toList_toUTF8, Text.linesAt_encoded, Text.lines, List.map_map,
      List.map_map]
    refine List.map_congr_left fun piece _ => ?_
    exact (FileTree.decode_eq_ok_iff.mpr rfl).symm

theorem not_mem_inputLines {input : ByteArray} {line : String} (mem : .ok line ∈ inputLines input) :
    '\n' ∉ line.toList := by
  rw [inputLines_eq] at mem
  obtain ⟨bytes, isLine, decoded⟩ := List.mem_map.mp mem
  have same : Text.encoded line.toList = bytes := by
    have := congrArg (·.data.toList) (FileTree.decode_eq_ok_iff.mp decoded)
    simpa [← String.utf8Encode_toList, List.utf8Encode, Text.encoded] using this
  intro newline
  refine Text.not_mem_linesAt _ bytes isLine (same ▸ ?_)
  exact List.mem_flatMap.mpr ⟨'\n', newline, by decide⟩

end Dialogue

end SmallLisp
