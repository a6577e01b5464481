import Mathlib.Data.List.Destutter
import Mathlib.Data.List.DropRight
import SmallLisp.Proofs.DialogueFold

/-!
The history from run to run.

A dialogue records its inputs one by one and looks only at the newest entry each time. What it keeps
is nevertheless determined by all lines at once, those of the file it found and those it heard: it
is their `History.digest` (`History.foldl_record`). A digest is its own digest, and reading the file
gives it back, so that a dialogue that hears nothing leaves the file as it was.

The main statement is `history_survives`.
-/

namespace SmallLisp

namespace History

/-- The lines trimmed, without those that are blank or repeat the one before them. -/
def condensed (lines : List String) : List String :=
  ((lines.map Text.trim).filter (· ≠ "")).destutter (· ≠ ·)

/-- What is kept of some lines: the last of them when they are condensed. -/
def digest (lines : List String) : List String :=
  (condensed lines).rtake 500

/-! ### Recording a line -/

section Collapse

variable {α : Type} [DecidableEq α]

/-- Whether a last element is a repetition shows at the end of what is left of the others. -/
theorem destutter'_concat (first : α) (xs : List α) (a : α) :
    (xs ++ [a]).destutter' (· ≠ ·) first =
      if (xs.destutter' (· ≠ ·) first).getLast? = some a then xs.destutter' (· ≠ ·) first
      else xs.destutter' (· ≠ ·) first ++ [a] := by
  induction xs generalizing first with
  | nil => by_cases same : first = a <;> simp [same]
  | cons b xs ih =>
    by_cases same : first = b
    · simp [same, ih]
    · have nonempty : xs.destutter' (· ≠ ·) b ≠ [] := List.destutter'_ne_nil _ _
      rw [List.cons_append, List.destutter'_cons_pos _ same, List.destutter'_cons_pos _ same, ih,
        List.getLast?_cons_of_ne_nil nonempty]
      split <;> rfl

/-- A new last element is dropped if the one before it is the same. -/
theorem destutter_concat (xs : List α) (a : α) :
    (xs ++ [a]).destutter (· ≠ ·) =
      if (xs.destutter (· ≠ ·)).getLast? = some a then xs.destutter (· ≠ ·)
      else xs.destutter (· ≠ ·) ++ [a] := by
  cases xs with
  | nil => rfl
  | cons first xs => exact destutter'_concat first xs a

omit [DecidableEq α] in
/-- Elements that were dropped before would be dropped anyway. -/
theorem rtake_concat_rtake (xs : List α) (a : α) (n : Nat) :
    (xs.rtake (n + 1) ++ [a]).rtake (n + 1) = (xs ++ [a]).rtake (n + 1) := by
  have fewer : (xs.rtake (n + 1)).rtake n = xs.rtake n := by
    unfold List.rtake
    rw [List.drop_drop, List.length_drop]
    congr 1
    omega
  rw [List.rtake_concat_succ, List.rtake_concat_succ, fewer]

omit [DecidableEq α] in
theorem getLast?_rtake (xs : List α) (n : Nat) : (xs.rtake (n + 1)).getLast? = xs.getLast? := by
  rw [List.rtake, List.getLast?_drop]
  split
  next short =>
    have empty : xs = [] := List.length_eq_zero_iff.mp (by omega)
    rw [empty, List.getLast?_nil]
  · rfl

end Collapse

theorem condensed_concat_blank (lines : List String) {line : String} (blank : Text.trim line = "") :
    condensed (lines ++ [line]) = condensed lines := by
  simp [condensed, blank]

/-- A line that is not blank is kept unless it repeats the last one that was. -/
theorem condensed_concat (lines : List String) {line : String} (nonblank : Text.trim line ≠ "") :
    condensed (lines ++ [line]) =
      if (condensed lines).getLast? = some (Text.trim line) then condensed lines
      else condensed lines ++ [Text.trim line] := by
  have filtered : ([line].map Text.trim).filter (· ≠ "") = [Text.trim line] := by simp [nonblank]
  rw [condensed, List.map_append, List.filter_append, filtered, destutter_concat]
  rfl

theorem record_of_repeated {entries : List String} {line : String}
    (repeated : entries.getLast? = some (Text.trim line)) : record ⟨entries⟩ line = ⟨entries⟩ := by
  simp [record, repeated]

/-- A new entry comes last, and the oldest one goes when there are too many. -/
theorem record_of_new {entries : List String} {line : String} (nonblank : Text.trim line ≠ "")
    (new : entries.getLast? ≠ some (Text.trim line)) :
    record ⟨entries⟩ line = ⟨(entries ++ [Text.trim line]).rtake 500⟩ := by
  simp [record, nonblank, new, lastOf, limit, List.rtake]

/-- The newest entry is all that has to be looked at. -/
theorem record_digest (lines : List String) (line : String) :
    record ⟨digest lines⟩ line = ⟨digest (lines ++ [line])⟩ := by
  by_cases blank : Text.trim line = ""
  · rw [record_of_trim_eq_empty _ blank, digest, digest, condensed_concat_blank lines blank]
  · have newest : (digest lines).getLast? = (condensed lines).getLast? := getLast?_rtake _ 499
    rw [digest.eq_1 (lines ++ [line]), condensed_concat lines blank, ← newest]
    by_cases repeated : (digest lines).getLast? = some (Text.trim line)
    · rw [record_of_repeated repeated, if_pos repeated, digest]
    · rw [record_of_new blank repeated, if_neg repeated, digest, rtake_concat_rtake _ _ 499]

/-- What is recorded of lines that follow others. -/
theorem foldl_record (lines more : List String) :
    more.foldl record ⟨digest lines⟩ = ⟨digest (lines ++ more)⟩ := by
  induction more generalizing lines with
  | nil => rw [List.foldl_nil, List.append_nil]
  | cons line more ih =>
    rw [List.foldl_cons, record_digest, ih, List.append_assoc, List.singleton_append]

/-- A file is read as if its lines had been recorded. -/
theorem ofText_eq (text : String) : ofText text = ⟨digest (Text.lines text)⟩ :=
  foldl_record [] (Text.lines text)

/-! ### The history read back -/

theorem save_some (entries : List String) (files : FileTree) (path : String) :
    save ⟨entries⟩ files (some path) = files.save path (Text.unlines entries) :=
  rfl

/-- Every entry is one of the lines, trimmed, and none is blank. -/
theorem exists_of_mem_digest {lines : List String} {entry : String} (mem : entry ∈ digest lines) :
    (∃ line ∈ lines, Text.trim line = entry) ∧ entry ≠ "" := by
  have kept := (List.destutter_sublist _ _).subset (List.drop_subset _ _ mem)
  simpa using List.mem_filter.mp kept

/-- A digest is its own digest. -/
theorem digest_digest (lines : List String) : digest (digest lines) = digest lines := by
  have trimmed : (digest lines).map Text.trim = digest lines := by
    refine (List.map_congr_left fun entry mem => ?_).trans (List.map_id _)
    obtain ⟨⟨line, -, rfl⟩, -⟩ := exists_of_mem_digest mem
    exact Text.trim_trim line
  have nonblank : (digest lines).filter (· ≠ "") = digest lines := by
    refine List.filter_eq_self.mpr fun entry mem => ?_
    exact decide_eq_true (exists_of_mem_digest mem).2
  have chain : (digest lines).IsChain (· ≠ ·) := (List.isChain_destutter _ _).drop _
  have short : (digest lines).length ≤ 500 := by
    rw [digest, List.rtake, List.length_drop]
    omega
  have fixed : condensed (digest lines) = digest lines := by
    rw [condensed, trimmed, nonblank, List.destutter_of_isChain _ _ chain]
  rw [digest, fixed, List.rtake, Nat.sub_eq_zero_of_le short, List.drop_zero]

/-- Blank lines leave no trace. -/
theorem digest_append_blank (lines : List String) {more : List String}
    (blank : ∀ line ∈ more, Text.trim line = "") : digest (lines ++ more) = digest lines := by
  have nothing : (more.map Text.trim).filter (· ≠ "") = [] := by
    simpa [List.filter_eq_nil_iff] using blank
  rw [digest, condensed, List.map_append, List.filter_append, nothing, List.append_nil]
  rfl

/-- The lines of a history's file are its entries. -/
theorem lines_unlines_digest {lines : List String} (free : ∀ line ∈ lines, '\n' ∉ line.toList) :
    Text.lines (Text.unlines (digest lines)) = digest lines := by
  refine Text.lines_unlines fun entry mem => ?_
  obtain ⟨⟨line, isLine, rfl⟩, -⟩ := exists_of_mem_digest mem
  exact mt Text.mem_of_mem_trim (free line isLine)

end History

/-! ### What a dialogue hears -/

namespace Dialogue

/-- The lines before the first that cannot be read. -/
def readable : List (Except FileError String) → List String
  | .ok line :: more => line :: readable more
  | _ => []

/-- The lines of an input that a dialogue takes: it ends at the first that is not valid UTF-8, and
after the first that asks for the end. -/
def heard (input : ByteArray) : List String :=
  let lines := Text.linesAt 10 input.toList
  upToQuit (readable (lines.map fun line => FileTree.decode line.toByteArray))

theorem readable_map_ok (lines : List String) : readable (lines.map .ok) = lines := by
  induction lines with
  | nil => rfl
  | cons line more ih => rw [List.map_cons, readable, ih]

/-- Of a text, everything up to the end can be heard. -/
theorem heard_toUTF8 (text : String) : heard text.toUTF8 = upToQuit (Text.lines text) := by
  rw [heard, ← inputLines_eq, inputLines_toUTF8, readable_map_ok]

/-- What can be read is among the lines. -/
theorem mem_of_mem_readable {line : String} {lines : List (Except FileError String)}
    (mem : line ∈ readable lines) : .ok line ∈ lines := by
  fun_induction readable lines with
  | case1 first more ih =>
    rcases List.mem_cons.mp mem with rfl | mem
    · exact List.mem_cons_self
    · exact List.mem_cons_of_mem _ (ih mem)
  | case2 => cases mem

theorem not_mem_heard (input : ByteArray) : ∀ line ∈ heard input, '\n' ∉ line.toList := by
  intro line mem
  have read := mem_of_mem_readable (List.take_subset _ _ mem)
  rw [← inputLines_eq] at read
  exact not_mem_inputLines read

/-- The dialogue records each line it takes. -/
theorem converse_history {state : State} {s : Session} (same : state.session = s.drained)
    (lines : List (Except FileError String)) :
    (converse state lines).history =
      (upToQuit (readable lines)).foldl History.record state.history := by
  induction lines generalizing state s with
  | nil => rfl
  | cons line more ih =>
    cases line with
    | error e => rfl
    | ok line =>
      rw [converse, readable, upToQuit_cons]
      simp only [turn_eq same line]
      by_cases quits : asksToQuit line = true
      · simp [quits]
      · have next := @ih ⟨(advance s (Text.trim line)).drained, state.history.record line⟩ _ rfl
        simp [quits, Transcript.after, next]

/-- A dialogue records the lines it takes on top of the history it finds. -/
theorem transcript_history (quiet : Bool) (s : Surroundings) :
    (transcript quiet s).history =
      (heard s.input).foldl History.record
        (.load s.files (History.file? s.historyFile s.home)) := by
  rw [transcript, run, Transcript.after, converse_history (start_session _), inputLines_eq]
  rfl

end Dialogue

open Dialogue

/-- A dialogue whose history can be saved leaves the digest of what was in the file and what it
heard. -/
theorem dialogue_contents (quiet : Bool) {s : Surroundings} {path old : String}
    (place : History.file? s.historyFile s.home = some path)
    (before : s.files.text path = .ok old ∨ s.files.text path = .error .notFound ∧ old = "")
    (writable : s.files.Writable path) :
    (Program.dialogue quiet s).files.contents path =
        .ok (Text.unlines (History.digest (Text.lines old ++ heard s.input))).toUTF8 ∧
      (Program.dialogue quiet s).files.Writable path := by
  have loaded : History.load s.files (some path) = ⟨History.digest (Text.lines old)⟩ := by
    unfold History.load
    rcases before with found | ⟨absent, rfl⟩
    · simp only [found, History.ofText_eq]
    · simp only [absent]
      rfl
  have recorded : (transcript quiet s).history =
      ⟨History.digest (Text.lines old ++ heard s.input)⟩ := by
    rw [transcript_history, place, loaded, History.foldl_record]
  obtain ⟨saved, saves, ending⟩ := @dialogue_of_writable quiet s (by simpa [place] using writable)
  rw [recorded, place, History.save_some] at saves
  rw [ending]
  exact FileTree.contents_of_save saves

/-- After a dialogue whose history file was absent or a text and can be written, the file holds the
digest of its old lines and the lines that were heard, each entry followed by a newline. A dialogue
after it that hears only blank lines leaves every byte of the file as it is. -/
theorem history_survives (quiet : Bool) (s : Surroundings) (path old : String)
    (place : History.file? s.historyFile s.home = some path)
    (before : s.files.text path = .ok old ∨ s.files.text path = .error .notFound ∧ old = "")
    (writable : s.files.Writable path) :
    let after := (Program.dialogue quiet s).files
    after.contents path =
        .ok (Text.unlines (History.digest (Text.lines old ++ heard s.input))).toUTF8 ∧
      ∀ (quietly : Bool) (next : Surroundings), next.files = after →
        History.file? next.historyFile next.home = some path →
        (∀ line ∈ heard next.input, Text.trim line = "") →
          (Program.dialogue quietly next).files.contents path = after.contents path := by
  intro after
  obtain ⟨holds, again⟩ := dialogue_contents quiet place before writable
  refine ⟨holds, ?_⟩
  intro quietly next same nextPlace blank
  have free : ∀ line ∈ Text.lines old ++ heard s.input, '\n' ∉ line.toList := by
    intro line mem
    rcases List.mem_append.mp mem with mem | mem
    · exact Text.not_mem_lines old line mem
    · exact not_mem_heard s.input line mem
  have read : after.text path =
      .ok (Text.unlines (History.digest (Text.lines old ++ heard s.input))) := by
    unfold FileTree.text
    rw [holds]
    exact FileTree.decode_eq_ok_iff.mpr rfl
  obtain ⟨kept, -⟩ := dialogue_contents quietly nextPlace (.inl (same ▸ read)) (same ▸ again)
  rw [History.lines_unlines_digest free, History.digest_append_blank _ blank,
    History.digest_digest] at kept
  exact kept.trans holds.symm

/-- The entry `b` of the file is not repeated by the first line that is heard, but `a` comes again
after it. The blank lines of the second dialogue leave no trace. -/
theorem history_survives_two_dialogues :
    let s : Surroundings :=
      ⟨" b\na\n:q\nc".toUTF8, ⟨[(["h"], "a\n\n b\n".toUTF8)], []⟩, some "h", none⟩
    let next : Surroundings :=
      ⟨"\n  \n".toUTF8, (Program.dialogue true s).files, some "h", none⟩
    (Program.dialogue true s).files.contents "h" = .ok "a\nb\na\n:q\n".toUTF8 ∧
      (Program.dialogue true next).files.contents "h" = .ok "a\nb\na\n:q\n".toUTF8 := by
  intro s next
  have found : s.files.text "h" = .ok "a\n\n b\n" := by decide +kernel
  have writable : s.files.Writable "h" := fun _ => rfl
  obtain ⟨holds, kept⟩ := history_survives true s "h" "a\n\n b\n" (by decide) (.inl found) writable
  have entries : History.digest (Text.lines "a\n\n b\n" ++ heard s.input) =
      ["a", "b", "a", ":q"] := by
    rw [heard_toUTF8]
    decide +kernel
  rw [entries] at holds
  have blank : ∀ line ∈ heard next.input, Text.trim line = "" := by
    rw [heard_toUTF8]
    decide +kernel
  exact ⟨holds, (kept true next rfl (by decide) blank).trans holds⟩

end SmallLisp
