import RouteScript.Proofs.Dict
import RouteScript.Proofs.Route.Normalization
import RouteScript.Settings.EnvFile

/-!
# Written environment files

An environment file is written line by line: entries with their values in quotes, and lines that say
nothing. Reading it gives every key the value of its last entry. Only the outer quotes of a value
are taken off, so a value may hold quotes, equals signs, hashes and blanks at its ends.
-/

namespace RouteScript

namespace Text

variable {l : List Char}

def bareEnds (l : List Char) : Bool := !l.head?.any isBlank && !l.getLast?.any isBlank

/-- A text without blanks at its ends is left alone by trimming. -/
theorem trimList_of_bareEnds (h : bareEnds l = true) : trimList l = l := by
  simp only [bareEnds, Bool.and_eq_true, Bool.not_eq_true'] at h
  have hstart : l.dropWhile isBlank = l := by
    cases l with
    | nil => rfl
    | cons c rest => simpa using h.1
  rw [trimList, hstart]
  exact dropEndWhile_eq_self_iff.mpr h.2

theorem trimList_subset : trimList l ⊆ l :=
  List.Subset.trans isPrefix_dropEndWhile.subset (List.dropWhile_suffix _).subset

/-- A blank behind the end does not count. -/
theorem trimList_concat {c : Char} (hc : isBlank c = true) : trimList (l ++ [c]) = trimList l := by
  rw [trimList, trimList, List.dropWhile_append]
  split
  next hempty => simp [List.isEmpty_iff.mp hempty, hc]
  next => exact List.rdropWhile_concat_pos isBlank _ c hc

/-- The first character that is no blank comes to stand in front. -/
theorem head?_trimList {c : Char} (h : l.find? (!isBlank ·) = some c) :
    (trimList l).head? = some c := by
  obtain ⟨hc, before, after, rfl, hbefore⟩ := List.find?_eq_some_iff_append.mp h
  have hstart : (before ++ c :: after).dropWhile isBlank = c :: after := by
    have hall : ∀ x ∈ before, isBlank x = true := by simpa using hbefore
    rw [List.dropWhile_append_of_pos hall, List.dropWhile_cons_of_neg (by simpa using hc)]
  have hprefix : trimList (before ++ c :: after) <+: c :: after := by
    rw [trimList, hstart]
    exact isPrefix_dropEndWhile
  cases htrimmed : trimList (before ++ c :: after) with
  | nil =>
    rw [trimList, hstart] at htrimmed
    have hblank := List.rdropWhile_eq_nil_iff.mp htrimmed c (List.mem_cons_self ..)
    simp [hblank] at hc
  | cons d rest =>
    rw [htrimmed] at hprefix
    rw [(List.cons_prefix_cons.mp hprefix).1, List.head?_cons]

/-- A line is split at the first sign, whatever comes after it. -/
theorem splitFirst_append {c : Char} {before : List Char} (h : c ∉ before) (after : List Char) :
    splitFirst c (before ++ c :: after) = some (before, after) := by
  have hne : ∀ x ∈ before, (x != c) = true := by
    intro x hx
    exact bne_iff_ne.mpr fun heq => h (heq ▸ hx)
  simp [splitFirst, List.dropWhile_append_of_pos hne, List.takeWhile_append_of_pos hne]

theorem splitFirst_of_not_mem {c : Char} (h : c ∉ l) : splitFirst c l = none := by
  have hnil : l.dropWhile (· != c) = [] := by
    refine List.dropWhile_eq_nil_iff.mpr fun x hx => ?_
    exact bne_iff_ne.mpr fun heq => h (heq ▸ hx)
  simp [splitFirst, hnil]

end Text

namespace EnvFile

open Text

structure Entry where
  key : String
  value : String
  key_bare : bareEnds key.toList = true
  key_plain : '=' ∉ key.toList ∧ '\n' ∉ key.toList
  key_no_comment : key.toList.head? ≠ some '#'
  value_plain : '\n' ∉ value.toList

/-- A line that says nothing: its first character is a `#`, apart from blanks, or it has no `=`. -/
structure Remark where
  text : List Char
  one_line : '\n' ∉ text
  says_nothing : text.find? (!isBlank ·) = some '#' ∨ '=' ∉ text

/-- The lines of an environment file. -/
inductive Line where
  | entry (e : Entry)
  | remark (r : Remark)

inductive LineEnd where
  | newline
  | carriageReturn

def Line.text : Line → List Char
  | .entry e => e.key.toList ++ '=' :: '"' :: e.value.toList ++ ['"']
  | .remark r => r.text

def Line.pair? : Line → Option (String × String)
  | .entry e => some (e.key, e.value)
  | .remark _ => none

/-- What stands between a line and the newline behind it. -/
def LineEnd.text : LineEnd → List Char
  | .newline => []
  | .carriageReturn => ['\r']

/-- The text of a file. The last line has no end; it is empty if the file ends with a newline. -/
def write : List (Line × LineEnd) → Line → List Char
  | [], last => last.text
  | (line, ending) :: rest, last => line.text ++ ending.text ++ '\n' :: write rest last

def pairs (lines : List (Line × LineEnd)) (last : Line) : List (String × String) :=
  (lines.map Prod.fst ++ [last]).filterMap Line.pair?

/-- Quotes around a value are taken off. -/
theorem unquote_quoted (l : List Char) : unquote ('"' :: l ++ ['"']) = l := by
  simp [unquote, unquoteWith?]

theorem entry?_concat {c : Char} (hc : isBlank c = true) (line : List Char) :
    entry? (line ++ [c]) = entry? line := by
  rw [ entry?, entry?, trimList_concat hc]

/-- The kind of line ending makes no difference. -/
theorem entry?_append_lineEnd (line : List Char) (ending : LineEnd) :
    entry? (line ++ ending.text) = entry? line := by
  cases ending with
  | newline => rw [LineEnd.text, List.append_nil]
  | carriageReturn => exact entry?_concat rfl line

/-- A written entry has no blank at its ends, starts no comment, and is cut at the first `=`. -/
theorem entry?_entry (e : Entry) : entry? (Line.entry e).text = some (e.key, e.value) := by
  obtain ⟨hstart, hcomment⟩ :
      ((Line.entry e).text.head?.any isBlank = false) ∧ (Line.entry e).text.head? ≠ some '#' := by
    have hkey := e.key_bare
    have hhash := e.key_no_comment
    rw [Line.text]
    cases hchars : e.key.toList with
    | nil => exact ⟨rfl, by simp⟩
    | cons c rest => simp_all [bareEnds]
  have hbare : bareEnds (Line.entry e).text = true := by
    rw [bareEnds, hstart, Line.text, List.getLast?_append_cons]
    decide
  have hquoted : bareEnds ('"' :: e.value.toList ++ ['"']) = true := by
    rw [bareEnds, List.getLast?_append_cons]
    rfl
  rw [ entry?, trimList_of_bareEnds hbare, if_neg hcomment, Line.text, List.append_assoc,
    List.cons_append, splitFirst_append e.key_plain.1]
  simp only [Option.map_some]
  rw [trimList_of_bareEnds e.key_bare, trimList_of_bareEnds hquoted, unquote_quoted]
  simp

theorem entry?_remark (r : Remark) : entry? (Line.remark r).text = none := by
  rw [ entry?, Line.text]
  split
  next => rfl
  next hcomment =>
    have hplain : '=' ∉ r.text := by
      refine r.says_nothing.resolve_left fun hfirst => hcomment ?_
      exact head?_trimList hfirst
    rw [splitFirst_of_not_mem fun hmem => hplain (trimList_subset hmem), Option.map_none]

/-- A line is read as the pair that it was written for. -/
theorem entry?_text (line : Line) : entry? line.text = line.pair? := by
  cases line with
  | entry e => exact entry?_entry e
  | remark r => exact entry?_remark r

/-- No line contains a line break, so that lines are told apart. -/
theorem newline_not_mem_text (line : Line) : '\n' ∉ line.text := by
  cases line with
  | entry e => simp [Line.text, e.key_plain.2, e.value_plain]
  | remark r => exact r.one_line

/-- Every line is read on its own. -/
theorem filterMap_entry?_write (lines : List (Line × LineEnd)) (last : Line) :
    ((write lines last).splitOn '\n').filterMap entry? = pairs lines last := by
  induction lines with
  | nil =>
    rw [write, List.splitOn_eq_singleton (newline_not_mem_text last)]
    simp [pairs, List.filterMap_cons, entry?_text]
  | cons head rest ih =>
    obtain ⟨line, ending⟩ := head
    have hline : '\n' ∉ line.text ++ ending.text := by
      cases ending <;> simp [LineEnd.text, newline_not_mem_text]
    rw [write, List.splitOn_append_cons_self_of_not_mem hline, List.filterMap_cons,
      entry?_append_lineEnd, entry?_text, ih]
    cases line <;> rfl

/-- Reading a written file gives every key the value of its last entry, and no other key. -/
theorem read_write (lines : List (Line × LineEnd)) (last : Line) :
    Dict.Sorted (read (String.ofList (write lines last))) ∧
    ∀ key, Dict.get? key (read (String.ofList (write lines last))) =
      ((pairs lines last).findRev? (·.1 == key)).map Prod.snd := by
  have hread : read (String.ofList (write lines last)) = Dict.ofList (pairs lines last) := by
    rw [read, String.toList_ofList, splitList_singleton, filterMap_entry?_write]
  rw [hread]
  exact ⟨Dict.sorted_ofList _, fun key => Dict.get?_ofList key _⟩

end EnvFile

end RouteScript
