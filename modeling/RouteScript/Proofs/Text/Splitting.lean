import Mathlib.Data.List.Infix
import RouteScript.Eval.Builtin

/-!
# Cutting and joining

A text is cut at the leftmost occurrence of a delimiter, and what is behind it is cut again. The
delimiter may have any length and may overlap itself: the occurrences that are taken never overlap,
no piece holds another one, and the pieces joined with the delimiter are the text.

## Main definitions

* `Text.Cuts`: the pieces of a list of characters, as a relation.
* `Text.NoneBefore`: how far a scan has come without an occurrence.
-/

namespace RouteScript

namespace Text

variable {d l l' : List Char} {n : Nat}

/-! ## Occurrences -/

def NoneBefore (d l : List Char) (n : Nat) : Prop := ∀ k < n, ¬ d <+: l.drop k

namespace NoneBefore

theorem zero (d l : List Char) : NoneBefore d l 0 := by
  intro k hk
  omega

theorem succ (h : NoneBefore d l n) (hn : ¬ d <+: l.drop n) : NoneBefore d l (n + 1) := by
  intro k hk
  rcases Nat.lt_succ_iff_lt_or_eq.mp hk with hlt | rfl
  · exact h k hlt
  · exact hn

/-- What does not occur in a text does not occur in its beginning. -/
theorem shorten (h : NoneBefore d l n) (hl : l' <+: l) : NoneBefore d l' n := by
  intro k hk hd
  exact h k hk (hd.trans (hl.drop k))

/-- An occurrence needs as much room as the delimiter is long. -/
theorem no_occurrence (h : NoneBefore d l n) (hroom : l.length < n + d.length) : ¬ d <:+: l := by
  rintro ⟨before, after, rfl⟩
  have hk : before.length < n := by
    simp only [List.length_append] at hroom
    omega
  apply h before.length hk
  rw [List.append_assoc, List.drop_left]
  exact List.prefix_append d after

end NoneBefore

/-! ## Pieces -/

/-- The pieces of a list of characters between occurrences of a delimiter. Each of them is the
leftmost: no other one begins in the piece in front of it, not even one that overlaps it. -/
inductive Cuts (d : List Char) : List Char → List (List Char) → Prop
  | whole {l : List Char} (none : ¬ d <:+: l) : Cuts d l [l]
  | cut {piece rest : List Char} {pieces : List (List Char)}
    (leftmost : ¬ d <:+: piece ++ d.dropLast) (h : Cuts d rest pieces) :
    Cuts d (piece ++ d ++ rest) (piece :: pieces)

namespace Cuts

variable {pieces : List (List Char)}

theorem ne_nil (h : Cuts d l pieces) : pieces ≠ [] := by
  cases h <;> simp

/-- No piece contains the delimiter. -/
theorem no_occurrence_of_mem (h : Cuts d l pieces) : ∀ piece ∈ pieces, ¬ d <:+: piece := by
  induction h with
  | whole none => simpa using none
  | @cut piece rest pieces leftmost h ih =>
    intro other hmem hd
    rcases List.mem_cons.mp hmem with rfl | hmem
    · exact leftmost (hd.trans (List.prefix_append _ _).isInfix)
    · exact ih other hmem hd

/-- The pieces put together again give the text. -/
theorem joinList_eq (h : Cuts d l pieces) : joinList d pieces = l := by
  induction h with
  | whole none => rfl
  | cut leftmost h ih =>
    rw [joinList, ih]
    exact h.ne_nil

end Cuts

/-- A scan finds the pieces of what it has begun and what is still to come. -/
theorem cuts_splitFrom (hd : d ≠ []) (skip : Nat) (piece l : List Char)
    (h : NoneBefore d (piece.reverse ++ l.drop skip) piece.length) :
    Cuts d (piece.reverse ++ l.drop skip) (splitFrom d skip piece l) := by
  have hlength : 0 < d.length := List.length_pos_iff.mpr hd
  fun_induction splitFrom d skip piece l with
  | case1 skip piece =>
    simp only [List.drop_nil, List.append_nil] at h ⊢
    exact .whole (h.no_occurrence (by simpa using hlength))
  | case2 piece skip c rest ih => exact ih h
  | case3 piece c rest hfound ih =>
    -- An occurrence begins at `c`; the rest of it is passed over.
    obtain ⟨after, hafter⟩ := List.isPrefixOf_iff_prefix.mp hfound
    have hrest : rest.drop (d.length - 1) = after := by
      have hdrop : (c :: rest).drop (d.length - 1 + 1) = after := by
        rw [Nat.sub_add_cancel hlength, ← hafter, List.drop_left]
      exact hdrop
    have hleftmost : ¬ d <:+: piece.reverse ++ d.dropLast := by
      have hlast : d.dropLast <+: d := List.dropLast_prefix d
      have hpart : piece.reverse ++ d.dropLast <+: piece.reverse ++ (c :: rest) := by
        rw [List.prefix_append_right_inj, ← hafter]
        exact hlast.trans (List.prefix_append d after)
      refine (h.shorten hpart).no_occurrence ?_
      simp only [List.length_append, List.length_reverse, List.length_dropLast]
      omega
    have hcuts := ih (.zero _ _)
    rw [hrest] at hcuts
    rw [List.drop_zero, ← hafter, ← List.append_assoc]
    exact .cut hleftmost hcuts
  | case4 piece c rest hnone ih =>
    -- None begins at `c`, which goes over to the piece.
    have hmove : (c :: piece).reverse ++ rest.drop 0 = piece.reverse ++ (c :: rest).drop 0 := by
      simp
    rw [hmove] at ih
    refine ih (h.succ ?_)
    rw [← List.length_reverse, List.drop_left]
    exact fun hd => hnone (List.isPrefixOf_iff_prefix.mpr hd)

/-- Splitting cuts at the first occurrence again and again. -/
theorem cuts_splitList (hd : d ≠ []) (l : List Char) : Cuts d l (splitList d l) :=
  cuts_splitFrom hd 0 [] l (.zero _ _)

theorem toList_join (glue : String) (pieces : List String) :
    (join glue pieces).toList = joinList glue.toList (pieces.map String.toList) := by
  fun_induction join glue pieces with
  | case1 => rfl
  | case2 piece => rfl
  | case3 piece rest hrest ih =>
    rw [List.map_cons, joinList, String.toList_append, String.toList_append, ih]
    simpa using hrest

theorem cuts_split {delimiter : String} (h : delimiter ≠ "") (s : String) :
    Cuts delimiter.toList s.toList ((split delimiter s).map String.toList) := by
  have hpieces : (split delimiter s).map String.toList = splitList delimiter.toList s.toList := by
    simp [split, Function.comp_def]
  rw [hpieces]
  exact cuts_splitList (by simpa using h) _

/-- The pieces of a text joined with the delimiter are the text. -/
theorem join_split {delimiter : String} (h : delimiter ≠ "") (s : String) :
    join delimiter (split delimiter s) = s := by
  rw [← String.toList_inj, toList_join, (cuts_split h s).joinList_eq]

end Text

/-! ## Built-in functions -/

namespace Builtin

open Text

/-- The builtin splits, as long as there is a delimiter. -/
theorem call_explode {delimiter : String} (h : delimiter ≠ "") (s : String) :
    call .explode [.text delimiter, .text s] =
      pure (.array ((split delimiter s).map .text)) := by
  change Script.ofExcept (explodeText (.text delimiter) (.text s)) = _
  simp only [explodeText, Builtin.text, bind, Except.bind, if_neg h]
  rfl

/-- The glue may stand on either side of the array. -/
theorem call_implode (glue : String) (pieces : List String) :
    call .implode [.text glue, .array (pieces.map .text)] = pure (.text (join glue pieces)) ∧
      call .implode [.array (pieces.map .text), .text glue] = pure (.text (join glue pieces)) := by
  have hpieces : (pieces.map Value.text).map Value.display = pieces := by
    simp [Function.comp_def, Value.display]
  have hjoin : (pure (.text (join glue ((pieces.map Value.text).map Value.display))) :
      Script Value) = pure (.text (join glue pieces)) := by
    rw [hpieces]
  exact ⟨hjoin, hjoin⟩

/-- A text is cut at the leftmost occurrences of a delimiter that is not empty, into one or more
texts that do not hold the delimiter. Joined with it, in either order of the arguments, they are the
text again. Neither function does anything else, whatever the state. -/
theorem implode_explode {delimiter : String} (h : delimiter ≠ "") (s : String) :
    ∃ pieces : List String, pieces ≠ [] ∧
      (∀ piece ∈ pieces, ¬ delimiter.toList <:+: piece.toList) ∧
      Cuts delimiter.toList s.toList (pieces.map String.toList) ∧
      call .explode [.text delimiter, .text s] = pure (.array (pieces.map .text)) ∧
      call .implode [.text delimiter, .array (pieces.map .text)] = pure (.text s) ∧
      call .implode [.array (pieces.map .text), .text delimiter] = pure (.text s) := by
  have hcuts := cuts_split h s
  obtain ⟨hfirst, hlast⟩ := call_implode delimiter (split delimiter s)
  rw [join_split h] at hfirst hlast
  refine ⟨split delimiter s, ?_, ?_, hcuts, call_explode h s, hfirst, hlast⟩
  · simpa using hcuts.ne_nil
  · intro piece hpiece
    exact hcuts.no_occurrence_of_mem _ (List.mem_map_of_mem hpiece)

/-- A delimiter that overlaps itself, and that stands at the start of the text. -/
theorem implode_explode_overlapping :
    let d := "éxé"
    let s := "éxéxéxé--éxéxé"
    d ≠ "" ∧ split d s = ["", "x", "--", "xé"] ∧
      ∃ pieces : List String, pieces ≠ [] ∧
        (∀ piece ∈ pieces, ¬ d.toList <:+: piece.toList) ∧
        Cuts d.toList s.toList (pieces.map String.toList) ∧
        call .explode [.text d, .text s] = pure (.array (pieces.map .text)) ∧
        call .implode [.text d, .array (pieces.map .text)] = pure (.text s) ∧
        call .implode [.array (pieces.map .text), .text d] = pure (.text s) := by
  intro d s
  have hd : d ≠ "" := by decide
  exact ⟨hd, by decide, implode_explode hd s⟩

end Builtin

end RouteScript
