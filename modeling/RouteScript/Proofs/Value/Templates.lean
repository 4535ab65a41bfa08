import RouteScript.Eval.Builtin

/-!
# Templates

A template is made of literal texts with verbs between them. Written as a format, with every percent
sign of the literal texts doubled, it gives the literal texts back as they were, whatever characters
they hold, and the texts of the arguments in order where the verbs stand.

## Main definitions

* `Template.source`: a template as a format.
* `Template.filled`: a template with the texts of arguments in the place of its verbs.
-/

namespace RouteScript

/-- The verbs that write an argument without a given number of places. -/
inductive FormatVerb where
  | string | value | number
  deriving DecidableEq

/-- Literal texts with verbs between them: a first text, and the verbs with the text behind each. -/
structure Template where
  head : String
  rest : List (FormatVerb × String)

namespace FormatVerb

def letter : FormatVerb → Char
  | .string => 's'
  | .value => 'v'
  | .number => 'd'

def piece : FormatVerb → FormatPiece
  | .string | .value => .text
  | .number => .whole

end FormatVerb

namespace Template

/-- A literal text in a format, where a percent sign is written twice. -/
def escape (s : String) : String :=
  String.ofList (s.toList.flatMap fun c => if c = '%' then ['%', '%'] else [c])

/-- Verbs, with the literal text behind each, as a part of a format. -/
def write : List (FormatVerb × String) → String
  | [] => ""
  | (verb, text) :: rest => "%" ++ String.singleton verb.letter ++ escape text ++ write rest

def source (τ : Template) : String := escape τ.head ++ write τ.rest

/-- The texts of the arguments, with the literal text behind each verb. A verb without an argument
gives nothing, and arguments without a verb are left out. -/
def insert : List (FormatVerb × String) → List Value → String
  | [], _ => ""
  | (_, text) :: rest, args => args.head?.elim "" Value.display ++ text ++ insert rest args.tail

/-- A template with the texts of the arguments in the place of its verbs. -/
def filled (τ : Template) (args : List Value) : String := τ.head ++ insert τ.rest args

/-- No float is an argument of a verb for numbers, which would leave out its fraction. -/
def Suits (τ : Template) (args : List Value) : Prop :=
  ∀ p ∈ τ.rest.zip args, p.1.1 = .number → p.2.kind ≠ .float

end Template

namespace FormatPiece

/-! ## Literal texts -/

/-- Escaped text is scanned to its characters. -/
theorem scan_escape (l rest : List Char) :
    scan .nothing ((l.flatMap fun c => if c = '%' then ['%', '%'] else [c]) ++ rest) =
      l.map (fun c => literal [c]) ++ scan .nothing rest := by
  induction l with
  | nil => rfl
  | cons c l ih =>
    rw [List.flatMap_cons, List.append_assoc, List.map_cons, List.cons_append, ← ih]
    by_cases hc : c = '%'
    · rw [if_pos hc, hc]
      rfl
    · simp [scan, hc]

theorem fill_literals (l : List Char) (pieces : List FormatPiece) (args : List Value) :
    fill (l.map (fun c => literal [c]) ++ pieces) args = String.ofList l ++ fill pieces args := by
  induction l with
  | nil => simp
  | cons c l ih =>
    rw [List.map_cons, List.cons_append, fill, ih, ← String.append_assoc, ← String.ofList_append]
    rfl

/-- A literal text is written as it is, whatever stands behind it. -/
theorem fill_scan_escape (s : String) (rest : List Char) (args : List Value) :
    fill (scan .nothing ((Template.escape s).toList ++ rest)) args =
      s ++ fill (scan .nothing rest) args := by
  rw [Template.escape, String.toList_ofList, scan_escape, fill_literals, String.ofList_toList]

/-! ## Verbs -/

/-- A verb is scanned to its piece. -/
theorem scan_verb (verb : FormatVerb) (rest : List Char) :
    scan .nothing ('%' :: verb.letter :: rest) = verb.piece :: scan .nothing rest := by
  cases verb <;> rfl

/-- A verb takes the next argument, if there is one. -/
theorem fill_verb {verb : FormatVerb} {args : List Value} (pieces : List FormatPiece)
    (h : ∀ v ∈ args.head?, verb = .number → v.kind ≠ .float) :
    fill (verb.piece :: pieces) args =
      args.head?.elim "" Value.display ++ fill pieces args.tail := by
  cases args with
  | nil => cases verb <;> simp [FormatVerb.piece, fill]
  | cons v args =>
    cases verb with
    | string | value => rfl
    | number =>
      have hrender : whole.render v = v.display := by
        cases v with
        | float x => exact absurd rfl (h _ rfl rfl)
        | _ => rfl
      rw [FormatVerb.piece, fill, hrender]
      · rfl
      · simp

/-- A written template filled in gives its texts with the arguments between them. -/
theorem fill_scan_write {rest : List (FormatVerb × String)} {args : List Value}
    (h : ∀ p ∈ rest.zip args, p.1.1 = .number → p.2.kind ≠ .float) :
    fill (scan .nothing (Template.write rest).toList) args = Template.insert rest args := by
  induction rest generalizing args with
  | nil => rfl
  | cons part rest ih =>
    obtain ⟨verb, text⟩ := part
    have hhead : ∀ v ∈ args.head?, verb = .number → v.kind ≠ .float := by
      intro v hv
      obtain ⟨args', rfl⟩ := List.head?_eq_some_iff.mp hv
      exact h ((verb, text), v) (by simp)
    have htail : ∀ p ∈ rest.zip args.tail, p.1.1 = .number → p.2.kind ≠ .float := by
      cases args with
      | nil => simp
      | cons v args => exact fun p hp => h p (List.mem_cons_of_mem _ hp)
    have hchars : (Template.write ((verb, text) :: rest)).toList =
        '%' :: verb.letter :: ((Template.escape text).toList ++ (Template.write rest).toList) := by
      simp [Template.write]
    rw [hchars, scan_verb, fill_verb _ hhead, fill_scan_escape, ih htail, Template.insert,
      String.append_assoc]

end FormatPiece

theorem Builtin.call_printf (template : String) (args : List Value) :
    call .printf (.text template :: args) =
      (do Script.write (format template args); return .nil) := by
  have haccepts : Builtin.printf.arity.accepts (args.length + 1) = true := by
    simp [arity, Arity.accepts]
  rw [call, List.length_cons, if_pos haccepts]
  rfl

namespace Template

/-- A template that is written as a format gives its literal texts unchanged, and the texts of the
arguments in order. This is what `printf` writes, and all that it does. -/
theorem format_source {τ : Template} {args : List Value} (h : τ.Suits args) :
    format τ.source args = τ.filled args ∧
      Builtin.call .printf (.text τ.source :: args) =
        (do Script.write (τ.filled args); return .nil) := by
  have hformat : format τ.source args = τ.filled args := by
    rw [format, source, String.toList_append, FormatPiece.fill_scan_escape,
      FormatPiece.fill_scan_write h, filled]
  rw [Builtin.call_printf, hformat]
  exact ⟨rfl, rfl⟩

/-- Literal texts that look like parts of verbs, an argument that looks like a verb, and a verb
without an argument. -/
theorem format_source_lookalikes :
    let τ : Template := ⟨"%.", [(.number, ".2f%"), (.string, "s%%"), (.value, "%d")]⟩
    let args := [.int (-7), .text "%v%"]
    τ.source = "%%.%d.2f%%%ss%%%%%v%%d" ∧ τ.Suits args ∧
      τ.filled args = "%.-7.2f%%v%s%%%d" ∧ format τ.source args = τ.filled args ∧
      Builtin.call .printf (.text τ.source :: args) =
        (do Script.write (τ.filled args); return .nil) := by
  intro τ args
  have hsuits : τ.Suits args := by
    simp [Suits, τ, args, Value.kind]
  have hfilled : τ.filled args = "%.-7.2f%%v%s%%%d" := by
    simp only [τ, args, filled, insert, List.head?_cons, List.tail_cons, List.head?_nil,
      Option.elim_some, Option.elim_none, Value.display]
    decide
  exact ⟨by decide, hsuits, hfilled, format_source hsuits⟩

end Template

end RouteScript
