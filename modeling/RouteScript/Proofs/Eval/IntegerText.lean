import RouteScript.Proofs.Eval.Settling
import RouteScript.Proofs.Syntax.RoundTrip
import RouteScript.Proofs.Token.Scanning

/-!
# Integers as programs

The text of an integer is a program that gives the integer back. A minus sign is an operator and not
a part of the number behind it, so the number has to fit without its sign: the least integer is the
only one whose text cannot be read.
-/

namespace RouteScript

open Text Token

/-! ## Tokens -/

namespace Token

def decimalLexeme (m : Nat) : Lexeme :=
  match Decimal.int64? (Nat.toDigits 10 m) with
  | some n => .integer n
  | none => .illegal m.repr

theorem isDigit_of_mem_toDigits {m : Nat} : ∀ c ∈ Nat.toDigits 10 m, isDigit c = true :=
  fun _ hc => Nat.isDigit_of_mem_toDigits (by decide) (by decide) hc

/-- Digits of a number in range are read as that number. -/
theorem decimalLexeme_of_eq {m : Nat} {n : Int64} (h : (m : Int) = n.toInt) :
    decimalLexeme m = .integer n := by
  have hvalue : (decimalValue (Nat.toDigits 10 m) : Int) = n.toInt := by
    rw [← h]
    exact congrArg _ Nat.ofDigitChars_ten_toDigits
  rw [decimalLexeme, int64?_digits Nat.toDigits_ne_nil isDigit_of_mem_toDigits hvalue]

theorem tokensFrom_toDigits (m : Nat) (p : Position) :
    tokensFrom p (Nat.toDigits 10 m) =
      [⟨decimalLexeme m, p⟩, ⟨.eof, p.after (Nat.toDigits 10 m)⟩] := by
  have hstops : StopsAt isDigit [] := by simp [StopsAt]
  have hfound : FoundAt (decimalLexeme m) (Nat.toDigits 10 m) [] := by
    rw [decimalLexeme, Nat.repr_eq_ofList_toDigits]
    exact foundAt_digits Nat.toDigits_ne_nil isDigit_of_mem_toDigits hstops (by simp)
  have htokens := tokensFrom_of_foundAt hfound p
  rwa [List.append_nil, tokensFrom_nil] at htokens

/-- The digits of a number are read as one token. -/
theorem tokenize_repr (m : Nat) :
    tokenize m.repr =
      [⟨decimalLexeme m, .start⟩, ⟨.eof, Position.start.after (Nat.toDigits 10 m)⟩] := by
  rw [tokenize, Nat.toList_repr, tokensFrom_toDigits]

/-- A minus sign before the digits is a token of its own. -/
theorem tokenize_minus_repr (m : Nat) :
    tokenize ("-" ++ m.repr) =
      [⟨.mark .minus, .start⟩, ⟨decimalLexeme m, ⟨1, 2, 1⟩⟩,
        ⟨.eof, Position.after ⟨1, 2, 1⟩ (Nat.toDigits 10 m)⟩] := by
  have hsource : ("-" ++ m.repr).toList = ['-'] ++ Nat.toDigits 10 m := by
    rw [String.toList_append, Nat.toList_repr]
    rfl
  have hsign : FoundAt (.mark .minus) ['-'] (Nat.toDigits 10 m) := by
    refine foundAt_char rfl fun d hd => ?_
    simp [continuesName, isDigit_of_mem_toDigits d (List.mem_of_mem_head? hd)]
  rw [tokenize, hsource, tokensFrom_of_foundAt hsign, tokensFrom_toDigits]
  rfl

end Token

/-! ## Reading -/

/-- An integer as an expression. Numbers are written without a sign. -/
def Expr.ofInt (n : Int64) : Expr := if n < 0 then .unary .negate (.int (-n)) else .int n

theorem Value.display_int (n : Int64) : (Value.int n).display = toString n.toInt := by
  rw [Value.display]
  rfl

theorem toInt_neg_of_ne_minValue {n : Int64} (h : n ≠ Int64.minValue) : (-n).toInt = -n.toInt := by
  have hlow := n.le_toInt
  have hhigh := n.toInt_lt
  have hne : n.toInt ≠ -2 ^ 63 := fun heq => h (Int64.toInt_inj.mp heq)
  rw [Int64.toInt_neg]
  exact Int.bmod_eq_of_le (by omega) (by omega)

/-- The text of a whole number parses as an expression that denotes it, except for the least one. -/
theorem Program.ofSource_int {n : Int64} (h : n ≠ Int64.minValue) :
    Program.ofSource (Value.int n).display = .ok ⟨[.expr (.ofInt n)]⟩ := by
  rw [Value.display_int, Expr.ofInt]
  cases hn : n.toInt with
  | ofNat m =>
    have hsign : 0 ≤ n := by simp [Int64.le_iff_toInt_le, hn]
    have hpass : (Expr.int n).passes Style.sparse.check = true := by
      simpa [Expr.passes, Style.check, plainCheck] using hsign
    have htokens : (tokenize m.repr).map Token.lexeme = [.integer n, .eof] := by
      rw [tokenize_repr, decimalLexeme_of_eq hn.symm]
      rfl
    rw [if_neg (Int64.not_lt.mpr hsign)]
    exact Program.ofSource_of_expr hpass (by simp [Expr.height, maxDepth]) htokens
  | negSucc m =>
    have hsign : n < 0 := by simp [Int64.lt_iff_toInt_lt, hn]
    have hneg : ((m + 1 : Nat) : Int) = (-n).toInt := by
      rw [toInt_neg_of_ne_minValue h, hn]
      rfl
    have hpass : (Expr.unary .negate (.int (-n))).passes Style.sparse.check = true := by
      have hpositive : 0 ≤ -n := by
        rw [Int64.le_iff_toInt_le, ← hneg]
        exact Int.natCast_nonneg _
      simpa [Expr.passes, Style.check, plainCheck] using hpositive
    have htokens : (tokenize ("-" ++ (m + 1).repr)).map Token.lexeme =
        [.mark .minus, .integer (-n), .eof] := by
      rw [tokenize_minus_repr, decimalLexeme_of_eq hneg]
      rfl
    rw [if_pos hsign]
    exact Program.ofSource_of_expr hpass (by simp [Expr.height, maxDepth]) htokens

/-- The digits of the least integer are too large for a number. -/
theorem Program.ofSource_minValue :
    Program.ofSource (Value.int Int64.minValue).display =
      .error [.noExpression (.illegal "9223372036854775808") ⟨1, 2, 1⟩] := by
  have hdisplay : (Value.int Int64.minValue).display = "-" ++ (9223372036854775808 : Nat).repr := by
    rw [Value.display_int]
    rfl
  have hillegal : decimalLexeme 9223372036854775808 = .illegal "9223372036854775808" := by
    have htoolarge : Decimal.int64? (Nat.toDigits 10 9223372036854775808) = none := by
      decide +kernel
    have hrepr : (9223372036854775808 : Nat).repr = "9223372036854775808" := by decide +kernel
    rw [decimalLexeme, htoolarge, hrepr]
  rw [Program.ofSource, Reading.ofSource_eq, hdisplay, tokenize_minus_repr, hillegal]
  rfl

/-! ## Running -/

namespace Interpreter

/-- That expression evaluates to the number and leaves everything as it was. -/
theorem run?_ofInt (n : Int64) {i : Interpreter} (hlevels : 2 ≤ i.levels) :
    i.run? (i.evaluator.statement (.expr (.ofInt n))) = some (.ok (.int n), i) := by
  obtain ⟨levels, hlevels⟩ := Nat.exists_eq_add_of_le' hlevels
  have hrun : i.evaluator.statement (.expr (.ofInt n)) i.task i.store =
      Script.release (.ok (.int n)) i.task i.store := by
    rw [evaluator, hlevels, Expr.ofInt]
    split
    · nth_rewrite 2 [← @Int64.neg_neg n]
      rfl
    · rfl
  exact run?_of_release hrun

/-- Running the text of an integer gives the integer and changes nothing, unless the integer is the
least one: its text is malformed. -/
theorem run_integer_text (n : Int64) (i : Interpreter) (hlevels : 2 ≤ i.levels)
    (hmain : i.store.runsMain = false) :
    i.runSource (Value.int n).display =
      if n = Int64.minValue then
        (.malformed [.noExpression (.illegal "9223372036854775808") ⟨1, 2, 1⟩], i)
      else (.value (.int n), i) := by
  unfold runSource
  split_ifs with h
  · rw [h, Program.ofSource_minValue]
  · rw [Program.ofSource_int h]
    exact execute_of_statement rfl (run?_ofInt n hlevels) hmain

/-- The integers at both ends, in a new interpreter. -/
theorem run_integer_text_ends :
    let i := create {}
    2 ≤ i.levels ∧ i.store.runsMain = false ∧
    i.runSource (Value.int Int64.maxValue).display = (.value (.int Int64.maxValue), i) ∧
    i.runSource (Value.int (Int64.minValue + 1)).display =
      (.value (.int (Int64.minValue + 1)), i) ∧
    i.runSource (Value.int Int64.minValue).display =
      (.malformed [.noExpression (.illegal "9223372036854775808") ⟨1, 2, 1⟩], i) := by
  intro i
  have hlevels : 2 ≤ i.levels := by decide
  have hmain : i.store.runsMain = false := by decide +kernel
  exact ⟨hlevels, hmain, run_integer_text _ i hlevels hmain, run_integer_text _ i hlevels hmain,
    run_integer_text _ i hlevels hmain⟩

end Interpreter

end RouteScript
