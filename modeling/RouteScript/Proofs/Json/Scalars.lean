import Mathlib.Tactic.SplitIfs
import RouteScript.Json.Reader
import RouteScript.Json.Writer

/-!
# Integers and texts in documents

Integers and texts are read back from what is written for them, in front of anything that may stand
behind a document. Every integer of 64 bits stays an integer, also at the ends of the range, and
every character of a text survives, whether it is escaped or not.
-/

namespace RouteScript.Json

open Text

variable {rest : List Char}

/-- What may stand behind a document: nothing, a comma, or the end of a container. -/
def Delimits (rest : List Char) : Prop := ∀ c ∈ rest.head?, c = ',' ∨ c = ']' ∨ c = '\x7d'

theorem delimits_nil : Delimits [] := by simp [Delimits]

theorem delimits_comma (rest : List Char) : Delimits (',' :: rest) := by simp [Delimits]

theorem delimits_bracket (rest : List Char) : Delimits (']' :: rest) := by simp [Delimits]

theorem delimits_brace (rest : List Char) : Delimits ('\x7d' :: rest) := by simp [Delimits]

/-! ## Digits -/

theorem isDigit_toDigits {m : Nat} : ∀ c ∈ Nat.toDigits 10 m, isDigit c = true :=
  fun _ hc => Nat.isDigit_of_mem_toDigits (by decide) (by decide) hc

theorem exists_toDigits_cons (m : Nat) :
    ∃ d ds, Nat.toDigits 10 m = d :: ds ∧ isDigit d = true := by
  obtain ⟨d, ds, hdigits⟩ := List.exists_cons_of_ne_nil (@Nat.toDigits_ne_nil m 10)
  have hmem : d ∈ Nat.toDigits 10 m := by simp [hdigits]
  exact ⟨d, ds, hdigits, isDigit_toDigits d hmem⟩

theorem head?_toDigits_ne_zero {m : Nat} (h : m ≠ 0) : (Nat.toDigits 10 m).head? ≠ some '0' := by
  induction m using Nat.strongRecOn with
  | ind m ih =>
    by_cases hsmall : m < 10
    · rw [Nat.toDigits_of_lt_base hsmall]
      have hdigits : ∀ k < 10, k ≠ 0 → [k.digitChar].head? ≠ some '0' := by decide
      exact hdigits m hsmall h
    · rw [Nat.toDigits_of_base_le (by decide) (by omega), List.head?_append]
      have hhead := ih (m / 10) (by omega) (by omega)
      obtain ⟨d, ds, hdigits, -⟩ := exists_toDigits_cons (m / 10)
      simpa [hdigits] using hhead

/-- The digits of a number end where a delimiter starts. -/
theorem takeWhile_toDigits (m : Nat) (hrest : Delimits rest) :
    (Nat.toDigits 10 m ++ rest).takeWhile isDigit = Nat.toDigits 10 m ∧
      (Nat.toDigits 10 m ++ rest).dropWhile isDigit = rest := by
  rw [List.takeWhile_append_of_pos isDigit_toDigits, List.dropWhile_append_of_pos isDigit_toDigits]
  cases rest with
  | nil => simp
  | cons c rest =>
    have hc : isDigit c = false := by
      obtain rfl | rfl | rfl := hrest c rfl <;> rfl
    simp [hc]

/-! ## Integers -/

theorem le_foldl_digits (n : Nat) (digits : List Char) :
    n ≤ digits.foldl (fun n c => 10 * n + digitValue c) n := by
  induction digits generalizing n with
  | nil => exact Nat.le_refl n
  | cons c digits ih =>
    have hstep : n ≤ 10 * n + digitValue c := by omega
    exact Nat.le_trans hstep (ih (10 * n + digitValue c))

/-- Digits are gathered as long as the number that they write fits. -/
theorem gather_of_le {word : Nat} {digits : List Char}
    (h : digits.foldl (fun n c => 10 * n + digitValue c) word ≤ maxWord) :
    gather word digits = (digits.foldl (fun n c => 10 * n + digitValue c) word, []) := by
  induction digits generalizing word with
  | nil => rfl
  | cons c digits ih =>
    have hfits := Nat.le_trans (le_foldl_digits (10 * word + digitValue c) digits) h
    rw [gather, if_neg (Nat.not_lt.mpr hfits), ih h]
    rfl

/-- Digits of a number that fits are gathered to that number, and none is left over. -/
theorem gather_toDigits {m : Nat} (h : m ≤ maxWord) : gather 0 (Nat.toDigits 10 m) = (m, []) := by
  have hvalue : (Nat.toDigits 10 m).foldl (fun n c => 10 * n + digitValue c) 0 = m :=
    Nat.ofDigitChars_ten_toDigits
  rw [gather_of_le (by rwa [hvalue]), hvalue]

/-- The digits of a number are read as its whole part. -/
theorem whole?_toDigits (m : Nat) (hrest : Delimits rest) :
    whole? (Nat.toDigits 10 m ++ rest) = some (Nat.toDigits 10 m, rest) := by
  obtain ⟨htake, hdrop⟩ := takeWhile_toDigits m hrest
  by_cases hm : m = 0
  · subst hm
    cases rest with
    | nil => rfl
    | cons c rest => obtain rfl | rfl | rfl := hrest c rfl <;> rfl
  · have hhead := head?_toDigits_ne_zero hm
    rw [whole?.eq_def]
    split
    next rest' heq =>
      obtain ⟨d, ds, hdigits, -⟩ := exists_toDigits_cons m
      simp_all
    next =>
      rw [htake, hdrop]
      split
      next hnil => exact absurd hnil Nat.toDigits_ne_nil
      next => rfl

/-- A delimiter starts no exponent. -/
theorem exponent?_of_delimits (hrest : Delimits rest) : exponent? rest = some (0, rest) := by
  cases rest with
  | nil => rfl
  | cons c rest =>
    obtain rfl | rfl | rfl := hrest c rfl <;> rfl

/-- The digits of a number that fits are read back as that number. -/
theorem unsigned?_toDigits (negative : Bool) {m : Nat} (hm : m ≤ maxWord) (hrest : Delimits rest) :
    unsigned? negative (Nat.toDigits 10 m ++ rest) = some (ofWhole negative m, rest) := by
  simp only [unsigned?, whole?_toDigits m hrest, gather_toDigits hm, Option.bind_eq_bind,
    Option.bind_some]
  split
  next behind => simpa using hrest '.' rfl
  next => simp [exponent?_of_delimits hrest]

/-- Digits are no sign. -/
theorem number?_toDigits (m : Nat) (l : List Char) :
    number? (Nat.toDigits 10 m ++ l) = unsigned? false (Nat.toDigits 10 m ++ l) := by
  obtain ⟨d, ds, hdigits, hdigit⟩ := exists_toDigits_cons m
  have hd : d ≠ '-' := by
    rintro rfl
    exact absurd hdigit (by decide)
  rw [hdigits, List.cons_append, number?.eq_def]
  split
  next l' heq => exact absurd (List.cons.inj heq).1 hd
  next => rfl

theorem toList_toString_ofNat {n : Int64} {m : Nat} (h : n.toInt = .ofNat m) :
    (toString n).toList = Nat.toDigits 10 m := by
  change (toString n.toInt).toList = _
  rw [h]
  exact Nat.toList_repr

theorem toList_toString_negSucc {n : Int64} {m : Nat} (h : n.toInt = .negSucc m) :
    (toString n).toList = '-' :: Nat.toDigits 10 (m + 1) := by
  change (toString n.toInt).toList = _
  rw [h]
  change ("-" ++ (m + 1).repr).toList = _
  rw [String.toList_append, Nat.toList_repr]
  rfl

/-- An integer starts with a digit or a minus sign. -/
theorem exists_toString_cons (n : Int64) :
    ∃ c l, (toString n).toList = c :: l ∧ (isDigit c = true ∨ c = '-') := by
  cases hn : n.toInt with
  | ofNat m =>
    obtain ⟨d, ds, hdigits, hd⟩ := exists_toDigits_cons m
    exact ⟨d, ds, by rw [toList_toString_ofNat hn, hdigits], .inl hd⟩
  | negSucc m => exact ⟨'-', _, toList_toString_negSucc hn, .inr rfl⟩

/-- An integer is read as an integer, whatever its size and its sign. -/
theorem number?_toString (n : Int64) (hrest : Delimits rest) :
    number? ((toString n).toList ++ rest) = some (.int n, rest) := by
  have hlow := n.le_toInt
  have hhigh := n.toInt_lt
  cases hn : n.toInt with
  | ofNat m =>
    have hsmall : m < 2 ^ 63 := by
      rw [hn] at hhigh
      exact Int.ofNat_lt.mp hhigh
    have hvalue : Int64.ofNat m = n := Int64.toInt_inj.mp (by
      rw [hn, Int64.toInt_ofNat_of_lt hsmall]
      rfl)
    rw [toList_toString_ofNat hn, number?_toDigits,
      unsigned?_toDigits false (by rw [maxWord, UInt64.size]; omega) hrest, ofWhole,
      if_neg Bool.false_ne_true, if_pos (show m < Nat.pow 2 63 from hsmall), hvalue]
  | negSucc m =>
    have hsmall : m + 1 ≤ 2 ^ 63 := by
      rw [hn, Int.negSucc_eq] at hlow
      omega
    have hvalue : Int64.ofInt (-((m + 1 : Nat) : Int)) = n := Int64.toInt_inj.mp (by
      rw [hn, Int64.toInt_ofInt_of_le (by omega) (by omega)]
      rfl)
    rw [toList_toString_negSucc hn, List.cons_append, number?,
      unsigned?_toDigits true (by rw [maxWord, UInt64.size]; omega) hrest, ofWhole, if_pos rfl,
      if_neg (by simp only [Nat.pow_eq]; omega), hvalue]

/-! ## Texts -/

/-- Hexadecimal digits are read back. -/
theorem hexValue?_hexDigit {n : Nat} (h : n < 16) : hexValue? (hexDigit n) = some n := by
  have hdigits : ∀ k < 16, hexValue? (hexDigit k) = some k := by decide
  exact hdigits n h

/-- The two last digits of an escape write the code point of a control character. -/
theorem unicode?_of_control {c : Char} (h : c.toNat < 32) (l : List Char) :
    unicode? ('0' :: '0' :: hexDigit (c.toNat / 16) :: hexDigit (c.toNat % 16) :: l) =
      some (c, l) := by
  have hzero : hexValue? '0' = some 0 := rfl
  have hhigh : hexValue? (hexDigit (c.toNat / 16)) = some (c.toNat / 16) :=
    hexValue?_hexDigit (by omega)
  have hlow : hexValue? (hexDigit (c.toNat % 16)) = some (c.toNat % 16) :=
    hexValue?_hexDigit (by omega)
  have hcode : 16 * (c.toNat / 16) + c.toNat % 16 = c.toNat := by omega
  have hunit : unit? ('0' :: '0' :: hexDigit (c.toNat / 16) :: hexDigit (c.toNat % 16) :: l) =
      some (c.toNat, l) := by
    simp [unit?, hzero, hhigh, hlow, hcode]
  simp only [unicode?, hunit, Option.bind_eq_bind, Option.bind_some]
  rw [if_neg (by omega), if_neg (by omega), Char.ofNat_toNat]
  rfl

/-- A written character is read by one step, whatever is behind it. -/
theorem textRest?_escape (fuel : Nat) (found : List Char) (c : Char) (l : List Char) :
    textRest? (fuel + 1) found (escape c ++ l) = textRest? fuel (c :: found) l := by
  unfold escape
  split_ifs with hquote hslash hnewline hreturn htab hback hform hcontrol
  · subst hquote; rfl
  · subst hslash; rfl
  · subst hnewline; rfl
  · subst hreturn; rfl
  · subst htab; rfl
  · have hc : c = Char.ofNat 8 := by rw [← hback, Char.ofNat_toNat]
    subst hc; rfl
  · have hc : c = Char.ofNat 12 := by rw [← hform, Char.ofNat_toNat]
    subst hc; rfl
  · simp only [List.cons_append, List.nil_append, textRest?, unicode?_of_control hcontrol]
  · simp [textRest?, hslash, hcontrol]

theorem length_le_flatMap_escape (s : List Char) : s.length ≤ (s.flatMap escape).length := by
  induction s with
  | nil => simp
  | cons c s ih =>
    have hc : 1 ≤ (escape c).length := by
      unfold escape
      split_ifs <;> simp
    simp only [List.flatMap_cons, List.length_append, List.length_cons]
    omega

/-- Escaped characters are read back one by one. The fuel counts them. -/
theorem textRest?_flatMap_escape {fuel : Nat} (found s : List Char) (rest : List Char)
    (h : s.length < fuel) :
    textRest? fuel found (s.flatMap escape ++ '"' :: rest) =
      some (String.ofList (found.reverse ++ s), rest) := by
  induction s generalizing fuel found with
  | nil =>
    obtain ⟨fuel, rfl⟩ := Nat.exists_eq_succ_of_ne_zero (Nat.ne_of_gt h)
    simp [textRest?]
  | cons c s ih =>
    obtain ⟨fuel, rfl⟩ := Nat.exists_eq_succ_of_ne_zero (Nat.ne_of_gt (Nat.zero_lt_of_lt h))
    rw [List.flatMap_cons, List.append_assoc, textRest?_escape,
      ih (c :: found) (Nat.lt_of_succ_lt_succ h)]
    simp

theorem toList_quote_append (s : String) (rest : List Char) :
    (quote s).toList ++ rest = '"' :: (s.toList.flatMap escape ++ '"' :: rest) := by
  simp [quote]

/-- A quoted text is read back. -/
theorem text?_quote (s : String) (rest : List Char) :
    text? ((quote s).toList ++ rest) = some (s, rest) := by
  have hfuel : s.toList.length < (s.toList.flatMap escape ++ '"' :: rest).length + 1 := by
    have := length_le_flatMap_escape s.toList
    simp only [List.length_append, List.length_cons]
    omega
  rw [toList_quote_append, text?, textRest?_flatMap_escape [] s.toList rest hfuel]
  simp

end RouteScript.Json
