import Mathlib.Tactic.SplitIfs
import Statechart.Json.Printer
import Statechart.Json.Token
import Statechart.Proofs.Numerals

/-!
# Scanning what was written

A pass over the characters of a written word, integer or string ends between two tokens, with
the one token that the text stands for. A word and a numeral end where the next character
belongs to neither, so they are followed by a text that stands apart from them.
-/

namespace Statechart.Json

namespace Piece

/-- The piece that a character is read as when it was written with escapes. -/
def ofChar (c : Char) : Piece :=
  if c.toNat < 0x20 ∧ c ∉ ['\x08', '\x0c', '\n', '\r', '\t'] then .unit c.toNat else .char c

end Piece

namespace Quoted

def ofString (s : String) : Quoted := s.toList.map Piece.ofChar

theorem chars?_unit {unit : Nat} {rest : Quoted} (notLead : isLead unit = false)
    (notTrail : isTrail unit = false) :
    chars? (.unit unit :: rest) = (chars? rest).map (Char.ofNat unit :: ·) := by
  cases rest with
  | nil => simp [chars?, notLead, notTrail]
  | cons piece rest => cases piece <;> simp [chars?, notLead, notTrail]

theorem chars?_ofChar (c : Char) (rest : Quoted) :
    chars? (Piece.ofChar c :: rest) = (chars? rest).map (c :: ·) := by
  unfold Piece.ofChar
  split
  · next control =>
    -- a control character is far below the surrogates
    have notLead : isLead c.toNat = false := by simp [isLead]; omega
    have notTrail : isTrail c.toNat = false := by simp [isTrail]; omega
    rw [chars?_unit notLead notTrail, Char.ofNat_toNat]
  · rw [chars?]

/-- Written and read, a string is the same string. -/
theorem string?_ofString (s : String) : (ofString s).string? = some s := by
  have chars : ∀ text : List Char, chars? (text.map Piece.ofChar) = some text := by
    intro text
    induction text with
    | nil => rfl
    | cons c rest ih => rw [List.map_cons, chars?_ofChar, ih, Option.map_some]
  rw [string?, ofString, chars, Option.map_some, String.ofList_toList]

end Quoted

namespace Scan

/-- The text does not go on with a letter or with a character of a numeral. -/
def Apart : List Char → Prop
  | [] => True
  | c :: _ => isLetter c = false ∧ isNumeric c = false

variable {acc : List Token} {rest : List Char} {token : Token}

theorem run_cons {scan next : Scan} {c : Char} {tokens : List Token}
    (fed : scan.feed c = some (tokens, next)) :
    scan.run acc (c :: rest) = next.run (tokens ++ acc) rest := by
  rw [run, fed]

/-- A word or a numeral that is complete gives its token at the end of the text, and before
a character that starts something new. -/
theorem run_complete {scan : Scan} (atEnd : scan.finish? = some [token])
    (before : ∀ c, isLetter c = false → isNumeric c = false →
      scan.feed c = (start c).map fun next => (next.1.toList ++ [token], next.2))
    (apart : Apart rest) : scan.run acc rest = between.run (token :: acc) rest := by
  cases rest with
  | nil =>
      rw [run, run, atEnd]
      simp [finish?]
  | cons c rest =>
      obtain ⟨notLetter, notNumeric⟩ := apart
      rw [run, run, before c notLetter notNumeric, feed]
      cases start c with
      | none => rfl
      | some next => simp

theorem run_word {letters : List Char} (spelled : word? letters.reverse = some token)
    (apart : Apart rest) : (word letters).run acc rest = between.run (token :: acc) rest := by
  refine run_complete ?_ (fun c notLetter _ => ?_) apart
  · rw [finish?, spelled, Option.map_some]
  · rw [feed, if_neg (by simp [notLetter]), spelled]
    cases start c <;> rfl

theorem run_numeral {chars : List Char} {value : Numeral}
    (spelled : Numeral.ofText? chars.reverse = some value) (apart : Apart rest) :
    (numeral chars).run acc rest = between.run (.number value :: acc) rest := by
  refine run_complete ?_ (fun c _ notNumeric => ?_) apart
  · rw [finish?, spelled, Option.map_some]
  · rw [feed, if_neg (by simp [notNumeric]), spelled]
    cases start c <;> rfl

/-! ## Words -/

theorem run_null (apart : Apart rest) :
    between.run acc ("null".toList ++ rest) = between.run (.null :: acc) rest :=
  (run_word rfl apart : (word ['l', 'l', 'u', 'n']).run acc rest = _)

theorem run_wordText (value : Bool) (apart : Apart rest) :
    between.run acc (wordText value ++ rest) = between.run (.bool value :: acc) rest := by
  cases value with
  | true => exact (run_word rfl apart : (word ['e', 'u', 'r', 't']).run acc rest = _)
  | false => exact (run_word rfl apart : (word ['e', 's', 'l', 'a', 'f']).run acc rest = _)

/-! ## Integers -/

/-- A digit goes on with a numeral, and starts nothing but a numeral. -/
theorem traits_of_isDigit {c : Char} (digit : c.isDigit = true) :
    isBlank c = false ∧ c ≠ '"' ∧ isLetter c = false ∧ isNumeric c = true := by
  have each : ∀ n < 58, 48 ≤ n → isBlank (Char.ofNat n) = false ∧ Char.ofNat n ≠ '"' ∧
      isLetter (Char.ofNat n) = false ∧ isNumeric (Char.ofNat n) = true := by decide
  simp only [Char.isDigit, Bool.and_eq_true, decide_eq_true_eq, ge_iff_le,
    UInt32.le_iff_toNat_le] at digit
  have traits := each c.toNat (Nat.lt_succ_of_le digit.2) digit.1
  rwa [Char.ofNat_toNat] at traits

theorem start_of_isDigit {c : Char} (digit : c.isDigit = true) :
    start c = some (none, .numeral [c]) := by
  obtain ⟨notBlank, notQuote, notLetter, numeric⟩ := traits_of_isDigit digit
  simp [start, notBlank, notQuote, notLetter, numeric]

/-- A numeral takes in every character that numerals are made of. -/
theorem run_numeral_append {chars text : List Char} (numeric : ∀ c ∈ text, isNumeric c = true) :
    (numeral chars).run acc (text ++ rest) = (numeral (text.reverse ++ chars)).run acc rest := by
  induction text generalizing chars with
  | nil => rfl
  | cons c text ih =>
      have fed : (numeral chars).feed c = some ([], numeral (c :: chars)) :=
        if_pos (numeric c (.head _))
      rw [List.cons_append, run_cons fed, List.nil_append,
        ih fun other member => numeric other (.tail _ member)]
      simp

theorem run_integerText (i : Int) (apart : Apart rest) :
    between.run acc (Binary64.integerText i ++ rest) =
      between.run (.number (Numeral.ofInteger i) :: acc) rest := by
  have digits : ∀ c ∈ Nat.toDigits 10 i.natAbs, c.isDigit = true :=
    fun _ member => Numeral.isDigit_of_mem_toDigits member
  have begun : between.run acc (Binary64.integerText i ++ rest) =
      (numeral (Binary64.integerText i).reverse).run acc rest := by
    unfold Binary64.integerText Binary64.digitsOf
    have numeric : ∀ c ∈ Nat.toDigits 10 i.natAbs, isNumeric c = true :=
      fun c member => (traits_of_isDigit (digits c member)).2.2.2
    split
    · have first : between.feed '-' = some ([], .numeral ['-']) := rfl
      rw [List.cons_append, run_cons first, List.nil_append, run_numeral_append numeric,
        List.reverse_cons]
    · cases found : Nat.toDigits 10 i.natAbs with
      | nil => exact absurd found Nat.toDigits_ne_nil
      | cons c others =>
          rw [found] at digits numeric
          have first : between.feed c = some ([], .numeral [c]) := by
            rw [feed, start_of_isDigit (digits c (.head _))]
            rfl
          rw [List.cons_append, run_cons first, List.nil_append,
            run_numeral_append fun other member => numeric other (.tail _ member),
            List.reverse_cons]
  rw [begun, run_numeral _ apart]
  rw [List.reverse_reverse, Numeral.ofText?_integerText]

/-! ## Strings -/

theorem hexValue?_hexDigit (n : Nat) : hexValue? (hexDigit n) = some (n % 16) := by
  have digits : ∀ d < 16, hexValue? ((Nat.toDigits 16 d).headD '0') = some d := by decide
  exact digits (n % 16) (Nat.mod_lt n (by decide))

/-- The four digits of an escaped control character. -/
theorem run_unit (pieces : Quoted) (high low : Nat) :
    (unit pieces 0 0).run acc ('0' :: '0' :: hexDigit high :: hexDigit low :: rest) =
      (quoted (.unit (high % 16 * 16 + low % 16) :: pieces)).run acc rest := by
  have zeros : (unit pieces 0 0).run acc ('0' :: '0' :: hexDigit high :: hexDigit low :: rest) =
      (unit pieces 2 0).run acc (hexDigit high :: hexDigit low :: rest) := rfl
  have third : (unit pieces 2 0).feed (hexDigit high) =
      some ([], unit pieces 3 (high % 16)) := by
    simp [feed, hexValue?_hexDigit]
  have fourth : (unit pieces 3 (high % 16)).feed (hexDigit low) =
      some ([], quoted (.unit (high % 16 * 16 + low % 16) :: pieces)) := by
    simp [feed, hexValue?_hexDigit]
  rw [zeros, run_cons third, run_cons fourth, List.nil_append, List.nil_append]

theorem run_escape (pieces : Quoted) (c : Char) :
    (quoted pieces).run acc (escape c ++ rest) =
      (quoted (Piece.ofChar c :: pieces)).run acc rest := by
  unfold escape
  split_ifs with quote backslash backspace formFeed lineFeed carriage tab control
  iterate 7
    · subst c
      rfl
  · have isUnit : Piece.ofChar c = .unit c.toNat :=
      if_pos ⟨control, by simp [backspace, formFeed, lineFeed, carriage, tab]⟩
    have value : c.toNat / 16 % 16 * 16 + c.toNat % 16 = c.toNat := by omega
    have opened : (quoted pieces).run acc
        (['\\', 'u', '0', '0', hexDigit (c.toNat / 16), hexDigit c.toNat] ++ rest) =
        (unit pieces 0 0).run acc
          ('0' :: '0' :: hexDigit (c.toNat / 16) :: hexDigit c.toNat :: rest) := rfl
    rw [opened, run_unit, value, isUnit]
  · have isChar : Piece.ofChar c = .char c := if_neg fun escaped => control escaped.1
    have fed : (quoted pieces).feed c = some ([], quoted (.char c :: pieces)) := by
      rw [feed, if_neg quote, if_neg backslash, if_neg control]
    rw [List.singleton_append, run_cons fed, List.nil_append, isChar]

theorem run_quote (s : String) :
    between.run acc (quote s ++ rest) = between.run (.string (Quoted.ofString s) :: acc) rest := by
  have body : ∀ (text : List Char) (pieces : Quoted),
      (quoted pieces).run acc (text.flatMap escape ++ '"' :: rest) =
        between.run (.string (pieces.reverse ++ text.map Piece.ofChar) :: acc) rest := by
    intro text
    induction text with
    | nil =>
        intro pieces
        rw [List.map_nil, List.append_nil]
        rfl
    | cons c text ih =>
        intro pieces
        rw [List.flatMap_cons, List.append_assoc, run_escape, ih]
        simp
  have opened : between.run acc (quote s ++ rest) =
      (quoted []).run acc (s.toList.flatMap escape ++ '"' :: rest) := by
    rw [quote, List.cons_append, List.cons_append, List.append_assoc]
    rfl
  rw [opened, body]
  rfl

end Scan

end Statechart.Json
