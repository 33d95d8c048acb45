import Statechart.Proofs.JsonText

/-!
# Reading back indented text

Blanks stand between tokens only, so a text that is laid out in lines is scanned into the same
tokens as the compact one and read as the same tree.
-/

namespace Statechart.Json

namespace Scan

open Raw

variable {acc : List Token} {rest : List Char}

theorem run_blank : between.run acc (' ' :: rest) = between.run acc rest := rfl

theorem run_newLine (level : Nat) :
    between.run acc (newLine level ++ rest) = between.run acc rest := by
  have blanks : ∀ count : Nat,
      between.run acc (List.replicate count ' ' ++ rest) = between.run acc rest := by
    intro count
    induction count with
    | zero => rfl
    | succ count ih => rw [List.replicate_succ, List.cons_append, run_blank, ih]
  exact blanks (2 * level)

theorem apart_newLine (level : Nat) : Apart (newLine level ++ rest) := ⟨rfl, rfl⟩

theorem apart_prettyItems (level : Nat) (items : List Json) (apart : Apart rest) :
    Apart (prettyItems level items ++ rest) := by
  cases items with
  | nil => exact apart
  | cons _ _ => exact ⟨rfl, rfl⟩

theorem apart_prettyFields (level : Nat) (fields : List (String × Json)) (apart : Apart rest) :
    Apart (prettyFields level fields ++ rest) := by
  cases fields with
  | nil => exact apart
  | cons _ _ => exact ⟨rfl, rfl⟩

mutual
theorem run_prettyText : (value : Json) → value.RealFree → ∀ (level : Nat) (acc : List Token)
    (rest : List Char), Apart rest →
    between.run acc (value.prettyText level ++ rest) =
      between.run ((ofJson value).tokens.reverse ++ acc) rest
  | .null, _, _, _, _, apart => run_null apart
  | .bool value, _, _, _, _, apart => run_wordText value apart
  | .number (.integer i _), _, _, _, _, apart => run_integerText i apart
  | .string value, _, _, _, _, _ => run_quote value
  | .array [], _, _, _, _, _ => rfl
  | .array (item :: items), free, level, acc, rest, apart => by
      have first := run_prettyText item free.1 (level + 1) (.openArray :: acc) _
        (apart_prettyItems (level + 1) items
          (apart_newLine level : Apart (newLine level ++ ']' :: rest)))
      have others := run_prettyItems items free.2 (level + 1)
        ((ofJson item).tokens.reverse ++ .openArray :: acc) (newLine level ++ ']' :: rest)
        (apart_newLine level)
      simp only [prettyText, List.cons_append, List.append_assoc, List.nil_append,
        run_openArray, run_newLine, first, others, run_closeArray, ofJson, ofItems, tokens]
      simp
  | .object [], _, _, _, _, _ => rfl
  | .object (field :: fields), free, level, acc, rest, apart => by
      have first := run_prettyText field.2 free.1 (level + 1)
        (.colon :: .string (.ofString field.1) :: .openObject :: acc) _
        (apart_prettyFields (level + 1) fields
          (apart_newLine level : Apart (newLine level ++ '\x7d' :: rest)))
      have others := run_prettyFields fields free.2 (level + 1)
        ((ofJson field.2).tokens.reverse ++
          .colon :: .string (.ofString field.1) :: .openObject :: acc)
        (newLine level ++ '\x7d' :: rest) (apart_newLine level)
      simp only [prettyText, List.cons_append, List.append_assoc, List.nil_append,
        run_openObject, run_newLine, run_quote, run_colon, run_blank, first, others,
        run_closeObject, ofJson, ofFields, tokens]
      simp

theorem run_prettyItems : (items : List Json) → ItemsRealFree items → ∀ (level : Nat)
    (acc : List Token) (rest : List Char), Apart rest →
    between.run acc (prettyItems level items ++ rest) =
      between.run ((itemTokens (ofItems items)).reverse ++ acc) rest
  | [], _, _, _, _, _ => rfl
  | item :: items, free, level, acc, rest, apart => by
      have first := run_prettyText item free.1 level (.comma :: acc) _
        (apart_prettyItems level items apart)
      have others := run_prettyItems items free.2 level
        ((ofJson item).tokens.reverse ++ .comma :: acc) rest apart
      simp only [prettyItems, List.cons_append, List.append_assoc, run_comma, run_newLine, first,
        others, ofItems, itemTokens]
      simp

theorem run_prettyFields : (fields : List (String × Json)) → FieldsRealFree fields →
    ∀ (level : Nat) (acc : List Token) (rest : List Char), Apart rest →
    between.run acc (prettyFields level fields ++ rest) =
      between.run ((fieldTokens (ofFields fields)).reverse ++ acc) rest
  | [], _, _, _, _, _ => rfl
  | field :: fields, free, level, acc, rest, apart => by
      have first := run_prettyText field.2 free.1 level
        (.colon :: .string (.ofString field.1) :: .comma :: acc) _
        (apart_prettyFields level fields apart)
      have others := run_prettyFields fields free.2 level
        ((ofJson field.2).tokens.reverse ++
          .colon :: .string (.ofString field.1) :: .comma :: acc) rest apart
      simp only [prettyFields, List.cons_append, List.append_assoc, run_comma, run_newLine,
        run_quote, run_colon, run_blank, first, others, ofFields, fieldTokens]
      simp
end

end Scan

/-- The indented text of a value is read as the tree of the value, however deep it nests. -/
theorem Raw.ofText?_pretty {value : Json} (free : value.RealFree) :
    Raw.ofText? value.pretty = some (Raw.ofJson value) := by
  have scanned := Scan.run_prettyText value free 0 [] [] trivial
  have tokens : tokens? (value.prettyText 0) = some (Raw.ofJson value).tokens := by
    rw [tokens?, ← List.append_nil (value.prettyText 0), scanned]
    simp [Scan.run, Scan.finish?]
  rw [Raw.ofText?, pretty, String.toList_ofList, tokens, Option.bind_some, ofTokens?_tokens]

end Statechart.Json
