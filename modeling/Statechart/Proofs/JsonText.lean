import Statechart.Json.Raw
import Statechart.Proofs.Scanning

/-!
# Reading back the text of a value

The text of a value is scanned into the tokens of a tree, the tokens are read as that tree,
and the tree evaluates to the value. A binary64 number is written with the fewest digits that
name it, which is a matter of rounding, so the values here hold integers only.
-/

namespace Statechart.Json

/-- The numeral that a number is written as. -/
def Number.numeral : Number → Numeral
  | .integer i _ => .ofInteger i
  | .real x => (Numeral.ofText? x.text).getD (.ofInteger 0)

mutual
/-- Every number in the value is an integer. -/
def RealFree : Json → Prop
  | .number (.real _) => False
  | .null | .bool _ | .number (.integer _ _) | .string _ => True
  | .array items => ItemsRealFree items
  | .object fields => FieldsRealFree fields

def ItemsRealFree : List Json → Prop
  | [] => True
  | item :: rest => item.RealFree ∧ ItemsRealFree rest

def FieldsRealFree : List (String × Json) → Prop
  | [] => True
  | field :: rest => field.2.RealFree ∧ FieldsRealFree rest
end

mutual
/-- How deep the arrays and objects of a value nest. -/
def depth : Json → Nat
  | .null | .bool _ | .number _ | .string _ => 0
  | .array items => itemsDepth items + 1
  | .object fields => fieldsDepth fields + 1

def itemsDepth : List Json → Nat
  | [] => 0
  | item :: rest => max item.depth (itemsDepth rest)

def fieldsDepth : List (String × Json) → Nat
  | [] => 0
  | field :: rest => max field.2.depth (fieldsDepth rest)
end

theorem itemsRealFree_iff {items : List Json} :
    ItemsRealFree items ↔ ∀ item ∈ items, item.RealFree := by
  induction items with
  | nil => simp [ItemsRealFree]
  | cons item rest ih => simp [ItemsRealFree, ih]

theorem fieldsRealFree_iff {fields : List (String × Json)} :
    FieldsRealFree fields ↔ ∀ field ∈ fields, field.2.RealFree := by
  induction fields with
  | nil => simp [FieldsRealFree]
  | cons field rest ih => simp [FieldsRealFree, ih]

theorem realFree_map {α : Type} {write : α → Json} {items : List α}
    (each : ∀ item ∈ items, (write item).RealFree) :
    (Json.array (items.map write)).RealFree := by
  refine itemsRealFree_iff.2 fun value member => ?_
  obtain ⟨item, isItem, rfl⟩ := List.mem_map.1 member
  exact each item isItem

theorem realFree_strings (texts : List String) : (strings texts).RealFree :=
  realFree_map fun _ _ => trivial

theorem realFree_text (text : Option String) :
    ∀ value ∈ text.map Json.string, value.RealFree := by
  cases text with
  | none => exact nofun
  | some _ =>
      intro value member
      obtain rfl := Option.some.inj member
      trivial

namespace Raw

mutual
/-- The tokens of a tree. -/
def tokens : Raw → List Token
  | .null => [.null]
  | .bool value => [.bool value]
  | .number value => [.number value]
  | .string value => [.string value]
  | .array [] => [.openArray, .closeArray]
  | .array (item :: rest) => .openArray :: (item.tokens ++ itemTokens rest ++ [.closeArray])
  | .object [] => [.openObject, .closeObject]
  | .object (field :: rest) =>
    .openObject :: .string field.1 :: .colon ::
      (field.2.tokens ++ fieldTokens rest ++ [.closeObject])

/-- The tokens of the items after the first, each with its comma. -/
def itemTokens : List Raw → List Token
  | [] => []
  | item :: rest => .comma :: (item.tokens ++ itemTokens rest)

def fieldTokens : List (Quoted × Raw) → List Token
  | [] => []
  | field :: rest =>
    .comma :: .string field.1 :: .colon :: (field.2.tokens ++ fieldTokens rest)
end

mutual
/-- The tree that the text of a value is read as. -/
def ofJson : Json → Raw
  | .null => .null
  | .bool value => .bool value
  | .number value => .number value.numeral
  | .string value => .string (.ofString value)
  | .array items => .array (ofItems items)
  | .object fields => .object (ofFields fields)

def ofItems : List Json → List Raw
  | [] => []
  | item :: rest => ofJson item :: ofItems rest

def ofFields : List (String × Json) → List (Quoted × Raw)
  | [] => []
  | field :: rest => (.ofString field.1, ofJson field.2) :: ofFields rest
end

end Raw

/-! ## From the text to the tokens -/

namespace Scan

open Raw

variable {acc : List Token} {rest : List Char}

theorem apart_compactItems (items : List Json) (apart : Apart rest) :
    Apart (compactItems items ++ rest) := by
  cases items with
  | nil => exact apart
  | cons _ _ => exact ⟨rfl, rfl⟩

theorem apart_compactFields (fields : List (String × Json)) (apart : Apart rest) :
    Apart (compactFields fields ++ rest) := by
  cases fields with
  | nil => exact apart
  | cons _ _ => exact ⟨rfl, rfl⟩

theorem apart_closeArray (rest : List Char) : Apart (']' :: rest) := ⟨rfl, rfl⟩

theorem apart_closeObject (rest : List Char) : Apart ('\x7d' :: rest) := ⟨rfl, rfl⟩

theorem run_openArray :
    between.run acc ('[' :: rest) = between.run (.openArray :: acc) rest := rfl

theorem run_closeArray :
    between.run acc (']' :: rest) = between.run (.closeArray :: acc) rest := rfl

theorem run_openObject :
    between.run acc ('\x7b' :: rest) = between.run (.openObject :: acc) rest := rfl

theorem run_closeObject :
    between.run acc ('\x7d' :: rest) = between.run (.closeObject :: acc) rest := rfl

theorem run_comma : between.run acc (',' :: rest) = between.run (.comma :: acc) rest := rfl

theorem run_colon : between.run acc (':' :: rest) = between.run (.colon :: acc) rest := rfl

mutual
theorem run_compactText : (value : Json) → value.RealFree → ∀ (acc : List Token)
    (rest : List Char), Apart rest →
    between.run acc (value.compactText ++ rest) =
      between.run ((ofJson value).tokens.reverse ++ acc) rest
  | .null, _, _, _, apart => run_null apart
  | .bool value, _, _, _, apart => run_wordText value apart
  | .number (.integer i _), _, _, _, apart => run_integerText i apart
  | .string value, _, _, _, _ => run_quote value
  | .array [], _, _, _, _ => rfl
  | .array (item :: items), free, acc, rest, apart => by
      have first := run_compactText item free.1 (.openArray :: acc) _
        (apart_compactItems items (apart_closeArray rest))
      have others := run_compactItems items free.2
        ((ofJson item).tokens.reverse ++ .openArray :: acc) _ (apart_closeArray rest)
      simp only [compactText, List.cons_append, List.append_assoc, List.nil_append,
        run_openArray, first, others, run_closeArray, ofJson, ofItems, tokens]
      simp
  | .object [], _, _, _, _ => rfl
  | .object (field :: fields), free, acc, rest, apart => by
      have first := run_compactText field.2 free.1
        (.colon :: .string (.ofString field.1) :: .openObject :: acc) _
        (apart_compactFields fields (apart_closeObject rest))
      have others := run_compactFields fields free.2
        ((ofJson field.2).tokens.reverse ++
          .colon :: .string (.ofString field.1) :: .openObject :: acc) _ (apart_closeObject rest)
      simp only [compactText, List.cons_append, List.append_assoc, List.nil_append,
        run_openObject, run_quote, run_colon, first, others, run_closeObject, ofJson, ofFields,
        tokens]
      simp

theorem run_compactItems : (items : List Json) → ItemsRealFree items → ∀ (acc : List Token)
    (rest : List Char), Apart rest →
    between.run acc (compactItems items ++ rest) =
      between.run ((itemTokens (ofItems items)).reverse ++ acc) rest
  | [], _, _, _, _ => rfl
  | item :: items, free, acc, rest, apart => by
      have first := run_compactText item free.1 (.comma :: acc) _
        (apart_compactItems items apart)
      have others := run_compactItems items free.2
        ((ofJson item).tokens.reverse ++ .comma :: acc) rest apart
      simp only [compactItems, List.cons_append, List.append_assoc, run_comma, first, others,
        ofItems, itemTokens]
      simp

theorem run_compactFields : (fields : List (String × Json)) → FieldsRealFree fields →
    ∀ (acc : List Token) (rest : List Char), Apart rest →
    between.run acc (compactFields fields ++ rest) =
      between.run ((fieldTokens (ofFields fields)).reverse ++ acc) rest
  | [], _, _, _, _ => rfl
  | field :: fields, free, acc, rest, apart => by
      have first := run_compactText field.2 free.1
        (.colon :: .string (.ofString field.1) :: .comma :: acc) _
        (apart_compactFields fields apart)
      have others := run_compactFields fields free.2
        ((ofJson field.2).tokens.reverse ++
          .colon :: .string (.ofString field.1) :: .comma :: acc) rest apart
      simp only [compactFields, List.cons_append, List.append_assoc, run_comma, run_quote,
        run_colon, first, others, ofFields, fieldTokens]
      simp
end

end Scan

/-! ## From the tokens to the tree -/

namespace Raw.Reader

theorem run_cons {reader next : Reader} {token : Token} {rest : List Token}
    (stepped : reader.step token = some next) :
    reader.run (token :: rest) = next.run rest := by
  rw [run, stepped]

/-- An array that was just opened goes on with its first item like any place of a value. -/
theorem run_arrayOpened (raw : Raw) (frames : List Frame) (rest : List Token) :
    (arrayOpened frames).run (raw.tokens ++ rest) =
      (beforeValue (.array [] :: frames)).run (raw.tokens ++ rest) := by
  cases raw with
  | null | bool _ | number _ | string _ => rfl
  | array items => cases items <;> rfl
  | object fields => cases fields <;> rfl

mutual
theorem run_tokens : (raw : Raw) → ∀ (frames : List Frame) (rest : List Token),
    (beforeValue frames).run (raw.tokens ++ rest) = (afterValue raw frames).run rest
  | .null, _, _ | .bool _, _, _ | .number _, _, _ | .string _, _, _ => rfl
  | .array [], _, _ | .object [], _, _ => rfl
  | .array (item :: items), frames, rest => by
      have opened : (beforeValue frames).step .openArray = some (arrayOpened frames) := rfl
      rw [tokens, List.cons_append, run_cons opened, List.append_assoc, List.append_assoc,
        run_arrayOpened, run_tokens item, List.singleton_append, run_itemTokens items]
      rfl
  | .object (field :: fields), frames, rest => by
      have opened : (beforeValue frames).run
          (.openObject :: .string field.1 :: .colon ::
            (field.2.tokens ++ fieldTokens fields ++ [.closeObject]) ++ rest) =
          (beforeValue (.object [] field.1 :: frames)).run
            (field.2.tokens ++ fieldTokens fields ++ [.closeObject] ++ rest) := rfl
      rw [tokens, opened, List.append_assoc, List.append_assoc, run_tokens field.2,
        List.singleton_append, run_fieldTokens fields]
      rfl

theorem run_itemTokens : (items : List Raw) → ∀ (value : Raw) (before : List Raw)
    (frames : List Frame) (rest : List Token),
    (afterValue value (.array before :: frames)).run (itemTokens items ++ .closeArray :: rest) =
      (afterValue (.array (before.reverse ++ value :: items)) frames).run rest
  | [], value, before, frames, rest => by
      have closed : (afterValue value (.array before :: frames)).step .closeArray =
          some (afterValue (.array (value :: before).reverse) frames) := rfl
      rw [itemTokens, List.nil_append, run_cons closed, List.reverse_cons]
  | item :: items, value, before, frames, rest => by
      have next : (afterValue value (.array before :: frames)).step .comma =
          some (beforeValue (.array (value :: before) :: frames)) := rfl
      rw [itemTokens, List.cons_append, run_cons next, List.append_assoc, run_tokens item,
        run_itemTokens items, List.reverse_cons, List.append_assoc, List.singleton_append]

theorem run_fieldTokens : (fields : List (Quoted × Raw)) → ∀ (value : Raw)
    (before : List (Quoted × Raw)) (key : Quoted) (frames : List Frame) (rest : List Token),
    (afterValue value (.object before key :: frames)).run
        (fieldTokens fields ++ .closeObject :: rest) =
      (afterValue (.object (before.reverse ++ (key, value) :: fields)) frames).run rest
  | [], value, before, key, frames, rest => by
      have closed : (afterValue value (.object before key :: frames)).step .closeObject =
          some (afterValue (.object ((key, value) :: before).reverse) frames) := rfl
      rw [fieldTokens, List.nil_append, run_cons closed, List.reverse_cons]
  | field :: fields, value, before, key, frames, rest => by
      have next : (afterValue value (.object before key :: frames)).run
          (.comma :: .string field.1 :: .colon :: (field.2.tokens ++ fieldTokens fields) ++
            .closeObject :: rest) =
          (beforeValue (.object ((key, value) :: before) field.1 :: frames)).run
            ((field.2.tokens ++ fieldTokens fields) ++ .closeObject :: rest) := rfl
      rw [fieldTokens, next, List.append_assoc, run_tokens field.2, run_fieldTokens fields,
        List.reverse_cons, List.append_assoc, List.singleton_append]
end

end Raw.Reader

/-! ## From the tree to the value -/

namespace Raw

theorem ofTokens?_tokens (raw : Raw) : ofTokens? raw.tokens = some raw := by
  have read := Reader.run_tokens raw [] []
  rw [List.append_nil] at read
  rw [ofTokens?, read]
  rfl

/-- The text of a value is read as the tree of the value, however deep it nests. -/
theorem ofText?_compact {value : Json} (free : value.RealFree) :
    ofText? value.compact = some (ofJson value) := by
  have scanned := Scan.run_compactText value free [] [] trivial
  have tokens : tokens? value.compactText = some (ofJson value).tokens := by
    rw [tokens?, ← List.append_nil value.compactText, scanned]
    simp [Scan.run, Scan.finish?]
  rw [ofText?, compact, String.toList_ofList, tokens, Option.bind_some, ofTokens?_tokens]

mutual
theorem eval?_ofJson : (value : Json) → value.RealFree → ∀ {limit : Nat}, value.depth ≤ limit →
    (ofJson value).eval? limit = some value
  | .null, _, _, _ | .bool _, _, _, _ => by rw [ofJson, eval?]
  | .number (.integer i inRange), _, _, _ => by
      rw [ofJson, eval?, Number.numeral, Numeral.number?_ofInteger inRange, Option.map_some]
  | .string value, _, _, _ => by
      rw [ofJson, eval?, Quoted.string?_ofString, Option.map_some]
  | .array items, free, 0, shallow => absurd shallow (by simp [depth])
  | .array items, free, below + 1, shallow => by
      rw [ofJson, eval?, evalItems?_ofItems items free (Nat.le_of_succ_le_succ shallow),
        Option.map_some]
  | .object fields, free, 0, shallow => absurd shallow (by simp [depth])
  | .object fields, free, below + 1, shallow => by
      rw [ofJson, eval?, evalFields?_ofFields fields free (Nat.le_of_succ_le_succ shallow),
        Option.map_some]

theorem evalItems?_ofItems : (items : List Json) → ItemsRealFree items → ∀ {limit : Nat},
    itemsDepth items ≤ limit → evalItems? limit (ofItems items) = some items
  | [], _, _, _ => rfl
  | item :: items, free, limit, shallow => by
      obtain ⟨here, later⟩ := Nat.max_le.1 shallow
      rw [ofItems, evalItems?, eval?_ofJson item free.1 here,
        evalItems?_ofItems items free.2 later]
      rfl

theorem evalFields?_ofFields : (fields : List (String × Json)) → FieldsRealFree fields →
    ∀ {limit : Nat}, fieldsDepth fields ≤ limit →
    evalFields? limit (ofFields fields) = some fields
  | [], _, _, _ => rfl
  | field :: fields, free, limit, shallow => by
      obtain ⟨here, later⟩ := Nat.max_le.1 shallow
      rw [ofFields, evalFields?, Quoted.string?_ofString, eval?_ofJson field.2 free.1 here,
        evalFields?_ofFields fields free.2 later]
      rfl
end

mutual
/-- A tree that nests deeper than is allowed has no value. -/
theorem eval?_of_deep : (value : Json) → value.RealFree → ∀ {limit : Nat}, limit < value.depth →
    (ofJson value).eval? limit = none
  | .null, _, _, deep | .bool _, _, _, deep | .number _, _, _, deep | .string _, _, _, deep =>
      absurd deep (Nat.not_lt_zero _)
  | .array _, _, 0, _ | .object _, _, 0, _ => by rw [ofJson, eval?]
  | .array items, free, below + 1, deep => by
      rw [ofJson, eval?, evalItems?_of_deep items free (Nat.lt_of_succ_lt_succ deep),
        Option.map_none]
  | .object fields, free, below + 1, deep => by
      rw [ofJson, eval?, evalFields?_of_deep fields free (Nat.lt_of_succ_lt_succ deep),
        Option.map_none]

theorem evalItems?_of_deep : (items : List Json) → ItemsRealFree items → ∀ {limit : Nat},
    limit < itemsDepth items → evalItems? limit (ofItems items) = none
  | [], _, _, deep => absurd deep (Nat.not_lt_zero _)
  | item :: items, free, limit, deep => by
      rw [ofItems, evalItems?]
      by_cases here : item.depth ≤ limit
      · have later : limit < itemsDepth items := by
          rw [itemsDepth] at deep
          omega
        rw [eval?_ofJson item free.1 here, evalItems?_of_deep items free.2 later]
        rfl
      · rw [eval?_of_deep item free.1 (Nat.not_le.1 here)]
        rfl

theorem evalFields?_of_deep : (fields : List (String × Json)) → FieldsRealFree fields →
    ∀ {limit : Nat}, limit < fieldsDepth fields → evalFields? limit (ofFields fields) = none
  | [], _, _, deep => absurd deep (Nat.not_lt_zero _)
  | field :: fields, free, limit, deep => by
      rw [ofFields, evalFields?, Quoted.string?_ofString]
      by_cases here : field.2.depth ≤ limit
      · have later : limit < fieldsDepth fields := by
          rw [fieldsDepth] at deep
          omega
        rw [eval?_ofJson field.2 free.1 here, evalFields?_of_deep fields free.2 later]
        rfl
      · rw [eval?_of_deep field.2 free.1 (Nat.not_le.1 here)]
        rfl
end

end Raw

/-- A value of integers that nests no deeper than a text may is read back from its text. -/
theorem ofText?_compact {value : Json} (free : value.RealFree)
    (shallow : value.depth ≤ depthLimit) : ofText? value.compact = some value := by
  rw [ofText?, Raw.ofText?_compact free, Option.bind_some, Raw.eval?_ofJson value free shallow]

/-- The text of a value of integers is read back exactly when it does not nest too deep;
otherwise it is refused. -/
theorem ofText?_compact_iff {value : Json} (free : value.RealFree) :
    ofText? value.compact = some value ↔ value.depth ≤ depthLimit := by
  refine ⟨fun reads => Nat.not_lt.1 fun tooDeep => ?_, ofText?_compact free⟩
  have refused := Raw.eval?_of_deep value free tooDeep
  rw [ofText?, Raw.ofText?_compact free, Option.bind_some, refused] at reads
  cases reads

end Statechart.Json
