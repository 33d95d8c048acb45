import Statechart.Text.Printable

/-!
# Quoted names

A name between double quotes, for descriptions that people read. What could not be
seen is written as an escape.
-/

namespace Statechart.Text

def escapeCode (c : Char) : List Char :=
  ['\\', 'u', '\x7b'] ++ Nat.toDigits 16 c.toNat ++ ['\x7d']

def quoteChar (c : Char) : List Char :=
  match c with
  | '"' => ['\\', '"']
  | '\\' => ['\\', '\\']
  | '\n' => ['\\', 'n']
  | '\r' => ['\\', 'r']
  | '\t' => ['\\', 't']
  | '\x00' => ['\\', '0']
  | c => if isPrintable c then [c] else escapeCode c

def quote (name : String) : String :=
  String.ofList ('"' :: name.toList.flatMap quoteChar ++ ['"'])

def quoteAll (names : List String) : String :=
  "[" ++ String.intercalate ", " (names.map quote) ++ "]"

end Statechart.Text
