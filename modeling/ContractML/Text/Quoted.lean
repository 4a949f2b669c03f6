import ContractML.Text.Extender
import ContractML.Text.Ignorable
import ContractML.Text.Unprintable

/-!
# Quoted characters and strings

The written form of character and string values: the text between quotation marks, with the
characters that would be misread or invisible written as escapes.

A backslash, a carriage return, a line feed, a tab and a zero character have short escapes. The
mark that closes the text is escaped, the other one is not. A character that has no visible form,
that is shown as nothing, or that would combine with its neighbour, is written by its code point in
hexadecimal.

## Main definitions

* `Text.isHidden` — the characters that a reader would not see as they are.
* `Text.escape` — the written form of one character inside a given quotation mark.
* `Text.quoteChar`, `Text.quoteString` — quoted characters and strings.
-/

namespace ContractML.Text

/-- A code point escape: the number in lower-case hexadecimal, without leading zeros. -/
def codeEscape (c : Char) : List Char :=
  "\\u\x7b".toList ++ Nat.toDigits 16 c.toNat ++ "\x7d".toList

/-- A character that a reader would not see as it is. -/
def isHidden (c : Char) : Bool := isExtender c || isIgnorable c || isUnprintable c

/-- The characters that stand for `c` inside a text that `mark` closes. -/
def escape (mark c : Char) : List Char :=
  if c = '\x00' then ['\\', '0']
  else if c = '\t' then ['\\', 't']
  else if c = '\r' then ['\\', 'r']
  else if c = '\n' then ['\\', 'n']
  else if c = '\\' then ['\\', '\\']
  else if c = mark then ['\\', mark]
  else if isHidden c then codeEscape c
  else [c]

/-- A character between single quotation marks. -/
def quoteChar (c : Char) : String :=
  String.ofList ('\'' :: escape '\'' c ++ ['\''])

/-- A string between double quotation marks. -/
def quoteString (s : String) : String :=
  String.ofList ('"' :: s.toList.flatMap (escape '"') ++ ['"'])

example : quoteChar '\'' = "'\\''" := by decide +kernel

example : quoteChar '"' = "'\"'" := by decide +kernel

example : quoteString "a\"\n\u0301" = "\"a\\\"\\n\\u\x7b301\x7d\"" := by decide +kernel

example : quoteString "\u3164" = "\"\\u\x7b3164\x7d\"" := by decide +kernel

example : quoteString "\uff9e" = "\"\uff9e\"" := by decide +kernel

end ContractML.Text
