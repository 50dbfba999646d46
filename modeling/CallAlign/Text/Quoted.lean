import CallAlign.Text.Printable

/-!
# Quoted text

A text between quotes, as messages show it: single quotes, unless the text holds a single quote and
no double one.  The backslash, the quote itself and line feed, carriage return and tab are written
with a backslash, other unprintable characters by their code point in hexadecimal.
-/

namespace CallAlign.Text

/-- The last digits of a number in lower-case hexadecimal. -/
def hexDigits (width n : Nat) : List Char :=
  (List.range width).reverse.map fun i => Nat.digitChar (n / Nat.pow 16 i % 16)

/-- A character inside the given quotes. -/
def quoteChar (quote c : Char) : List Char :=
  if c = quote || c = '\\' then ['\\', c]
  else if c = '\n' then ['\\', 'n']
  else if c = '\r' then ['\\', 'r']
  else if c = '\t' then ['\\', 't']
  else if isPrintable c then [c]
  else if c.toNat < 0x100 then '\\' :: 'x' :: hexDigits 2 c.toNat
  else if c.toNat < 0x10000 then '\\' :: 'u' :: hexDigits 4 c.toNat
  else '\\' :: 'U' :: hexDigits 8 c.toNat

def quoted (s : String) : String :=
  let quote := if s.toList.contains '\'' && !s.toList.contains '"' then '"' else '\''
  String.ofList (quote :: s.toList.flatMap (quoteChar quote) ++ [quote])

/-- Texts with commas between them. -/
def listed (xs : List String) : String := ", ".intercalate xs

end CallAlign.Text
