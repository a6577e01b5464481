/-!
Quoted text with escapes, for inspecting values.

Inside the quotes a backslash, the quote itself, the common control characters and NUL have short
escapes; the other control characters of ASCII are written by number.
-/

namespace SmallLisp.Text

/-- A character inside quotes of the given kind. -/
def escapeChar (quote c : Char) : List Char :=
  if c = quote ∨ c = '\\' then ['\\', c]
  else if c = '\n' then ['\\', 'n']
  else if c = '\r' then ['\\', 'r']
  else if c = '\t' then ['\\', 't']
  else if c.toNat = 0 then ['\\', '0']
  else if c.toNat < 0x20 ∨ c.toNat = 0x7f then
    "\\u\x7b".toList ++ Nat.toDigits 16 c.toNat ++ ['\x7d']
  else [c]

def quoteText (s : String) : List Char :=
  '\"' :: s.toList.flatMap (escapeChar '\"') ++ ['\"']

def quoteChar (c : Char) : List Char :=
  '\'' :: escapeChar '\'' c ++ ['\'']

end SmallLisp.Text
