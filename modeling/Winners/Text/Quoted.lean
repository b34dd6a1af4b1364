import Winners.Text.Invisible

set_option autoImplicit false

/-! # Quoted characters

A character inside a message is shown in single quotes. Six characters have a short escape of
their own; an invisible character is shown by its code point in hexadecimal.
-/

namespace Winners

/-- The text between the quotes. -/
def escapeChar (c : Char) : String :=
  if c = '\x00' then "\\0"
  else if c = '\t' then "\\t"
  else if c = '\r' then "\\r"
  else if c = '\n' then "\\n"
  else if c = '\x27' then "\\'"
  else if c = '\\' then "\\\\"
  else if isInvisible c then
    "\\u\x7b" ++ String.ofList (Nat.toDigits 16 c.toNat) ++ "\x7d"
  else String.singleton c

/-- A character in single quotes. -/
def quoteChar (c : Char) : String := "'" ++ escapeChar c ++ "'"

end Winners
