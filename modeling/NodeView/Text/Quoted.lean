import NodeView.Text.Printable
/-!
# NodeView.Text.Quoted

Quoted text, the form in which a message shows a value that someone typed.

A text stands between double quotes and a single character between single quotes. The quote
that closes the form and the backslash are written behind a backslash, four controls have a
short name, and every other hidden character (`isPrintable`) is written by its number, so
that what is shown never looks like something it is not.
-/

namespace NodeView.Text

/-- The lower-case hexadecimal digits of a number, without leading zeros. -/
def hexDigits (n : Nat) : String := String.ofList (Nat.toDigits 16 n)

/-- One character of a quoted form that `quote` closes. -/
def quotedChar (quote c : Char) : String :=
  if c = quote || c = '\\' then String.ofList ['\\', c]
  else if c = '\n' then "\\n"
  else if c = '\r' then "\\r"
  else if c = '\t' then "\\t"
  else if c = '\x00' then "\\0"
  else if isPrintable c then c.toString
  else "\\u\x7b" ++ hexDigits c.toNat ++ "\x7d"

/-- A text between double quotes. -/
def quoted (s : String) : String :=
  "\"" ++ String.join (s.toList.map (quotedChar '"')) ++ "\""

/-- A character between single quotes. -/
def quotedSingle (c : Char) : String := "'" ++ quotedChar '\'' c ++ "'"

/-! ### The forms, read off -/

example : quoted "a\"b\\c\n" = "\"a\\\"b\\\\c\\n\"" := by decide +kernel
example : quotedSingle '"' = "'\"'" := by decide +kernel
example : quotedSingle '\x7f' = "'\\u\x7b7f\x7d'" := by decide +kernel

end NodeView.Text
