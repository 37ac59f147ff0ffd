/-
  Quoted text for messages: a text between quotes, with every character that
  could not be told apart on the screen written as an escape.

  The quotes are single unless the text holds a single quote and no double
  one.  The quote in use and the backslash are escaped by a backslash; tab,
  line feed and carriage return have letters; any other unprintable character
  is written by its code in the shortest of the three hexadecimal forms.
-/
import IdlFlow.Text.Printable
import IdlFlow.Text.Basic

namespace IdlFlow.Text

/-- `n` in lower-case hexadecimal, with zeros in front up to the given width. -/
def hexadecimal (width n : Nat) : Text := (Nat.toDigits 16 n).leftpad width '0'

/-- One character of a text between the given quotes. -/
def escape (quote c : Char) : Text :=
  if c = quote ∨ c = '\\' then ['\\', c]
  else if c = '\t' then "\\t"
  else if c = '\n' then "\\n"
  else if c = '\r' then "\\r"
  else if isPrintable c then [c]
  else if c.toNat < 0x100 then "\\x" ++ hexadecimal 2 c.toNat
  else if c.toNat < 0x10000 then "\\u" ++ hexadecimal 4 c.toNat
  else "\\U" ++ hexadecimal 8 c.toNat

/-- The quote that needs fewer escapes; of two equally good ones the single. -/
def quoteFor (s : Text) : Char := if '\'' ∈ s ∧ '"' ∉ s then '"' else '\''

/-- The text between quotes. -/
def quoted (s : Text) : Text :=
  let quote := quoteFor s
  quote :: s.flatMap (escape quote) ++ [quote]

end IdlFlow.Text
