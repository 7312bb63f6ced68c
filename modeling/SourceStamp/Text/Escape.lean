import SourceStamp.Text.Printable

/-!
# Quoted texts

- `stringLiteral`: a text as a string literal in double quotes that holds ASCII characters only.
- `quoted`: a text as messages show it, in single quotes unless double quotes read better.
-/

namespace SourceStamp.Text

/-- The single quote. -/
def singleQuote : Char := '\x27'

/-- The double quote. -/
def doubleQuote : Char := '\x22'

/-- The backslash, which escapes the character after it. -/
def backslash : Char := '\x5c'

/-- The lower-case hexadecimal digit of a number below sixteen. -/
def hexDigit (n : Nat) : Char := if n < 10 then Char.ofNat (48 + n) else Char.ofNat (87 + n)

/-- The last `width` hexadecimal digits of a number. -/
def hexDigits (width n : Nat) : Text :=
  match width with
  | 0 => []
  | w + 1 => hexDigits w (n / 16) ++ [hexDigit (n % 16)]

/-- A unit of sixteen bits as an escape of four hexadecimal digits. -/
def unitEscape (n : Nat) : Text := backslash :: 'u' :: hexDigits 4 n

/-- A character by its code point: one unit, or two surrogates above the basic plane. -/
def codePointEscape (n : Nat) : Text :=
  if n < 0x10000 then unitEscape n
  else unitEscape (0xD800 + (n - 0x10000) / 0x400) ++ unitEscape (0xDC00 + (n - 0x10000) % 0x400)

/-- How a string literal writes one character. -/
def literalChar (c : Char) : Text :=
  if c = doubleQuote then [backslash, doubleQuote]
  else if c = backslash then [backslash, backslash]
  else if c = '\n' then [backslash, 'n']
  else if c = '\r' then [backslash, 'r']
  else if c = '\t' then [backslash, 't']
  else if c.toNat = 8 then [backslash, 'b']
  else if c.toNat = 12 then [backslash, 'f']
  else if 32 ≤ c.toNat ∧ c.toNat < 127 then [c]
  else codePointEscape c.toNat

/-- A string literal in double quotes: quotes, backslashes and controls are escaped, and so is
every character that is not printable ASCII. -/
def stringLiteral (t : Text) : Text := doubleQuote :: (t.flatMap literalChar ++ [doubleQuote])

/-- How a quoted text shows one character. -/
def quotedChar (quote c : Char) : Text :=
  if c = quote ∨ c = backslash then [backslash, c]
  else if c = '\n' then [backslash, 'n']
  else if c = '\r' then [backslash, 'r']
  else if c = '\t' then [backslash, 't']
  else if isPrintable c then [c]
  else if c.toNat < 0x100 then backslash :: 'x' :: hexDigits 2 c.toNat
  else if c.toNat < 0x10000 then backslash :: 'u' :: hexDigits 4 c.toNat
  else backslash :: 'U' :: hexDigits 8 c.toNat

/-- A text in quotes, as messages show it. Single quotes, unless the text holds single quotes and
no double one. -/
def quoted (t : Text) : Text :=
  let quote := if singleQuote ∈ t ∧ doubleQuote ∉ t then doubleQuote else singleQuote
  quote :: (t.flatMap (quotedChar quote) ++ [quote])

end SourceStamp.Text
