import EventPipeline.Text.Printable
/-!
# Quoted texts

Messages show a text between quotes, with escapes for the quote, the backslash,
the usual control characters and every character that is not printable. See the
specification, 7.
-/
namespace EventPipeline.Text

/-- The hexadecimal digits of `n`, in lowercase, without a leading zero. -/
def hexDigits (n : Nat) : List Char := Nat.toDigits 16 n

/-- A character as it stands between quotes. -/
def escaped (c : Char) : List Char :=
  if c = '\x00' then ['\\', '0']
  else if c = '\t' then ['\\', 't']
  else if c = '\n' then ['\\', 'n']
  else if c = '\r' then ['\\', 'r']
  else if c = '"' then ['\\', '"']
  else if c = '\\' then ['\\', '\\']
  else if isPrintable c then [c]
  else ['\\', 'u', '\x7b'] ++ hexDigits c.toNat ++ ['\x7d']

/-- The text `s` between quotes. -/
def quoted (s : String) : String :=
  String.ofList ('"' :: s.toList.flatMap escaped ++ ['"'])

end EventPipeline.Text
