import ConfigDoc.Text.Unprintable
import ConfigDoc.Text.Extending

namespace ConfigDoc.Text

def hexadecimal (n : Nat) : List Char := Nat.toDigits 16 n

/-- Quotes, backslashes and the four common controls have short escapes; other characters that
cannot be seen on their own are written by their code point. -/
def quotedChar (c : Char) : List Char :=
  if c = '"' then ['\\', '"']
  else if c = '\\' then ['\\', '\\']
  else if c = '\n' then ['\\', 'n']
  else if c = '\r' then ['\\', 'r']
  else if c = '\t' then ['\\', 't']
  else if c = '\x00' then ['\\', '0']
  else if isExtending c || isUnprintable c then
    ['\\', 'u', '\x7b'] ++ hexadecimal c.toNat ++ ['\x7d']
  else [c]

def quoted (s : String) : String :=
  String.ofList ('"' :: s.toList.flatMap quotedChar ++ ['"'])

def quotedList (names : List String) : String :=
  "[" ++ String.intercalate ", " (names.map quoted) ++ "]"

example : quoted "a\"b\n" = "\"a\\\"b\\n\"" := by decide +kernel

end ConfigDoc.Text
