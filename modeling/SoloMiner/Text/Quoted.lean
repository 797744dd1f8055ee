import SoloMiner.Text.Hexadecimal
import SoloMiner.Text.Unprintable

/-! # Quoted text

    How a text appears in an error message or a debug print: between double quotes, with
    quotes, backslashes and the common controls escaped, and every other unprintable
    character written as its code point in lower-case hexadecimal. -/

namespace SoloMiner.Text

def codePointEscape (c : Char) : List Char :=
  ['\\', 'u', '\x7b'] ++ Hexadecimal.ofNat c.toNat ++ ['\x7d']

/-- A character inside quotes. -/
def quotedChar (c : Char) : List Char :=
  if c = '"' then ['\\', '"']
  else if c = '\\' then ['\\', '\\']
  else if c = '\n' then ['\\', 'n']
  else if c = '\r' then ['\\', 'r']
  else if c = '\t' then ['\\', 't']
  else if c.toNat = 0 then ['\\', '0']
  else if c.toNat < 32 ∨ c.toNat = 127 then codePointEscape c
  else if c.toNat < 128 then [c]
  else if isUnprintable c then codePointEscape c
  else [c]

def quoted (s : String) : String :=
  String.ofList ('"' :: s.toList.flatMap quotedChar ++ ['"'])

end SoloMiner.Text
