import FieldExtract.Text.Graphic

/-!
# Quoted text

A text between quotes as it is shown to a programmer: quotes, backslashes and the usual control
characters are escaped by name, and all else that cannot be seen by itself is written by its number.
-/

namespace FieldExtract.Text

def quotedChar (c : Char) : List Char :=
  if c = '"' then ['\\', '"']
  else if c = '\\' then ['\\', '\\']
  else if c = '\x00' then ['\\', '0']
  else if c = '\t' then ['\\', 't']
  else if c = '\n' then ['\\', 'n']
  else if c = '\r' then ['\\', 'r']
  else if isGraphic c then [c]
  else '\\' :: 'u' :: '{' :: (Nat.toDigits 16 c.toNat ++ ['}'])

def quoted (s : String) : String :=
  String.ofList ('"' :: (s.toList.flatMap quotedChar ++ ['"']))

example : quoted "a\"é\u200b" = "\"a\\\"é\\u\x7b200b\x7d\"" := by decide +kernel

end FieldExtract.Text
