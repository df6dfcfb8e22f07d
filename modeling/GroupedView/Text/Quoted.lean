import GroupedView.Text.Printable

/-!
# GroupedView.Text.Quoted — text between quotation marks

`quote` writes a text between double quotation marks so that every character of the result is
printable: the mark and the backslash get a backslash, four controls have a letter of their own,
and any other character that is not printable is written by its code point.
-/

namespace GroupedView.Text

def hexCode (c : Char) : List Char := Nat.toDigits 16 c.toNat

def escape (c : Char) : List Char :=
  if c = '\x00' then ['\\', '0']
  else if c = '\t' then ['\\', 't']
  else if c = '\r' then ['\\', 'r']
  else if c = '\n' then ['\\', 'n']
  else if c = '"' then ['\\', '"']
  else if c = '\\' then ['\\', '\\']
  else if isPrintable c then [c]
  else ['\\', 'u', '\x7b'] ++ hexCode c ++ ['\x7d']

def quote (s : String) : String :=
  String.ofList ('"' :: s.toList.flatMap escape ++ ['"'])

end GroupedView.Text
