import Calculator.Text.Hidden

namespace Calculator.Text

-- A character as it is written between two `quote` marks. Which characters are hidden, and so
-- shown by their code points, is a parameter.
def escape (hidden : Char → Bool) (quote c : Char) : List Char :=
  if c = '\x00' then ['\\', '0']
  else if c = '\t' then ['\\', 't']
  else if c = '\n' then ['\\', 'n']
  else if c = '\r' then ['\\', 'r']
  else if c = '\\' ∨ c = quote then ['\\', c]
  else if hidden c then '\\' :: 'u' :: '\x7b' :: (Nat.toDigits 16 c.toNat ++ ['\x7d'])
  else [c]

def quoteChar (hidden : Char → Bool) (c : Char) : String :=
  .ofList ('\x27' :: (escape hidden '\x27' c ++ ['\x27']))

def quote (hidden : Char → Bool) (text : String) : String :=
  .ofList ('"' :: (text.toList.flatMap (escape hidden '"') ++ ['"']))

end Calculator.Text
