import CodeAtlas.Text.Letter

/-!
# Quoted text in messages

A message shows a text between quotes, with the characters escaped that a reader could not see.
-/

namespace CodeAtlas.Text

/-- The lower-case hexadecimal digits of `n`, at least `width` of them. -/
def hex (width n : Nat) : Text :=
  let ds := Nat.toDigits 16 n
  List.replicate (width - ds.length) '0' ++ ds

namespace QuotedAux

/-- How one character stands between the quotes `q`. -/
def escape (q c : Char) : Text :=
  if c = '\\' ∨ c = q then ['\\', c]
  else if c = '\n' then ['\\', 'n']
  else if c = '\r' then ['\\', 'r']
  else if c = '\t' then ['\\', 't']
  else if isPrintable c then [c]
  else if c.toNat < 0x100 then '\\' :: 'x' :: hex 2 c.toNat
  else if c.toNat < 0x10000 then '\\' :: 'u' :: hex 4 c.toNat
  else '\\' :: 'U' :: hex 8 c.toNat

end QuotedAux

/-- The text between single quotes; between double quotes when it holds single ones and no double one. -/
def quoted (t : Text) : Text :=
  let q := if t.contains '\'' && !t.contains '"' then '"' else '\''
  q :: t.flatMap (QuotedAux.escape q) ++ [q]

/-- The string between quotes, as a message shows it. -/
def quote (s : String) : String := String.ofList (quoted s.toList)

/-- Strings between quotes in a bracketed list. -/
def quoteList (ss : List String) : String := "[" ++ ", ".intercalate (ss.map quote) ++ "]"

end CodeAtlas.Text
