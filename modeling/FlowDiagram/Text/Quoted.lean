import FlowDiagram.Text.Printable

namespace FlowDiagram.Text

/-- The number in base sixteen, in lower case, with exactly so many digits (the last ones). -/
def hex (width n : Nat) : List Char :=
  ((List.range width).map fun i => Nat.digitChar (n / Nat.pow 16 i % 16)).reverse

/-- Single quotes, unless the text has a single quote and no double quote. -/
def quoteFor (cs : List Char) : Char :=
  if cs.contains '\'' && !cs.contains '"' then '"' else '\''

def escape (quote c : Char) : List Char :=
  if c = quote ∨ c = '\\' then ['\\', c]
  else if c = '\n' then ['\\', 'n']
  else if c = '\r' then ['\\', 'r']
  else if c = '\t' then ['\\', 't']
  else if isPrintable c then [c]
  else if c.toNat < 0x100 then '\\' :: 'x' :: hex 2 c.toNat
  else if c.toNat < 0x10000 then '\\' :: 'u' :: hex 4 c.toNat
  else '\\' :: 'U' :: hex 8 c.toNat

def quotedChars (cs : List Char) : List Char :=
  let quote := quoteFor cs
  quote :: cs.flatMap (escape quote) ++ [quote]

def quoted (s : String) : String := String.ofList (quotedChars s.toList)

def clip (n : Nat) (s : String) : String := String.ofList (s.toList.take n)

/-- The text, or its beginning and three dots when it is longer than the limit. -/
def abridge (limit : Nat) (s : String) : String :=
  if s.length > limit then clip limit s ++ "..." else s

/-- The text between two single quotes as it stands, as diagnostics name things. -/
def named (s : String) : String := "'" ++ s ++ "'"

example : quoted "it's\t1" = "\"it's\\t1\"" := by decide +kernel

end FlowDiagram.Text
