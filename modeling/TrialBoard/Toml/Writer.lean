import TrialBoard.Toml.Text

/-!
# Writing TOML

A string is written with as little marking as it admits: between double quotes if nothing in it
needs an escape, else between single quotes, else as a block of either kind, and else with escapes.
A control character other than a tab or a line end always needs one. A block in which there is a
line end starts on a line of its own.
-/

namespace TrialBoard.Toml

/-- The quotes around a string. -/
inductive Quotes where
  | double
  | single
  | doubleBlock
  | singleBlock
deriving DecidableEq

/-- Whether a character can only be written as an escape. -/
def isControl (c : Char) : Bool := !isPlain c && c != '\n'

/-- The length of the longest run of a character in a text, when a run of some length stands right
before it. -/
def longestRun (x : Char) (before : Nat) : List Char → Nat
  | [] => before
  | c :: cs => if c = x then longestRun x (before + 1) cs else max before (longestRun x 0 cs)

/-- The quotes a string is written between. -/
def Quotes.for (cs : List Char) : Quotes :=
  let control := cs.any isControl
  let backslash := cs.contains '\\'
  let newline := cs.contains '\n'
  let doubles := longestRun '"' 0 cs
  let singles := longestRun '\'' 0 cs
  if !control && !backslash && doubles == 0 && !newline then .double
  else if !control && singles == 0 && !newline then .single
  else if !control && !backslash && doubles ≤ 2 then .doubleBlock
  else if !control && singles ≤ 2 then .singleBlock
  else if newline then .doubleBlock
  else .double

/-- A hexadecimal digit, in upper case. -/
def hexDigit (n : Nat) : Char := if n < 10 then Char.ofNat (48 + n) else Char.ofNat (55 + n)

/-- The escape of a control character. -/
def escapeControl (c : Char) : List Char :=
  if c = '\x08' then ['\\', 'b']
  else if c = '\t' then ['\\', 't']
  else if c = '\n' then ['\\', 'n']
  else if c = '\x0c' then ['\\', 'f']
  else if c = '\r' then ['\\', 'r']
  else ['\\', 'u', '0', '0', hexDigit (c.toNat / 16), hexDigit (c.toNat % 16)]

/-- The characters of a string between double quotes, after a run of so many quotes. A block keeps
line ends, and quotes of which there are no more than two together. -/
def escape (block : Bool) (quotes : Nat) : List Char → List Char
  | [] => []
  | c :: cs =>
    if c = '"' then
      if block && quotes < 2 then '"' :: escape block (quotes + 1) cs
      else '\\' :: '"' :: escape block 0 cs
    else if c = '\\' then '\\' :: '\\' :: escape block 0 cs
    else if c = '\n' then if block then '\n' :: escape block 0 cs else '\\' :: 'n' :: escape block 0 cs
    else if c = '\t' || isControl c then escapeControl c ++ escape block 0 cs
    else c :: escape block 0 cs

/-- The line end that starts a block in which there is another one. -/
def blockStart (cs : List Char) : List Char := if cs.contains '\n' then ['\n'] else []

/-- A string between its quotes. -/
def quotedChars (cs : List Char) : List Char :=
  match Quotes.for cs with
  | .double => '"' :: escape false 0 cs ++ ['"']
  | .single => '\'' :: cs ++ ['\'']
  | .doubleBlock => ['"', '"', '"'] ++ blockStart cs ++ escape true 0 cs ++ ['"', '"', '"']
  | .singleBlock => ['\'', '\'', '\''] ++ blockStart cs ++ cs ++ ['\'', '\'', '\'']

/-- A string between its quotes. -/
def quoted (s : String) : String := String.ofList (quotedChars s.toList)

/-! ## Documents -/

/-- A value that fits on the line of its key. -/
inductive Plain where
  | text (value : String)
  | number (value : Nat)

/-- The written form of a value. -/
def Plain.render : Plain → String
  | text value => quoted value
  | number value => toString value

/-- A table with a header. Its names need no quotes. -/
structure Section where
  path : List String
  entries : List (String × Plain)

/-- The lines of a table. -/
def Section.render (s : Section) : String :=
  "[" ++ String.intercalate "." s.path ++ "]\n"
    ++ String.join (s.entries.map fun (name, value) => name ++ " = " ++ value.render ++ "\n")

/-- A document of tables with an empty line between them. -/
def render (sections : List Section) : String :=
  String.intercalate "\n" (sections.map Section.render)

end TrialBoard.Toml
