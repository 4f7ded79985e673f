import TrialBoard.Json.Reader

/-!
# The words of a TOML document

Blanks, line ends, comments, strings and bare words. A scan takes what is left of a document and
gives what it read with what is left then, or a fault.

A string stands on one line between single quotes of its kind, or is a block between triple quotes.
Between double quotes a backslash starts an escape. A block loses a line end right after its opening
quotes, and a double-quoted one also loses a backslash at the end of a line with all the white space
that follows.
-/

namespace TrialBoard.Toml

/-- Why a document cannot be read, and what was left of it there. -/
structure Fault where
  reason : String
  rest : List Char

/-- What a scan gives. -/
abbrev Scan (α : Type) := Except Fault (α × List Char)

/-- A fault before `rest`. -/
def stuck {α : Type} (reason : String) (rest : List Char) : Except Fault α := .error ⟨reason, rest⟩

/-! ## Lines -/

/-- White space inside a line. -/
def isBlank (c : Char) : Bool := c == ' ' || c == '\t'

/-- The text without its leading blanks. -/
def skipBlank (cs : List Char) : List Char := cs.dropWhile isBlank

/-- Whether a character may stand in a comment or between quotes: a tab, or no control character. -/
def isPlain (c : Char) : Bool := c == '\t' || (0x20 ≤ c.toNat && c.toNat != 0x7F)

/-- What follows the line end that a text starts with. -/
def newline? : List Char → Option (List Char)
  | '\n' :: rest => some rest
  | '\r' :: '\n' :: rest => some rest
  | _ => none

/-- The text without the line end it may start with. -/
def dropNewline (cs : List Char) : List Char := (newline? cs).getD cs

/-- The text without the comment it may start with. -/
def dropComment : List Char → List Char
  | '#' :: rest => rest.dropWhile isPlain
  | cs => cs

/-- Passes over what may end a line: blanks, a comment, and the line end itself. -/
def endLine (cs : List Char) : Except Fault (List Char) :=
  match dropComment (skipBlank cs) with
  | [] => .ok []
  | c :: rest =>
    match newline? (c :: rest) with
    | some rest => .ok rest
    | none => stuck "expected the end of the line" (c :: rest)

/-- The text without leading blanks, line ends and comments. The flag says whether it starts inside
a comment. -/
def skipLines (inComment : Bool) : List Char → List Char
  | [] => []
  | '\r' :: '\n' :: rest => skipLines false rest
  | c :: rest =>
    if c == '\n' then skipLines false rest
    else if inComment then if isPlain c then skipLines true rest else c :: rest
    else if isBlank c then skipLines false rest
    else if c == '#' then skipLines true rest
    else c :: rest

/-! ## Strings -/

/-- The character of a one-letter escape. -/
def escaped? (c : Char) : Option Char :=
  if c = '"' ∨ c = '\\' then some c
  else if c = 'b' then some '\x08'
  else if c = 'f' then some '\x0c'
  else if c = 'n' then some '\n'
  else if c = 'r' then some '\r'
  else if c = 't' then some '\t'
  else none

/-- The character with a number, if there is one. -/
def charOf? (n : Nat) : Option Char := if n.isValidChar then some (Char.ofNat n) else none

/-- The character with a number of four hexadecimal digits. -/
def short? (a b c d : Char) : Option Char := (Json.hexFour? a b c d).bind charOf?

/-- The character with a number of eight hexadecimal digits. -/
def long? (a b c d e f g h : Char) : Option Char := do
  charOf? ((← Json.hexFour? a b c d) * 0x10000 + (← Json.hexFour? e f g h))

/-- The words for a bad escape. -/
def badEscape : String := "invalid escape sequence"

/-- The words for a character that may not stand in a string. -/
def badCharacter : String := "invalid character in a string"

/-- Reads a double-quoted string after its opening quote. `seen` holds its characters so far, last
first. -/
def doubleQuoted (seen : List Char) : List Char → Scan String
  | [] => stuck "unclosed string" []
  | '\\' :: 'u' :: a :: b :: c :: d :: rest =>
    match short? a b c d with
    | some x => doubleQuoted (x :: seen) rest
    | none => stuck badEscape (a :: b :: c :: d :: rest)
  | '\\' :: 'U' :: a :: b :: c :: d :: e :: f :: g :: h :: rest =>
    match long? a b c d e f g h with
    | some x => doubleQuoted (x :: seen) rest
    | none => stuck badEscape (a :: b :: c :: d :: e :: f :: g :: h :: rest)
  | '\\' :: c :: rest =>
    match escaped? c with
    | some x => doubleQuoted (x :: seen) rest
    | none => stuck badEscape (c :: rest)
  | c :: rest =>
    if c = '"' then .ok (String.ofList seen.reverse, rest)
    else if isPlain c && c != '\\' then doubleQuoted (c :: seen) rest
    else stuck badCharacter (c :: rest)

/-- Reads a block between triple double quotes after its opening quotes and the line end there.
Where `folding`, white space is dropped. Up to two quotes may stand right before the closing ones. -/
def doubleQuotedBlock (folding : Bool) (seen : List Char) : List Char → Scan String
  | [] => stuck "unclosed string" []
  | '\\' :: 'u' :: a :: b :: c :: d :: rest =>
    match short? a b c d with
    | some x => doubleQuotedBlock false (x :: seen) rest
    | none => stuck badEscape (a :: b :: c :: d :: rest)
  | '\\' :: 'U' :: a :: b :: c :: d :: e :: f :: g :: h :: rest =>
    match long? a b c d e f g h with
    | some x => doubleQuotedBlock false (x :: seen) rest
    | none => stuck badEscape (a :: b :: c :: d :: e :: f :: g :: h :: rest)
  | '\\' :: c :: rest =>
    match escaped? c with
    | some x => doubleQuotedBlock false (x :: seen) rest
    | none =>
      if (newline? (skipBlank (c :: rest))).isSome then doubleQuotedBlock true seen (c :: rest)
      else stuck badEscape (c :: rest)
  | '\r' :: '\n' :: rest =>
    doubleQuotedBlock folding (if folding then seen else '\n' :: seen) rest
  | c :: rest =>
    if folding && (isBlank c || c == '\n') then doubleQuotedBlock true seen rest
    else if c = '"' then
      match rest with
      | '"' :: '"' :: '"' :: '"' :: rest => .ok (String.ofList ('"' :: '"' :: seen).reverse, rest)
      | '"' :: '"' :: '"' :: rest => .ok (String.ofList ('"' :: seen).reverse, rest)
      | '"' :: '"' :: rest => .ok (String.ofList seen.reverse, rest)
      | rest => doubleQuotedBlock false (c :: seen) rest
    else if c == '\n' || (isPlain c && c != '\\') then doubleQuotedBlock false (c :: seen) rest
    else stuck badCharacter (c :: rest)

/-- Reads a single-quoted string after its opening quote. -/
def singleQuoted (seen : List Char) : List Char → Scan String
  | [] => stuck "unclosed string" []
  | c :: rest =>
    if c = '\'' then .ok (String.ofList seen.reverse, rest)
    else if isPlain c then singleQuoted (c :: seen) rest
    else stuck badCharacter (c :: rest)

/-- Reads a block between triple single quotes after its opening quotes and the line end there. -/
def singleQuotedBlock (seen : List Char) : List Char → Scan String
  | [] => stuck "unclosed string" []
  | '\r' :: '\n' :: rest => singleQuotedBlock ('\n' :: seen) rest
  | c :: rest =>
    if c = '\'' then
      match rest with
      | '\'' :: '\'' :: '\'' :: '\'' :: rest =>
        .ok (String.ofList ('\'' :: '\'' :: seen).reverse, rest)
      | '\'' :: '\'' :: '\'' :: rest => .ok (String.ofList ('\'' :: seen).reverse, rest)
      | '\'' :: '\'' :: rest => .ok (String.ofList seen.reverse, rest)
      | rest => singleQuotedBlock (c :: seen) rest
    else if c == '\n' || isPlain c then singleQuotedBlock (c :: seen) rest
    else stuck badCharacter (c :: rest)

/-- Reads a string of any kind. -/
def string (cs : List Char) : Scan String :=
  match cs with
  | '"' :: '"' :: '"' :: rest => doubleQuotedBlock false [] (dropNewline rest)
  | '"' :: rest => doubleQuoted [] rest
  | '\'' :: '\'' :: '\'' :: rest => singleQuotedBlock [] (dropNewline rest)
  | '\'' :: rest => singleQuoted [] rest
  | cs => stuck "expected a string" cs

/-! ## Keys -/

/-- Whether a character may stand in a key without quotes. -/
def isBare (c : Char) : Bool := c.isAlphanum || c == '_' || c == '-'

/-- Reads one part of a key. -/
def keyPart (cs : List Char) : Scan String :=
  match cs with
  | '"' :: rest => doubleQuoted [] rest
  | '\'' :: rest => singleQuoted [] rest
  | cs =>
    if (cs.takeWhile isBare).isEmpty then stuck "expected a key" cs
    else .ok (String.ofList (cs.takeWhile isBare), cs.dropWhile isBare)

/-- Reads the parts of a key with points between them, at most `limit` of them. -/
def keyParts : Nat → List Char → Except Fault (List String × List Char)
  | 0, cs => stuck "too many parts of a key" cs
  | limit + 1, cs => do
    let (part, cs) ← keyPart (skipBlank cs)
    match skipBlank cs with
    | '.' :: cs =>
      let (parts, cs) ← keyParts limit cs
      return (part :: parts, cs)
    | cs => return ([part], cs)

end TrialBoard.Toml
