import TrialBoard.Binary64

/-!
# JSON as a database reads it

A database that looks into stored texts accepts more than JSON: comments, more kinds of white
space, keys without quotes, texts in single quotes, commas before a closing bracket, hexadecimal
numbers, points without digits on one side, infinities, and names for what is not a number. It keeps
every member of an object, and keeps a text as it is written until it is asked for.

`Lenient.parse?` reads a whole text. `decode` gives the characters that a written text stands for.
-/

namespace TrialBoard.Json

/-- A value as a database reads it. -/
inductive Lenient where
  | null
  | bool (value : Bool)
  | integer (value : Int)
  /-- A number with a fraction or exponent; none if it is infinite. -/
  | real (value? : Option Binary64)
  /-- A hexadecimal number of more than 64 bits, which may stand in a text but has no value. -/
  | overlong
  /-- A text, as it is written between its quotes. -/
  | text (written : List Char)
  | array (items : List Lenient)
  | object (members : List (List Char × Lenient))

namespace Lenient

/-- How many containers may be nested. -/
def maxDepth : Nat := 1000

/-! ## White space and comments -/

/-- Whether a character is white space outside of texts. -/
def isSpace (c : Char) : Bool :=
  let n := c.toNat
  (9 ≤ n && n ≤ 13) || n == 0x20 || n == 0xA0 || n == 0x1680 || (0x2000 ≤ n && n ≤ 0x200A)
    || n == 0x2028 || n == 0x2029 || n == 0x202F || n == 0x205F || n == 0x3000 || n == 0xFEFF

/-- What follows the end of a comment between strokes and stars. -/
def afterStar? : List Char → Option (List Char)
  | '*' :: '/' :: rest => some rest
  | _ :: rest => afterStar? rest
  | [] => none

/-- What follows the end of a comment that reaches to the end of its line. -/
def afterLine : List Char → List Char
  | [] => []
  | c :: rest =>
    if c = '\n' ∨ c = '\r' ∨ c = '\u2028' ∨ c = '\u2029' then rest else afterLine rest

/-- Passes over white space and comments. -/
def skipSpace : Nat → List Char → List Char
  | 0, cs => cs
  | _ + 1, [] => []
  | fuel + 1, c :: cs =>
    if isSpace c then skipSpace fuel cs
    else if c = '/' then
      match cs with
      | '*' :: d :: rest =>
        match afterStar? (d :: rest) with
        | some rest => skipSpace fuel rest
        | none => c :: cs
      | '/' :: rest => skipSpace fuel (afterLine rest)
      | _ => c :: cs
    else c :: cs

/-- Passes over all white space and comments. -/
def skip (cs : List Char) : List Char := skipSpace cs.length cs

/-! ## Texts -/

/-- Whether a character is a hexadecimal digit. -/
def isHex (c : Char) : Bool := c.isDigit || ('a' ≤ c && c ≤ 'f') || ('A' ≤ c && c ≤ 'F')

/-- The value of a hexadecimal digit. -/
def hexValue (c : Char) : Nat :=
  if c.isDigit then c.toNat - 48 else if 'a' ≤ c then c.toNat - 87 else c.toNat - 55

/-- The value of hexadecimal digits. -/
def hexNumber (cs : List Char) : Nat := cs.foldl (fun n c => n * 16 + hexValue c) 0

/-- How many characters after a backslash belong to it, if it may stand there. -/
def escapeLength? : List Char → Option Nat
  | 'u' :: a :: b :: c :: d :: _ => if [a, b, c, d].all isHex then some 5 else none
  | 'x' :: a :: b :: _ => if isHex a && isHex b then some 3 else none
  | '\r' :: '\n' :: _ => some 2
  | c :: _ =>
    if "\"\\/bfnrt'v0\n\r\u2028\u2029".toList.contains c then some 1 else none
  | [] => none

/-- What is written up to a closing quote, and what follows it. -/
def textBody (quote : Char) : Nat → List Char → Option (List Char × List Char)
  | 0, _ => none
  | _ + 1, [] => none
  | fuel + 1, c :: cs =>
    if c = quote then some ([], cs)
    else if c = '\\' then do
      let n ← escapeLength? cs
      let (written, rest) ← textBody quote fuel (cs.drop n)
      return ('\\' :: cs.take n ++ written, rest)
    else do
      let (written, rest) ← textBody quote fuel cs
      return (c :: written, rest)

/-- A text after its opening quote. -/
def text? (quote : Char) (cs : List Char) : Option (List Char × List Char) :=
  textBody quote (cs.length + 1) cs

/-- The number that stands for what no escape means. -/
def invalid : Nat := 0x99999

/-- The characters, as numbers, that a written text stands for. -/
def decode : Nat → List Char → List Nat
  | 0, _ => []
  | _ + 1, [] => []
  | fuel + 1, '\\' :: cs =>
    match cs with
    | 'u' :: a :: b :: c :: d :: rest =>
      let high := hexNumber [a, b, c, d]
      match rest with
      | '\\' :: 'u' :: e :: f :: g :: h :: rest' =>
        let low := hexNumber [e, f, g, h]
        if high / 0x400 = 0x36 ∧ low / 0x400 = 0x37 then
          (high % 0x400 * 0x400 + low % 0x400 + 0x10000) :: decode fuel rest'
        else high :: decode fuel rest
      | _ => high :: decode fuel rest
    | 'b' :: rest => 8 :: decode fuel rest
    | 'f' :: rest => 12 :: decode fuel rest
    | 'n' :: rest => 10 :: decode fuel rest
    | 'r' :: rest => 13 :: decode fuel rest
    | 't' :: rest => 9 :: decode fuel rest
    | 'v' :: rest => 11 :: decode fuel rest
    | '0' :: rest =>
      (if rest.head?.any Char.isDigit then invalid else 0) :: decode fuel rest
    | '\'' :: rest => 39 :: decode fuel rest
    | '"' :: rest => 34 :: decode fuel rest
    | '/' :: rest => 47 :: decode fuel rest
    | '\\' :: rest => 92 :: decode fuel rest
    | 'x' :: a :: b :: rest => hexNumber [a, b] :: decode fuel rest
    | '\r' :: '\n' :: rest => decode fuel rest
    | '\r' :: rest => decode fuel rest
    | '\n' :: rest => decode fuel rest
    | '\u2028' :: rest => decode fuel rest
    | '\u2029' :: rest => decode fuel rest
    | _ :: rest => invalid :: decode fuel rest
    | [] => [invalid]
  | fuel + 1, c :: cs => c.toNat :: decode fuel cs

/-- The characters of a written text. -/
def characters (written : List Char) : List Nat := decode written.length written

/-! ## Numbers and names -/

/-- A finite number `digits * 10 ^ exponent`, rounded; none if it is too large. -/
def decimal (negative : Bool) (digits : Nat) (exponent : Int) : Option Binary64 :=
  let places := (toString digits).length
  let magnitude : Option Binary64 :=
    if digits = 0 ∨ exponent + places < -400 then some .zero
    else if 400 < exponent + places then none
    else if 0 ≤ exponent then Binary64.ofUnits (digits * Nat.pow 10 exponent.toNat * Binary64.one) 1
    else Binary64.ofUnits (digits * Binary64.one) (Nat.pow 10 (-exponent).toNat)
  magnitude.map (Binary64.withSign negative)

/-- The value of decimal digits. -/
def decimalNumber (cs : List Char) : Nat := cs.foldl (fun n c => n * 10 + (c.toNat - 48)) 0

/-- An integer, or the real number nearest to it if it does not fit 64 bits. -/
def ofInteger (negative : Bool) (n : Nat) : Lenient :=
  let value : Int := if negative then -n else n
  if -0x8000000000000000 ≤ value ∧ value < 0x8000000000000000 then integer value
  else real (decimal negative n 0)

/-- A hexadecimal number. Its 64 bits are a word in two's complement, and so is what a minus makes of
it. -/
def ofHexadecimal (negative : Bool) (n : Nat) : Lenient :=
  if 0x10000000000000000 ≤ n then overlong
  else
    let word : Int := if n < 0x8000000000000000 then n else n - 0x10000000000000000
    integer (if negative && n != 0x8000000000000000 then -word else word)

/-- The exponent of a number, if there is one, and what follows. -/
def exponent? : List Char → Option (Option Int × List Char)
  | c :: cs =>
    if c = 'e' ∨ c = 'E' then
      let (negative, digits) := match cs with
        | '-' :: rest => (true, rest)
        | '+' :: rest => (false, rest)
        | rest => (false, rest)
      match digits.span Char.isDigit with
      | ([], _) => none
      | (ds, rest) =>
        let n : Int := decimalNumber ds
        some (some (if negative then -n else n), rest)
    else some (none, c :: cs)
  | [] => some (none, [])

/-- A number without its sign. A leading zero stands alone; a point needs a digit on one side. -/
def unsigned? (negative : Bool) (cs : List Char) : Option (Lenient × List Char) :=
  match cs with
  | '0' :: x :: h :: rest =>
    if (x = 'x' ∨ x = 'X') ∧ isHex h then
      let (digits, rest) := (h :: rest).span isHex
      some (ofHexadecimal negative (hexNumber digits), rest)
    else decimal? cs
  | _ => decimal? cs
where
  /-- A number in decimal digits. -/
  decimal? (cs : List Char) : Option (Lenient × List Char) :=
    let (whole, rest) := cs.span Char.isDigit
    let (fraction?, rest) : Option (List Char) × List Char := match rest with
      | '.' :: rest => (some (rest.span Char.isDigit).1, (rest.span Char.isDigit).2)
      | rest => (none, rest)
    let fraction := fraction?.getD []
    if (whole.head? = some '0' ∧ 1 < whole.length) ∨ (whole ++ fraction).isEmpty then none
    else
      match exponent? rest with
      | none => none
      | some (exponent?, rest) =>
        if [some '.', some 'e', some 'E'].contains rest.head? then none
        else if fraction?.isNone && exponent?.isNone then
          some (ofInteger negative (decimalNumber whole), rest)
        else
          some (real (Lenient.decimal negative (decimalNumber (whole ++ fraction))
            (exponent?.getD 0 - fraction.length)), rest)

/-- What follows a word, in any case of its letters. -/
def afterWord? (word : String) (cs : List Char) : Option (List Char) :=
  if (cs.take word.length).map Char.toLower = word.toList then some (cs.drop word.length) else none

/-- What follows a word that is not part of a longer one. -/
def afterWholeWord? (word : String) (cs : List Char) : Option (List Char) := do
  let rest ← afterWord? word cs
  if rest.head?.any Char.isAlphanum then none else some rest

/-- A number after a sign, where the infinities have names. -/
def signed? (negative : Bool) (cs : List Char) : Option (Lenient × List Char) :=
  match afterWord? "inf" cs with
  | some rest => some (real none, (afterWord? "inity" rest).getD rest)
  | none => unsigned? negative cs

/-- A value that is a word. -/
def word? (cs : List Char) : Option (Lenient × List Char) :=
  match cs with
  | 't' :: 'r' :: 'u' :: 'e' :: rest => whole (bool true) rest
  | 'f' :: 'a' :: 'l' :: 's' :: 'e' :: rest => whole (bool false) rest
  | 'n' :: 'u' :: 'l' :: 'l' :: rest => whole null rest
  | cs =>
    ((afterWholeWord? "infinity" cs <|> afterWholeWord? "inf" cs).map (real none, ·))
      <|> (["nan", "qnan", "snan"].findSome? (afterWholeWord? · cs)).map (null, ·)
where
  /-- A word that is not part of a longer one. -/
  whole (value : Lenient) (rest : List Char) : Option (Lenient × List Char) :=
    if rest.head?.any Char.isAlphanum then none else some (value, rest)

/-- A value that is not a container. -/
def scalar? : List Char → Option (Lenient × List Char)
  | '"' :: rest => (text? '"' rest).map fun (written, rest) => (text written, rest)
  | '\'' :: rest => (text? '\'' rest).map fun (written, rest) => (text written, rest)
  | '-' :: rest => signed? true rest
  | '+' :: rest => signed? false rest
  | '.' :: rest => unsigned? false ('.' :: rest)
  | c :: rest => if c.isDigit then unsigned? false (c :: rest) else word? (c :: rest)
  | [] => none

/-! ## Containers -/

/-- Whether a character may begin a key without quotes. -/
def beginsKey (c : Char) : Bool := c.isAlpha || c == '_' || c == '$' || 0x80 ≤ c.toNat

/-- The rest of a key without quotes. -/
def bareKey : Nat → List Char → List Char × List Char
  | 0, cs => ([], cs)
  | _ + 1, [] => ([], [])
  | fuel + 1, c :: cs =>
    if (beginsKey c || c.isDigit) && !isSpace c then
      let (key, rest) := bareKey fuel cs
      (c :: key, rest)
    else if c = '\\' ∧ cs.head? = some 'u' ∧ escapeLength? cs = some 5 then
      let (key, rest) := bareKey fuel (cs.drop 5)
      ('\\' :: cs.take 5 ++ key, rest)
    else ([], c :: cs)

/-- A key. A word that is a value is none. -/
def key? (cs : List Char) : Option (List Char × List Char) :=
  match scalar? cs with
  | some (text written, rest) => some (written, rest)
  | some _ => none
  | none =>
    match bareKey cs.length cs with
    | ([], _) => none
    | (c :: key, rest) =>
      if beginsKey c || c == '\\' then some (c :: key, rest) else none

mutual

/-- A value, with room for so many nested containers. -/
def value? : Nat → Nat → List Char → Option (Lenient × List Char)
  | 0, _, _ => none
  | fuel + 1, room, cs =>
    match skip cs, room with
    | '[' :: rest, room + 1 =>
      (items? fuel room rest).map fun (items, rest) => (array items, rest)
    | '\x7b' :: rest, room + 1 =>
      (members? fuel room rest).map fun (members, rest) => (object members, rest)
    | cs, _ => scalar? cs

/-- The items of an array that are left. -/
def items? : Nat → Nat → List Char → Option (List Lenient × List Char)
  | 0, _, _ => none
  | fuel + 1, room, cs =>
    match skip cs with
    | ']' :: rest => some ([], rest)
    | cs =>
      match value? fuel room cs with
      | none => none
      | some (item, rest) =>
        match skip rest with
        | ']' :: rest => some ([item], rest)
        | ',' :: rest =>
          match items? fuel room rest with
          | some (items, rest) => some (item :: items, rest)
          | none => none
        | _ => none

/-- The members of an object that are left. -/
def members? : Nat → Nat → List Char → Option (List (List Char × Lenient) × List Char)
  | 0, _, _ => none
  | fuel + 1, room, cs =>
    match skip cs with
    | '\x7d' :: rest => some ([], rest)
    | cs =>
      match key? cs with
      | none => none
      | some (key, rest) =>
        match skip rest with
        | ':' :: rest =>
          match value? fuel room rest with
          | none => none
          | some (value, rest) =>
            match skip rest with
            | '\x7d' :: rest => some ([(key, value)], rest)
            | ',' :: rest =>
              match members? fuel room rest with
              | some (members, rest) => some ((key, value) :: members, rest)
              | none => none
            | _ => none
        | _ => none

end

/-- The value of a whole text, which ends at its first NUL. -/
def parse? (s : String) : Option Lenient :=
  match value? (2 * s.length + 2) maxDepth (s.toList.takeWhile (· != '\x00')) with
  | some (value, rest) => if (skip rest).isEmpty then some value else none
  | none => none

end Lenient

end TrialBoard.Json
