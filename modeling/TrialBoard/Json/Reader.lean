import TrialBoard.Json.Fault

/-!
# Reading JSON text

A reader takes what is left of a text and gives a value with what is left then, or a fault. The
functions here read the parts every JSON text is made of: literals, strings, numbers, and the
punctuation of arrays and objects. Containers may be nested as deep as a reader has `room` for.

A number keeps as many of its digits as fit 64 bits; the digits, as a binary64 number, are then
multiplied or divided by a power of ten. Each of these two steps is rounded, so a long literal need
not come out as the number nearest to it.
-/

namespace TrialBoard

/-- The number nearest to `10 ^ n`, for `n` up to 308. -/
def Binary64.powerOfTen (n : Nat) : Binary64 := (powerOfTen? n).getD zero

/-- Divides by `10 ^ n`, in at most `steps` strides of `10 ^ 308` before the last one. -/
def Binary64.scaleDown : Nat → Binary64 → Nat → Binary64
  | 0, x, n => (x.div? (powerOfTen n)).getD zero
  | steps + 1, x, n =>
    if x.isZero then x else scaleDown steps ((x.div? (powerOfTen 308)).getD zero) (n - 308)

/-- The number `significand * 10 ^ exponent`: the significand rounded, then scaled and rounded
again. None where it is too large. -/
def Binary64.ofScientific? (significand : Nat) (exponent : Int) : Option Binary64 :=
  let x := ofNat significand
  if exponent < 0 then
    let n := exponent.natAbs
    some (scaleDown ((n - 1) / 308) x n)
  else if exponent ≤ 308 then x.mul? (powerOfTen exponent.toNat)
  else if x.isZero then some x
  else none

namespace Json

/-- What a reader gives: a value and the rest of the text, or a fault. -/
inductive Reading (α : Type) where
  | ok (value : α) (rest : List Char)
  | fault (fault : Fault)

namespace Reading

variable {α β : Type}

/-- Reads on after a value. -/
def andThen (r : Reading α) (next : α → List Char → Reading β) : Reading β :=
  match r with
  | ok value rest => next value rest
  | fault f => fault f

/-- Changes the value read. -/
def map (f : α → β) (r : Reading α) : Reading β := r.andThen fun value rest => ok (f value) rest

@[simp] theorem andThen_ok (value : α) (rest : List Char) (next : α → List Char → Reading β) :
    (ok value rest).andThen next = next value rest := rfl

@[simp] theorem andThen_fault (f : Fault) (next : α → List Char → Reading β) :
    (fault f : Reading α).andThen next = fault f := rfl

@[simp] theorem map_ok (f : α → β) (value : α) (rest : List Char) :
    (ok value rest).map f = ok (f value) rest := rfl

@[simp] theorem map_fault (f : α → β) (e : Fault) : (fault e : Reading α).map f = fault e := rfl

end Reading

/-- A fault right before `rest`. -/
def faultAt {α : Type} (cause : Cause) (rest : List Char) : Reading α :=
  .fault (.placed cause (.before rest))

/-- A fault at the first character of `rest`, one byte into it. -/
def faultIn {α : Type} (cause : Cause) (rest : List Char) : Reading α :=
  .fault (.placed cause (.oneByteInto rest))

/-- A fault in the value read before `rest`. -/
def faultBefore {α : Type} (cause : Cause) (rest : List Char) : Reading α :=
  .fault (.unplaced cause rest)

/-- The white space of JSON. -/
def isBlank (c : Char) : Bool := c == ' ' || c == '\n' || c == '\t' || c == '\r'

/-- The text without its leading white space. -/
def skipBlank (cs : List Char) : List Char := cs.dropWhile isBlank

/-- Reads the rest of a literal whose first letter has been seen. -/
def word : List Char → List Char → Reading Unit
  | [], cs => .ok () cs
  | _ :: _, [] => faultAt .endInValue []
  | e :: es, c :: cs => if c = e then word es cs else faultIn .expectedIdent (c :: cs)

/-! ## Strings -/

/-- The value of a hexadecimal digit. -/
def hexValue? (c : Char) : Option Nat :=
  if c.isDigit then some (c.toNat - '0'.toNat)
  else if 'a' ≤ c ∧ c ≤ 'f' then some (c.toNat - 'a'.toNat + 10)
  else if 'A' ≤ c ∧ c ≤ 'F' then some (c.toNat - 'A'.toNat + 10)
  else none

/-- The number of four hexadecimal digits. -/
def hexFour? (a b c d : Char) : Option Nat := do
  return (((← hexValue? a) * 16 + (← hexValue? b)) * 16 + (← hexValue? c)) * 16 + (← hexValue? d)

/-- The place `n` bytes into a text, if it is that long. -/
def placeAfterBytes? : Nat → List Char → Option Text.Place
  | 0, cs => some (.before cs)
  | _ + 1, [] => none
  | n + 1, c :: cs =>
    if c.utf8Size ≤ n + 1 then placeAfterBytes? (n + 1 - c.utf8Size) cs else some ⟨c :: cs, n + 1⟩
termination_by _ cs => cs.length

/-- The fault of an escape that is not four hexadecimal digits: past four bytes, or at the end. -/
def hexFault {α : Type} (cs : List Char) : Reading α :=
  match placeAfterBytes? 4 cs with
  | some place => .fault (.placed .invalidEscape place)
  | none => faultAt .endInString []

/-- Reads four hexadecimal digits. -/
def hexEscape : List Char → Reading Nat
  | a :: b :: c :: d :: rest =>
    match hexFour? a b c d with
    | some n => .ok n rest
    | none => hexFault (a :: b :: c :: d :: rest)
  | cs => hexFault cs

/-- The character of a one-letter escape. -/
def simpleEscape? (c : Char) : Option Char :=
  if c = '"' ∨ c = '\\' ∨ c = '/' then some c
  else if c = 'b' then some '\x08'
  else if c = 'f' then some '\x0c'
  else if c = 'n' then some '\n'
  else if c = 'r' then some '\r'
  else if c = 't' then some '\t'
  else none

/-- Whether a code unit is the second half of a pair. -/
def isTrailing (n : Nat) : Bool := 0xDC00 ≤ n && n ≤ 0xDFFF

/-- Whether a code unit is the first half of a pair. -/
def isLeading (n : Nat) : Bool := 0xD800 ≤ n && n ≤ 0xDBFF

/-- The character of a pair of code units. -/
def pairChar (high low : Nat) : Char :=
  Char.ofNat ((high - 0xD800) * 0x400 + (low - 0xDC00) + 0x10000)

/-- Reads a string up to its closing quote. `seen` holds the characters so far, last first. -/
def stringBody (seen : List Char) : List Char → Reading String
  | [] => faultAt .endInString []
  | '\\' :: 'u' :: a :: b :: c :: d :: rest =>
    match hexFour? a b c d with
    | none => hexFault (a :: b :: c :: d :: rest)
    | some n =>
      if isTrailing n then faultAt .loneSurrogate rest
      else if isLeading n then
        match rest with
        | '\\' :: 'u' :: e :: f :: g :: h :: rest' =>
          match hexFour? e f g h with
          | none => hexFault (e :: f :: g :: h :: rest')
          | some m =>
            if isTrailing m then stringBody (pairChar n m :: seen) rest'
            else faultAt .loneSurrogate rest'
        | '\\' :: 'u' :: rest' => hexFault rest'
        | ['\\'] => faultAt .endInString []
        | '\\' :: rest' => faultIn .unexpectedEndOfHexEscape rest'
        | [] => faultAt .endInString []
        | rest' => faultIn .unexpectedEndOfHexEscape rest'
      else stringBody (Char.ofNat n :: seen) rest
  | '\\' :: 'u' :: rest => hexFault rest
  | ['\\'] => faultAt .endInString []
  | '\\' :: c :: rest =>
    match simpleEscape? c with
    | some e => stringBody (e :: seen) rest
    | none => faultIn .invalidEscape (c :: rest)
  | c :: rest =>
    if c = '"' then .ok (String.ofList seen.reverse) rest
    else if c.toNat < 0x20 then faultIn .controlCharacter (c :: rest)
    else stringBody (c :: seen) rest

/-- Passes over a string up to its closing quote, without looking at what its escapes mean. -/
def skipString : List Char → Reading Unit
  | [] => faultAt .endInString []
  | '\\' :: 'u' :: a :: b :: c :: d :: rest =>
    match hexFour? a b c d with
    | some _ => skipString rest
    | none => hexFault (a :: b :: c :: d :: rest)
  | '\\' :: 'u' :: rest => hexFault rest
  | ['\\'] => faultAt .endInString []
  | '\\' :: c :: rest =>
    if (simpleEscape? c).isSome then skipString rest else faultIn .invalidEscape (c :: rest)
  | c :: rest =>
    if c = '"' then .ok () rest
    else if c.toNat < 0x20 then faultAt .controlCharacter (c :: rest)
    else skipString rest

/-! ## Numbers -/

/-- The value of a decimal digit. -/
def digitValue (c : Char) : Nat := c.toNat - '0'.toNat

/-- Takes digits into a significand while it fits 64 bits. Gives it, the number of digits taken and
the rest. -/
def takeDigits (significand taken : Nat) : List Char → Nat × Nat × List Char
  | [] => (significand, taken, [])
  | c :: cs =>
    if c.isDigit ∧ significand * 10 + digitValue c < 0x10000000000000000 then
      takeDigits (significand * 10 + digitValue c) (taken + 1) cs
    else (significand, taken, c :: cs)

/-- The digits a text starts with. -/
def leadingDigits (cs : List Char) : List Char := cs.takeWhile Char.isDigit

/-- The text after the digits it starts with. -/
def dropDigits (cs : List Char) : List Char := cs.dropWhile Char.isDigit

/-- The number of a significand and a power of ten. -/
def scientific (negative : Bool) (significand : Nat) (exponent : Int) (rest : List Char) :
    Reading JsonNumber :=
  match Binary64.ofScientific? significand exponent with
  | some x => .ok (.real (x.withSign negative)) rest
  | none => faultAt .numberOutOfRange rest

/-- Takes the digits of an exponent below `2 ^ 31`. -/
def takeExponent (exponent : Nat) : List Char → Except (List Char) (Nat × List Char)
  | [] => .ok (exponent, [])
  | c :: cs =>
    if c.isDigit then
      if exponent * 10 + digitValue c < 0x80000000 then takeExponent (exponent * 10 + digitValue c) cs
      else .error cs
    else .ok (exponent, c :: cs)

/-- Reads an exponent after its letter. -/
def exponentPart (negative : Bool) (significand : Nat) (start : Int) (cs : List Char) :
    Reading JsonNumber :=
  let (down, digits) := match cs with
    | '+' :: rest => (false, rest)
    | '-' :: rest => (true, rest)
    | rest => (false, rest)
  match digits with
  | [] => faultAt .endInValue []
  | c :: rest =>
    if c.isDigit then
      match takeExponent (digitValue c) rest with
      | .ok (e, rest') =>
        scientific negative significand (if down then start - e else start + e) rest'
      | .error rest' =>
        if significand ≠ 0 ∧ !down then faultAt .numberOutOfRange rest'
        else .ok (.real (Binary64.zero.withSign negative)) (dropDigits rest')
    else faultIn .invalidNumber (c :: rest)

/-- Reads an exponent if one follows. -/
def optionalExponent (negative : Bool) (significand : Nat) (exponent : Int) :
    List Char → Reading JsonNumber
  | 'e' :: rest => exponentPart negative significand exponent rest
  | 'E' :: rest => exponentPart negative significand exponent rest
  | rest => scientific negative significand exponent rest

/-- Reads a fraction after its point. Digits that no longer fit the significand are dropped. -/
def fractionPart (negative : Bool) (significand : Nat) (start : Int) (cs : List Char) :
    Reading JsonNumber :=
  if leadingDigits cs = [] then
    match cs with
    | [] => faultAt .endInValue []
    | c :: rest => faultIn .invalidNumber (c :: rest)
  else
    let (significand', taken, rest) := takeDigits significand 0 cs
    optionalExponent negative significand' (start - taken) (dropDigits rest)

/-- An integer with its sign; a negative one that needs more than 64 bits, and `-0`, are reals. -/
def signedInteger (negative : Bool) (significand : Nat) : JsonNumber :=
  if negative then
    if h : FitsWord (-(significand : Int)) then
      if significand = 0 then .real (Binary64.zero.withSign true)
      else .integer (-(significand : Int)) h
    else .real ((Binary64.ofNat significand).withSign true)
  else .ofNat significand

/-- Reads what follows the whole digits, of which `dropped` did not fit the significand. -/
def afterWhole (negative : Bool) (significand dropped : Nat) : List Char → Reading JsonNumber
  | '.' :: rest => fractionPart negative significand dropped rest
  | 'e' :: rest => exponentPart negative significand dropped rest
  | 'E' :: rest => exponentPart negative significand dropped rest
  | rest =>
    if dropped = 0 then .ok (signedInteger negative significand) rest
    else scientific negative significand dropped rest

/-- Reads a number after its sign. -/
def unsignedNumber (negative : Bool) : List Char → Reading JsonNumber
  | [] => faultAt .endInValue []
  | c :: rest =>
    if c = '0' then
      if leadingDigits rest = [] then afterWhole negative 0 0 rest else faultIn .invalidNumber rest
    else if c.isDigit then
      let (significand, _, rest') := takeDigits (digitValue c) 0 rest
      afterWhole negative significand (leadingDigits rest').length (dropDigits rest')
    else faultIn .invalidNumber (c :: rest)

/-- Passes over the digits of an exponent after its letter. -/
def skipExponent (cs : List Char) : Reading Unit :=
  let digits := match cs with
    | '+' :: rest => rest
    | '-' :: rest => rest
    | rest => rest
  if leadingDigits digits = [] then faultIn .invalidNumber digits else .ok () (dropDigits digits)

/-- Passes over a number after its sign, however large. -/
def skipNumber (cs : List Char) : Reading Unit :=
  let afterFraction : List Char → Reading Unit
    | 'e' :: rest => skipExponent rest
    | 'E' :: rest => skipExponent rest
    | rest => .ok () rest
  let afterWhole : List Char → Reading Unit
    | '.' :: rest =>
      if leadingDigits rest = [] then faultIn .invalidNumber rest
      else afterFraction (dropDigits rest)
    | rest => afterFraction rest
  match cs with
  | [] => faultAt .invalidNumber []
  | '0' :: rest =>
    if leadingDigits rest = [] then afterWhole rest else faultIn .invalidNumber rest
  | c :: rest => if c.isDigit then afterWhole (dropDigits rest) else faultIn .invalidNumber (c :: rest)

/-! ## Punctuation -/

/-- Whether another item of an array follows, and the text at it or at the closing bracket. -/
def nextItem (first : Bool) (cs : List Char) : Reading Bool :=
  match skipBlank cs with
  | [] => faultAt .endInList []
  | ']' :: rest => .ok false (']' :: rest)
  | c :: rest =>
    if first then .ok true (c :: rest)
    else if c = ',' then
      match skipBlank rest with
      | [] => faultAt .endInValue []
      | ']' :: rest' => faultIn .trailingComma (']' :: rest')
      | rest' => .ok true rest'
    else faultIn .expectedListCommaOrEnd (c :: rest)

/-- The key of the next member of an object, if one follows, and the text after it or at the
closing brace. -/
def nextKey (first : Bool) (cs : List Char) : Reading (Option String) :=
  match skipBlank cs with
  | [] => faultAt .endInObject []
  | c :: rest =>
    if c = '\x7d' then .ok none (c :: rest)
    else if first then
      if c = '"' then (stringBody [] rest).map some
      else faultIn .keyMustBeString (c :: rest)
    else if c = ',' then
      match skipBlank rest with
      | [] => faultAt .endInValue []
      | d :: rest' =>
        if d = '"' then (stringBody [] rest').map some
        else if d = '\x7d' then faultIn .trailingComma (d :: rest')
        else faultIn .keyMustBeString (d :: rest')
    else faultIn .expectedObjectCommaOrEnd (c :: rest)

/-- Reads the colon after a key. -/
def colon (cs : List Char) : Reading Unit :=
  match skipBlank cs with
  | [] => faultAt .endInObject []
  | c :: rest => if c = ':' then .ok () rest else faultIn .expectedColon (c :: rest)

/-- Reads the closing bracket of an array. -/
def closeList (cs : List Char) : Reading Unit :=
  match skipBlank cs with
  | [] => faultAt .endInList []
  | c :: rest =>
    if c = ']' then .ok () rest
    else if c = ',' then
      match skipBlank rest with
      | ']' :: rest' => faultIn .trailingComma (']' :: rest')
      | rest' => faultIn .trailingCharacters rest'
    else faultIn .trailingCharacters (c :: rest)

/-- Where a reader stands that has tried to read the closing bracket of an array. -/
def pastList (cs : List Char) : List Char :=
  match skipBlank cs with
  | ']' :: rest => rest
  | ',' :: rest => skipBlank rest
  | rest => rest

/-- Reads the closing brace of an object. -/
def closeObject (cs : List Char) : Reading Unit :=
  match skipBlank cs with
  | [] => faultAt .endInObject []
  | c :: rest =>
    if c = '\x7d' then .ok () rest
    else if c = ',' then faultIn .trailingComma (c :: rest)
    else faultIn .trailingCharacters (c :: rest)

/-- Where a reader stands that has tried to read the closing brace of an object. -/
def pastObject (cs : List Char) : List Char :=
  match skipBlank cs with
  | c :: rest => if c = '\x7d' then rest else c :: rest
  | [] => []

/-- Places an unplaced fault where the reader stands after `past`. -/
def Fault.place (past : List Char → List Char) : Fault → Fault
  | .placed cause place => .placed cause place
  | .unplaced cause rest => .placed cause (.before (past rest))

/-- Closes a container after its contents, whose own faults lie where closing it leaves off. -/
def enclosed {α : Type} (close : List Char → Reading Unit) (past : List Char → List Char)
    (contents : Reading α) : Reading α :=
  match contents with
  | .ok value rest => (close rest).map fun _ => value
  | .fault f => .fault (f.place past)

/-- Reads an array with `contents`, which starts after the opening bracket `cs` starts with and
ends before the closing one. -/
def inList {α : Type} (room : Nat) (cs : List Char) (contents : Nat → List Char → Reading α) :
    Reading α :=
  match room with
  | 0 => faultIn .recursionLimit cs
  | room + 1 => enclosed closeList pastList (contents room cs.tail)

/-- Reads an object with `contents`, which starts after the opening brace `cs` starts with and ends
before the closing one. -/
def inObject {α : Type} (room : Nat) (cs : List Char) (contents : Nat → List Char → Reading α) :
    Reading α :=
  match room with
  | 0 => faultIn .recursionLimit cs
  | room + 1 => enclosed closeObject pastObject (contents room cs.tail)

/-! ## Values -/

/-- Reads a value that is not a container. -/
def scalar : List Char → Reading Json
  | [] => faultAt .endInValue []
  | c :: rest =>
    if c = 'n' then (word ['u', 'l', 'l'] rest).map fun _ => .null
    else if c = 't' then (word ['r', 'u', 'e'] rest).map fun _ => .bool true
    else if c = 'f' then (word ['a', 'l', 's', 'e'] rest).map fun _ => .bool false
    else if c = '-' then (unsignedNumber true rest).map .number
    else if c.isDigit then (unsignedNumber false (c :: rest)).map .number
    else if c = '"' then (stringBody [] rest).map .string
    else faultIn .expectedValue (c :: rest)

/-- Reads the items of an array, each with `item`. -/
def items {α : Type} (item : List Char → Reading α) : Nat → Bool → List Char → Reading (List α)
  | 0, _, cs => faultAt .endInList cs
  | fuel + 1, first, cs =>
    (nextItem first cs).andThen fun more rest =>
      if more then
        (item rest).andThen fun value rest =>
          (items item fuel false rest).map (value :: ·)
      else .ok [] rest

/-- Reads the members of an object, each value with `item`. -/
def members {α : Type} (item : List Char → Reading α) :
    Nat → Bool → List Char → Reading (List (String × α))
  | 0, _, cs => faultAt .endInObject cs
  | fuel + 1, first, cs =>
    (nextKey first cs).andThen fun key rest =>
      match key with
      | none => .ok [] rest
      | some key =>
        (colon rest).andThen fun _ rest =>
          (item rest).andThen fun value rest =>
            (members item fuel false rest).map ((key, value) :: ·)

/-- Reads a value as it is written: members in their order, repeated keys kept. -/
def raw : Nat → List Char → Reading Json
  | room, cs =>
    match skipBlank cs with
    | '[' :: rest =>
      match room with
      | 0 => faultIn .recursionLimit ('[' :: rest)
      | room + 1 =>
        (enclosed closeList pastList (items (raw room) (rest.length + 1) true rest)).map .array
    | '\x7b' :: rest =>
      match room with
      | 0 => faultIn .recursionLimit ('\x7b' :: rest)
      | room + 1 =>
        (enclosed closeObject pastObject (members (raw room) (rest.length + 1) true rest)).map
          .object
    | cs' => scalar cs'

/-- Where a reader stands that passes over a value. -/
inductive Skipping where
  /-- Before a value. -/
  | value
  /-- After an opening bracket or brace. -/
  | opened
  /-- After a value. -/
  | after

/-- Passes over the key of a member and its colon. -/
def skipKey (cs : List Char) : Reading Unit :=
  match skipBlank cs with
  | [] => faultAt .endInObject []
  | c :: rest =>
    if c = '"' then (skipString rest).andThen fun _ rest => colon rest
    else faultIn .keyMustBeString (c :: rest)

/-- Passes over a value that is not a container. -/
def skipScalar : List Char → Reading Unit
  | [] => faultAt .endInValue []
  | c :: rest =>
    if c = 'n' then word ['u', 'l', 'l'] rest
    else if c = 't' then word ['r', 'u', 'e'] rest
    else if c = 'f' then word ['a', 'l', 's', 'e'] rest
    else if c = '-' then skipNumber rest
    else if c.isDigit then skipNumber (c :: rest)
    else if c = '"' then skipString rest
    else faultIn .expectedValue (c :: rest)

/-- Passes over what is left of a value. The containers it is inside of are listed innermost first,
with `true` for an object. Numbers may be of any size and nesting of any depth. -/
def skipping : Nat → Skipping → List Bool → List Char → Reading Unit
  | 0, _, _, cs => faultAt .endInValue cs
  | fuel + 1, .value, inside, cs =>
    match skipBlank cs with
    | '[' :: rest => skipping fuel .opened (false :: inside) rest
    | '\x7b' :: rest => skipping fuel .opened (true :: inside) rest
    | cs' => (skipScalar cs').andThen fun _ rest => skipping fuel .after inside rest
  | _ + 1, _, [], cs => .ok () cs
  | fuel + 1, stage, isObject :: inside, cs =>
    match skipBlank cs with
    | [] => faultAt (if isObject then .endInObject else .endInList) []
    | c :: rest =>
      let onwards (rest : List Char) : Reading Unit :=
        (if isObject then skipKey rest else .ok () rest).andThen fun _ rest =>
          skipping fuel .value (isObject :: inside) rest
      if c = (if isObject then '\x7d' else ']') then skipping fuel .after inside rest
      else match stage with
        | .opened => onwards (c :: rest)
        | _ =>
          if c = ',' then onwards rest
          else faultIn (if isObject then .expectedObjectCommaOrEnd else .expectedListCommaOrEnd)
            (c :: rest)

/-- Passes over a value that nobody asked for. -/
def ignored (cs : List Char) : Reading Unit := skipping (2 * cs.length + 2) .value [] cs

/-- How many containers may be nested. -/
def maxDepth : Nat := 127

/-- Reads a whole text with a reader. -/
def readAll {α : Type} (read : Nat → List Char → Reading α) (room : Nat) (text : String) :
    Except Error α :=
  let cs := text.toList
  match read room cs with
  | .fault f => .error (f.toError cs)
  | .ok value rest =>
    match skipBlank rest with
    | [] => .ok value
    | rest' => .error (Fault.toError cs (.placed .trailingCharacters (.oneByteInto rest')))

/-- The value of a text, made canonical. -/
def parse (text : String) : Except Error Json := (readAll raw maxDepth text).map canonical

end Json

end TrialBoard
