import TrialBoard.Decimal.Layout
import TrialBoard.Json.Basic
import TrialBoard.Text.Position
import TrialBoard.Text.Quoted

/-!
# Why a JSON text is refused

A `Cause` says what is wrong, with the syntax or with the value that was expected. A `Fault` adds
where the reader stood. A cause that lies in a value rather than at a character is *unplaced* at
first; the container or scalar being read places it where its own reading ends.
-/

namespace TrialBoard.Json

/-- What was found where something else was expected. -/
inductive Found where
  | null
  | bool (value : Bool)
  | integer (value : Int)
  | real (value : Binary64)
  | string (value : String)
  | sequence
  | map

/-- The words for what was found. -/
def Found.describe : Found → String
  | null => "null"
  | bool b => if b then "boolean `true`" else "boolean `false`"
  | integer i => "integer `" ++ toString i ++ "`"
  | real x => "floating point `" ++ Decimal.Layout.interchange.formatBinary64 x ++ "`"
  | string s => "string " ++ Text.quoted s
  | sequence => "sequence"
  | map => "map"

/-- How a value is named when it is not the one expected. -/
def found : Json → Found
  | null => .null
  | bool b => .bool b
  | number (.integer i _) => .integer i
  | number (.real x) => .real x
  | string s => .string s
  | array _ => .sequence
  | object _ => .map

/-- Why a text is refused. -/
inductive Cause where
  | endInList
  | endInObject
  | endInString
  | endInValue
  | expectedColon
  | expectedListCommaOrEnd
  | expectedObjectCommaOrEnd
  | expectedIdent
  | expectedValue
  | invalidEscape
  | invalidNumber
  | numberOutOfRange
  | controlCharacter
  | keyMustBeString
  | loneSurrogate
  | trailingComma
  | trailingCharacters
  | unexpectedEndOfHexEscape
  | recursionLimit
  | invalidType (found : Found) (expected : String)
  | invalidValue (found : Found) (expected : String)
  | invalidLength (length : Nat) (expected : String)
  | unknownVariant (name : String) (expected : List String)
  | missingField (name : String)
  | duplicateField (name : String)
  /-- The text of a string was refused, for the reason given. -/
  | refusedText (reason : String)

/-- A name between backticks. -/
def ticked (name : String) : String := "`" ++ name ++ "`"

/-- The names that were possible. -/
def oneOf : List String → String
  | [] => "there are no variants"
  | [a] => "expected " ++ ticked a
  | [a, b] => "expected " ++ ticked a ++ " or " ++ ticked b
  | names => "expected one of " ++ ", ".intercalate (names.map ticked)

/-- The words for a cause. -/
def Cause.describe : Cause → String
  | endInList => "EOF while parsing a list"
  | endInObject => "EOF while parsing an object"
  | endInString => "EOF while parsing a string"
  | endInValue => "EOF while parsing a value"
  | expectedColon => "expected `:`"
  | expectedListCommaOrEnd => "expected `,` or `]`"
  | expectedObjectCommaOrEnd => "expected `,` or `\x7d`"
  | expectedIdent => "expected ident"
  | expectedValue => "expected value"
  | invalidEscape => "invalid escape"
  | invalidNumber => "invalid number"
  | numberOutOfRange => "number out of range"
  | controlCharacter =>
    "control character (\\u0000-\\u001F) found while parsing a string"
  | keyMustBeString => "key must be a string"
  | loneSurrogate => "lone leading surrogate in hex escape"
  | trailingComma => "trailing comma"
  | trailingCharacters => "trailing characters"
  | unexpectedEndOfHexEscape => "unexpected end of hex escape"
  | recursionLimit => "recursion limit exceeded"
  | invalidType found expected => "invalid type: " ++ found.describe ++ ", expected " ++ expected
  | invalidValue found expected => "invalid value: " ++ found.describe ++ ", expected " ++ expected
  | invalidLength length expected =>
    "invalid length " ++ toString length ++ ", expected " ++ expected
  | unknownVariant name expected => "unknown variant " ++ ticked name ++ ", " ++ oneOf expected
  | missingField name => "missing field " ++ ticked name
  | duplicateField name => "duplicate field " ++ ticked name
  | refusedText reason => reason

/-- A cause and where the reader stood. -/
inductive Fault where
  /-- The fault lies at a place of the text. -/
  | placed (cause : Cause) (place : Text.Place)
  /-- The fault lies in what was read before `rest`. -/
  | unplaced (cause : Cause) (rest : List Char)

/-- Why a whole text is refused. -/
structure Error where
  cause : Cause
  position : Text.Position

/-- The words for an error. -/
def Error.message (e : Error) : String :=
  e.cause.describe ++ " at line " ++ toString e.position.line
    ++ " column " ++ toString e.position.column

/-- The error that a fault is in a text. -/
def Fault.toError (text : List Char) : Fault → Error
  | placed cause place => ⟨cause, place.position text⟩
  | unplaced cause rest => ⟨cause, (Text.Place.before rest).position text⟩

end TrialBoard.Json
