import TrialBoard.Config.Environment

/-!
# Files of variables

A file `.env` holds variables, one a line: a name, an equals sign and a value. A value ends at white
space, after which only a comment may follow; single and double quotes keep white space and line
ends. Outside single quotes a backslash escapes a quote, a blank, a dollar sign or itself, and `\n` is a
line end; a dollar sign brings in the value of another variable.

The variables are set one after the other. One that is set already keeps its value, and the first
line that is wrong ends the file.
-/

namespace TrialBoard.Cli

namespace Dotenv

/-! ## Lines -/

/-- Where in a line its reader stands. -/
inductive LineState where
  | plain
  /-- After white space, where a comment may start. -/
  | space
  | escaped
  | single
  | singleEscaped
  | double
  | doubleEscaped
deriving DecidableEq

/-- The state after one more character. -/
def LineState.step (state : LineState) (c : Char) : LineState :=
  let opened : LineState :=
    if c = '\\' then .escaped else if c = '"' then .double else if c = '\'' then .single else .plain
  match state with
  | plain => if Text.isWhiteSpace c && c != '\n' && c != '\r' then .space else opened
  | space => opened
  | escaped => .plain
  | single => if c = '\\' then .singleEscaped else if c = '\'' then .plain else .single
  | singleEscaped => .single
  | double => if c = '\\' then .doubleEscaped else if c = '"' then .plain else .double
  | doubleEscaped => .double

/-- Takes the first logical line off a text: its characters, last first, and the rest. A line end
inside quotes belongs to it. None if the text ends before the line does. -/
def takeLine? (state : LineState) (seen : List Char) : List Char → Option (List Char × List Char)
  | [] => if state = .plain then some (seen, []) else none
  | c :: cs =>
    if state = .space ∧ c = '#' then some (seen, (cs.dropWhile (· != '\n')).drop 1)
    else if c = '\n' ∧ state.step c = .plain then some (seen, cs)
    else takeLine? (state.step c) (c :: seen) cs

/-- The logical lines of a text, and whether it ends after the last of them. -/
def logicalLines : Nat → List Char → List (List Char) × Bool
  | 0, _ => ([], true)
  | _, [] => ([], true)
  | fuel + 1, cs =>
    if (Text.trimStart (cs.takeWhile (· != '\n'))).head? = some '#' then
      logicalLines fuel ((cs.dropWhile (· != '\n')).drop 1)
    else
      match takeLine? .plain [] cs with
      | none => ([], false)
      | some (line, rest) =>
        let (lines, whole) := logicalLines fuel rest
        (line.reverse :: lines, whole)

/-! ## Values -/

/-- Where in a value its reader stands. -/
inductive ValueState where
  | bare
  | single
  | double
  /-- After the value: only blanks and a comment may follow. -/
  | ended
  /-- After a backslash. -/
  | escaped (inDouble : Bool)
  /-- In the name of a variable after a dollar sign. -/
  | name (inDouble : Bool) (seen : List Char)
  /-- In such a name between braces. -/
  | braced (inDouble : Bool) (seen : List Char)

/-- The state outside of a name, an escape and single quotes. -/
def ValueState.around (inDouble : Bool) : ValueState := if inDouble then .double else .bare

/-- The character that one stands for after a backslash. -/
def escaped? (c : Char) : Option Char :=
  if c = '\\' ∨ c = '\'' ∨ c = '"' ∨ c = '$' ∨ c = ' ' then some c
  else if c = 'n' then some '\n'
  else none

/-- Reads a value. `out` holds its characters so far, last first; names are looked up with
`lookup`. -/
def value? (lookup : String → String) (out : List Char) : ValueState → List Char → Option String
  | .single, [] => none
  | .double, [] => none
  | .braced _ _, [] => none
  | .name true _, [] => none
  | .escaped true, [] => none
  | .name false name, [] => some (String.ofList out.reverse ++ lookup (String.ofList name.reverse))
  | _, [] => some (String.ofList out.reverse)
  | .ended, c :: cs =>
    if c = ' ' ∨ c = '\t' then value? lookup out .ended cs
    else if c = '#' then some (String.ofList out.reverse)
    else none
  | .escaped inDouble, c :: cs =>
    match escaped? c with
    | some x => value? lookup (x :: out) (.around inDouble) cs
    | none => none
  | .single, c :: cs =>
    if c = '\'' then value? lookup out .bare cs else value? lookup (c :: out) .single cs
  | .name inDouble name, c :: cs =>
    if c.isAlphanum then value? lookup out (.name inDouble (c :: name)) cs
    else if c = '\x7b' ∧ name.isEmpty then value? lookup out (.braced inDouble []) cs
    else
      let out := (lookup (String.ofList name.reverse)).toList.reverse ++ out
      if c = '$' then value? lookup out (.name inDouble []) cs
      else value? lookup (c :: out) (.around inDouble) cs
  | .braced inDouble name, c :: cs =>
    if c = '\x7d' then
      value? lookup ((lookup (String.ofList name.reverse)).toList.reverse ++ out) (.around inDouble) cs
    else value? lookup out (.braced inDouble (c :: name)) cs
  | .double, c :: cs =>
    if c = '$' then value? lookup out (.name true []) cs
    else if c = '"' then value? lookup out .bare cs
    else if c = '\\' then value? lookup out (.escaped true) cs
    else value? lookup (c :: out) .double cs
  | .bare, c :: cs =>
    if c = '$' then value? lookup out (.name false []) cs
    else if c = '\'' then value? lookup out .single cs
    else if c = '"' then value? lookup out .double cs
    else if c = '\\' then value? lookup out (.escaped false) cs
    else if c = ' ' ∨ c = '\t' then value? lookup out .ended cs
    else value? lookup (c :: out) .bare cs

/-! ## Variables -/

/-- Whether a character may start a name. -/
def startsName (c : Char) : Bool := c.isAlpha || c == '_'

/-- Whether a character may stand in a name. -/
def inName (c : Char) : Bool := c.isAlphanum || c == '_' || c == '.'

/-- Reads a name and the white space after it. -/
def name? (cs : List Char) : Option (String × List Char) :=
  match cs with
  | c :: _ =>
    if startsName c then
      some (String.ofList (cs.takeWhile inName), Text.trimStart (cs.dropWhile inName))
    else none
  | [] => none

/-- Reads a name up to its equals sign; the word `export` may stand before it. -/
def assigned? (cs : List Char) : Option (String × List Char) :=
  match name? cs with
  | some (name, '=' :: rest) => some (name, rest)
  | some ("export", rest) =>
    match name? rest with
    | some (name, '=' :: rest) => some (name, rest)
    | _ => none
  | _ => none

/-- The value that a name in another value stands for: that of the variable, or else that which the
file gave. -/
def meaning (environment file : Environment) (name : String) : String :=
  ((environment.get? name).or (file.get? name)).getD ""

/-- Sets the variables of some lines. `file` holds what the lines before them gave. -/
def setLines (file environment : Environment) : List (List Char) → Environment
  | [] => environment
  | line :: lines =>
    let cs := Text.trim line
    if cs.isEmpty ∨ cs.head? = some '#' then setLines file environment lines
    else
      match assigned? cs with
      | none => environment
      | some (name, rest) =>
        let rest := Text.trimStart rest
        let value := if rest.isEmpty ∨ rest.head? = some '#' then some ""
          else value? (meaning environment file) [] .bare rest
        match value with
        | none => environment
        | some value =>
          let set := if (environment.get? name).isSome then environment
            else environment ++ [(name, value)]
          setLines ((name, value) :: file) set lines

end Dotenv

/-- The variables with those that a file adds. -/
def Dotenv.apply (text : String) (environment : Environment) : Environment :=
  let cs := match text.toList with
    | '\ufeff' :: rest => rest
    | cs => cs
  setLines [] environment (logicalLines (cs.length + 1) cs).1

end TrialBoard.Cli
