import TrialBoard.Text.Position
import TrialBoard.Toml.Scalar
import TrialBoard.Toml.Tables

/-!
# Reading TOML

A document is a sequence of lines: a header, or a key with its value, or nothing. Values may be
arrays, which go over several lines, and inline tables, which do not. Containers may be nested
`maxDepth` deep, and a key may have as many parts.
-/

namespace TrialBoard.Toml

/-- How deep containers may be nested, and how many parts a key may have. -/
def maxDepth : Nat := 79

/-- The words for a key that is set twice. -/
def duplicateKey : String := "duplicate key"

/-- Reads a key: the parts it leads through, and its last one. -/
def key (cs : List Char) : Except Fault ((List String × String) × List Char) := do
  let (parts, rest) ← keyParts maxDepth cs
  return ((parts.dropLast, parts.getLastD ""), rest)

/-- The entries that were changed, if they could be. -/
def changed (result : Option Entries) (rest : List Char) : Except Fault Entries :=
  match result with
  | some entries => .ok entries
  | none => stuck duplicateKey rest

mutual

/-- Reads a value, with room for so many nested containers. -/
def value : Nat → Nat → List Char → Scan Setting
  | 0, _, cs => stuck "expected a value" cs
  | fuel + 1, room, cs =>
    match cs, room with
    | '[' :: _, 0 => stuck "too deeply nested" cs
    | '\x7b' :: _, 0 => stuck "too deeply nested" cs
    | '[' :: rest, room + 1 => items fuel room [] rest
    | '\x7b' :: rest, room + 1 =>
      match skipBlank rest with
      | '\x7d' :: rest => .ok (.table [], rest)
      | rest => inlineEntries fuel room [] rest
    | '"' :: _, _ => (string cs).map fun (s, rest) => (.text s, rest)
    | '\'' :: _, _ => (string cs).map fun (s, rest) => (.text s, rest)
    | _, _ => scalar cs

/-- Reads the items of an array up to its end. -/
def items : Nat → Nat → List Setting → List Char → Scan Setting
  | 0, _, _, cs => stuck "unclosed array" cs
  | fuel + 1, room, seen, cs =>
    match skipLines false cs with
    | ']' :: rest => .ok (.list seen.reverse, rest)
    | cs =>
      match value fuel room cs with
      | .error fault => .error fault
      | .ok (item, rest) =>
        match skipLines false rest with
        | ']' :: rest => .ok (.list (item :: seen).reverse, rest)
        | ',' :: rest => items fuel room (item :: seen) rest
        | rest => stuck "expected a comma or the end of the array" rest

/-- Reads the entries of an inline table up to its end. -/
def inlineEntries : Nat → Nat → Entries → List Char → Scan Setting
  | 0, _, _, cs => stuck "unclosed inline table" cs
  | fuel + 1, room, entries, cs =>
    match entry fuel room cs with
    | .error fault => .error fault
    | .ok ((path, name, setting), rest) =>
      match changed (entries.set path name setting .defined) rest with
      | .error fault => .error fault
      | .ok entries =>
        match skipBlank rest with
        | '\x7d' :: rest => .ok (.table (Node.entriesToSettings entries), rest)
        | ',' :: rest => inlineEntries fuel room entries rest
        | rest => stuck "expected a comma or the end of the table" rest

/-- Reads a key with its value. -/
def entry : Nat → Nat → List Char → Except Fault ((List String × String × Setting) × List Char)
  | 0, _, cs => stuck "expected a key" cs
  | fuel + 1, room, cs =>
    match key cs with
    | .error fault => .error fault
    | .ok ((path, name), '=' :: rest) =>
      match value fuel room (skipBlank rest) with
      | .error fault => .error fault
      | .ok (setting, rest) => .ok ((path, name, setting), rest)
    | .ok (_, rest) => stuck "expected an equals sign" rest

end

/-- A document while it is read. -/
structure Draft where
  entries : Entries := []
  /-- The table that keys are set in. -/
  header : List String := []

/-- Reads a header after its opening brackets up to the end of its line. -/
def header (closing : List Char) (cs : List Char) :
    Except Fault ((List String × String) × List Char) := do
  let (path, rest) ← key cs
  if rest.take closing.length = closing then
    return (path, ← endLine (rest.drop closing.length))
  stuck "expected the end of the header" rest

/-- Reads one line that is not empty. -/
def line (draft : Draft) (cs : List Char) : Except Fault (Draft × List Char) :=
  match cs with
  | '[' :: '[' :: rest => do
    let ((path, name), rest) ← header [']', ']'] rest
    let entries ← changed (draft.entries.append path name) cs
    return ({ entries, header := path ++ [name] }, rest)
  | '[' :: rest => do
    let ((path, name), rest) ← header [']'] rest
    let entries ← changed (draft.entries.define path name) cs
    return ({ entries, header := path ++ [name] }, rest)
  | cs => do
    let ((path, name, setting), rest) ← entry (cs.length + 1) maxDepth cs
    let rest ← endLine rest
    let entries ← changed
      (draft.entries.within false (Entries.set path name setting) draft.header .defined) cs
    return ({ draft with entries }, rest)

/-- Reads the lines of a document. -/
def lines : Nat → Draft → List Char → Except Fault Draft
  | 0, _, cs => stuck "expected the end of the document" cs
  | fuel + 1, draft, cs =>
    match skipBlank cs with
    | [] => .ok draft
    | c :: rest =>
      if c = '#' then do lines fuel draft (← endLine (c :: rest))
      else
        match newline? (c :: rest) with
        | some rest => lines fuel draft rest
        | none => do
          let (draft, rest) ← line draft (c :: rest)
          lines fuel draft rest

/-- The text without a byte order mark at its start. -/
def dropMark : List Char → List Char
  | '\ufeff' :: rest => rest
  | cs => cs

/-- Reads a document; the message of a fault tells its line and column. -/
def parse (text : String) : Except String Setting :=
  match lines (text.toList.length + 1) {} (dropMark text.toList) with
  | .ok draft => .ok (.table (Node.entriesToSettings draft.entries))
  | .error fault =>
    let position := (Text.Place.before fault.rest).position text.toList
    .error ("TOML parse error at line " ++ toString position.line ++ ", column "
      ++ toString (position.column + 1) ++ ": " ++ fault.reason)

end TrialBoard.Toml
