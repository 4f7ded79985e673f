import TrialBoard.Config.Literal

/-!
# Settings in the environment

A variable whose name starts with `LABFEED_`, in letters of either case, sets what the rest of its
name says: two underscores stand between the names of a path, as does a point. A name with an empty
part sets nothing.
-/

namespace TrialBoard

/-- Variables with their values, in the order in which they were set. -/
abbrev Environment := List (String × String)

namespace Environment

/-- What the names of variables that are settings start with, in lower case. -/
def marker : List Char := ['l', 'a', 'b', 'f', 'e', 'e', 'd', '_']

/-- The parts of a name in lower case. `part` holds the characters of the part being read, last
first. -/
def parts (part : List Char) : List Char → List String
  | [] => [String.ofList part.reverse]
  | '_' :: '_' :: cs => String.ofList part.reverse :: parts [] cs
  | c :: cs =>
    if c = '.' then String.ofList part.reverse :: parts [] cs else parts (c.toLower :: part) cs

/-- The path that a variable sets, if it sets one. -/
def path? (name : String) : Option (List String) := do
  let rest ← Literal.after? marker ((Text.trim name.toList).map Char.toLower)
  let path := parts [] (Text.trim rest)
  if path.contains "" then none else some path

/-- All that the variables set; a later one is laid over the earlier ones. -/
def setting (environment : Environment) : Setting :=
  Setting.overlay (environment.filterMap fun (name, value) =>
    (path? name).map fun path => .under path (.ofText value))

/-- The value of a variable. -/
def get? (environment : Environment) (name : String) : Option String := environment.lookup name

end Environment

end TrialBoard
