/-!
# Paths

A path is absolute if it starts with a slash. A relative path continues another one.
-/

namespace TrialBoard.Cli

/-- The path that continues another one, unless it is absolute itself. -/
def joinPath (base path : String) : String :=
  if path.startsWith "/" then path
  else if base.endsWith "/" then base ++ path
  else base ++ "/" ++ path

/-- The path without empty parts and dots, where nothing on it is a link. -/
def normalPath (path : String) : String :=
  let parts := (path.splitOn "/").foldl (fun parts part =>
    if part = "" ∨ part = "." then parts
    else if part = ".." then parts.dropLast
    else parts ++ [part]) []
  (if path.startsWith "/" then "/" else "") ++ "/".intercalate parts

end TrialBoard.Cli
