import TrialBoard.Gateway.ByteRange
import TrialBoard.Gateway.MediaType
import TrialBoard.Gateway.Request
import TrialBoard.Gateway.Response

/-!
# Serving files

Where no route matches, the path may name a file of a directory tree. A directory stands for the
file `index.html` in it, and is redirected to where its path lacks the closing slash. Nothing
outside of the tree can be named.
-/

namespace TrialBoard.Gateway

/-- A tree of files: paths without a leading slash, and texts. -/
abbrev Files := List (String × String)

namespace Files

/-- The parts of a path that name something, or none if it leads out of the tree. -/
def parts? (path : String) : Option (List String) := do
  let decoded ← Text.percentDecode? (String.ofList (path.toList.dropWhile (· == '/')))
  if decoded.startsWith "/" then none
  else
    let parts := ((segments decoded.toList).map String.ofList).filter
      fun part => part != "" && part != "."
    if parts.contains ".." then none else some parts

/-- The file at a path. -/
def file? (files : Files) (parts : List String) : Option String :=
  files.lookup ("/".intercalate parts)

/-- Whether a path names a directory: the root, or one that holds something. -/
def isDirectory (files : Files) (parts : List String) : Bool :=
  parts.isEmpty || files.any fun (name, _) => name.startsWith ("/".intercalate parts ++ "/")

/-- The text of some bytes of a text; empty where they cut a character. -/
def slice (content : String) (range : ByteRange) : String :=
  let bytes := (content.toUTF8.toList.drop range.first).take (range.last + 1 - range.first)
  (String.fromUTF8? ⟨bytes.toArray⟩).getD ""

/-- The response with a file, or the part of it that is asked for. -/
def respondWith (name content : String) (range? : Option String) : Response :=
  let size := content.utf8ByteSize
  let type := ("content-type", mediaType name)
  let unsatisfiable := ("content-range", "bytes */" ++ toString size)
  match range?.map (RangeAnswer.ofHeader size) with
  | none => { status := 200, headers := [type], body := content }
  | some (.part range) =>
    { status := 206
      headers :=
        [ type,
          ("content-range", "bytes " ++ toString range.first ++ "-" ++ toString range.last ++ "/"
            ++ toString size) ]
      body := slice content range }
  | some .several =>
    { status := 416, headers := [type, unsatisfiable]
      body := "Cannot serve multipart range requests" }
  | some .unsatisfiable => { status := 416, headers := [type, unsatisfiable] }

/-- The address of a directory, with its closing slash. -/
def slashed (request : Request) : String :=
  request.path ++ "/" ++ (request.query?.map ("?" ++ ·)).getD ""

/-- The response to a request for a file. -/
def respond (files : Files) (request : Request) : Response :=
  if request.method != "GET" && request.method != "HEAD" then .methodNotAllowed
  else
    match parts? request.path with
    | none => .notFound
    | some parts =>
      if files.isDirectory parts && !request.path.endsWith "/" then
        { status := 307, headers := [("location", slashed request)] }
      else
        let parts := if files.isDirectory parts then parts ++ ["index.html"] else parts
        match files.file? parts with
        | some content => respondWith (parts.getLast?.getD "") content (request.header? "range")
        | none => .notFound

end Files

end TrialBoard.Gateway
