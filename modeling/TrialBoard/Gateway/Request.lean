import TrialBoard.Text.Percent

/-!
# Requests

A request is a method, a path with an optional query, and headers. A path is looked at segment by
segment. The two questions of the programming interface are asked at the root and under `/api`.
-/

namespace TrialBoard.Gateway

/-- A request without a body. -/
structure Request where
  method : String := "GET"
  path : String
  /-- What follows the question mark. -/
  query? : Option String := none
  /-- Names and values; the case of a name does not matter. -/
  headers : List (String × String) := []

namespace Request

/-- The characters before the first occurrence of one, and those after it if it occurs. -/
def cutAt (mark : Char) (cs : List Char) : List Char × Option (List Char) :=
  match cs.dropWhile (· != mark) with
  | [] => (cs, none)
  | _ :: rest => (cs.takeWhile (· != mark), some rest)

/-- The request for an address, which is a path with a query. A fragment is dropped. -/
def ofAddress (method address : String) (headers : List (String × String)) : Request :=
  let (path, query?) := cutAt '?' (cutAt '#' address.toList).1
  { method, path := String.ofList path, query? := query?.map String.ofList, headers }

/-- The value of a header. -/
def header? (request : Request) (name : String) : Option String :=
  (request.headers.find? fun (other, _) => other.toLower == name).map Prod.snd

end Request

/-- The segments of a path: what stands between its slashes. -/
def segments : List Char → List (List Char)
  | [] => [[]]
  | c :: cs =>
    if c = '/' then [] :: segments cs
    else
      match segments cs with
      | [] => [[c]]
      | segment :: rest => (c :: segment) :: rest

/-- What a path leads to. -/
inductive Route where
  /-- The list of the experiments. -/
  | experiments
  /-- The detail of the experiment of a segment. -/
  | experiment (segment : String)
  /-- The push channel. -/
  | push
  /-- The state of the server. -/
  | health
  /-- A file, if there are any. -/
  | other
deriving DecidableEq

/-- What a list of segments leads to, below the root or below `/api`. -/
def Route.ofQuestion : List String → Option Route
  | ["experiments"] => some .experiments
  | ["experiments", segment] => if segment.isEmpty then none else some (.experiment segment)
  | _ => none

/-- What the segments of a path lead to. -/
def Route.ofSegments : List String → Route
  | ["", "ws"] => .push
  | ["", "health"] => .health
  | "" :: "api" :: rest => (Route.ofQuestion rest).getD .other
  | "" :: rest => (Route.ofQuestion rest).getD .other
  | _ => .other

/-- What a path leads to. -/
def Route.ofPath (path : String) : Route :=
  Route.ofSegments ((segments path.toList).map String.ofList)

end TrialBoard.Gateway
