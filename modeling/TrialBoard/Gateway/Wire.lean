import TrialBoard.Gateway.Request
import TrialBoard.Gateway.Response
import TrialBoard.Text.Blank

/-!
# Requests and responses as text

A request is a line with its method and address, and lines with its headers. A response is a line
with its status, lines with its headers, an empty line and its body.
-/

namespace TrialBoard.Gateway

/-- A header from its line. -/
def headerOfLine (line : String) : String × String :=
  let (name, value?) := Request.cutAt ':' line.toList
  (String.ofList name, Text.trimmed (String.ofList (value?.getD [])))

/-- The request of some lines. -/
def Request.ofLines? : List String → Option Request
  | [] => none
  | first :: headers =>
    match first.splitOn " " with
    | method :: address :: _ => some (.ofAddress method address (headers.map headerOfLine))
    | _ => none

/-- The text of a response. -/
def Response.wireText (response : Response) : String :=
  let headers := response.headers ++ [("content-length", toString response.body.utf8ByteSize)]
  "HTTP/1.1 " ++ toString response.status ++ "\r\n"
    ++ String.join (headers.map fun (name, value) => name ++ ": " ++ value ++ "\r\n")
    ++ "\r\n" ++ response.body

end TrialBoard.Gateway
