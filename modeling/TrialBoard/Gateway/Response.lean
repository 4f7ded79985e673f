import TrialBoard.Json.Printer

/-!
# Responses

A response is a status, headers and a body. Every response may be read from any origin.
-/

namespace TrialBoard.Gateway

/-- The answer to a request. -/
structure Response where
  status : Nat
  headers : List (String × String) := []
  body : String := ""

namespace Response

/-- The value of a header. -/
def header? (response : Response) (name : String) : Option String := response.headers.lookup name

/-- A response of plain text. -/
def plain (status : Nat) (body : String) : Response :=
  { status, headers := [("content-type", "text/plain; charset=utf-8")], body }

/-- A response of a JSON value. -/
def json (status : Nat) (value : Json) : Response :=
  { status, headers := [("content-type", "application/json")], body := value.render }

/-- The response where nothing is found. -/
def notFound : Response := plain 404 "Not found, please check the URL."

/-- The response to a method that is not served. -/
def methodNotAllowed : Response := { status := 405, headers := [("allow", "GET,HEAD")] }

/-- The response to a question about what is allowed: everything is. -/
def preflight : Response :=
  { status := 200
    headers := [("access-control-allow-methods", "*"), ("access-control-allow-headers", "*")] }

/-- The response without its body. -/
def withoutBody (response : Response) : Response := { response with body := "" }

/-- The response, readable from any origin. -/
def shared (response : Response) : Response :=
  { response with headers := ("access-control-allow-origin", "*") :: response.headers }

end Response

end TrialBoard.Gateway
