import ServerScript.Code.Reader
import ServerScript.Host.Request

/-! Requests from JSON. Every member may be left out. -/
namespace ServerScript.RequestData

def pair? : Json → Option (String × String)
  | .array [.string key, .string value] => some (key, value)
  | _ => none

def pairs (member : Option Json) : Option (List (String × String)) :=
  Code.Reader.defaulted [] (Json.list? pair?) member

def text (value : String) (member : Option Json) : Option String :=
  Code.Reader.defaulted value Json.text? member

/-- The members in the order in which a request without names lists them. -/
def members : List String :=
  ["method", "path", "query_string", "form", "cookies", "server_variables", "body"]

def ofJson? (json : Json) : Option RequestData :=
  match json.record? members with
  | some ([method, path, query, form, cookies, server, body], _) => do
    return {
      method := ← text "GET" method
      path := ← text "/" path
      query := ← pairs query
      form := ← pairs form
      cookies := ← pairs cookies
      serverVariables := ← pairs server
      body := ← text "" body }
  | _ => none

end ServerScript.RequestData
