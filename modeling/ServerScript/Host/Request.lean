import ServerScript.Object.Collection

/-! What a script can see of the request it answers. -/
namespace ServerScript

structure RequestData where
  method : String := "GET"
  path : String := "/"
  query : List (String × String) := []
  form : List (String × String) := []
  cookies : List (String × String) := []
  serverVariables : List (String × String) := []
  body : String := ""
  deriving Inhabited, BEq

def RequestData.rawQuery (r : RequestData) : String :=
  "&".intercalate (r.query.map fun pair => pair.1 ++ "=" ++ pair.2)

structure RequestView where
  query : Collection
  form : Collection
  cookies : Collection
  serverVariables : Collection
  totalBytes : Nat

namespace RequestView

def title : String := "IRequestDictionary"

def supply (c : Collection) (pair : String × String) : Collection :=
  if (c.get? pair.1).isSome then c else c.push pair.1 pair.2

def ofData (r : RequestData) : RequestView :=
  let supplied := [("REQUEST_METHOD", r.method), ("PATH_INFO", r.path), ("SCRIPT_NAME", r.path),
    ("QUERY_STRING", r.rawQuery), ("CONTENT_LENGTH", toString r.body.utf8ByteSize)]
  { query := .ofPairs title r.query
    form := .ofPairs title r.form
    cookies := .ofPairs title r.cookies
    serverVariables := supplied.foldl supply (.ofPairs title r.serverVariables)
    totalBytes := r.body.utf8ByteSize }

/-- A collection by its member name, with the number of its reference. -/
def collection? (r : RequestView) : String → Option (Nat × Collection)
  | "querystring" => some (1, r.query)
  | "form" => some (2, r.form)
  | "cookies" => some (3, r.cookies)
  | "servervariables" => some (4, r.serverVariables)
  | _ => none

def lookup (r : RequestView) (key : String) : Value :=
  let found := [r.query, r.form, r.cookies, r.serverVariables].findSome? (·.get? key)
  found.elim .empty .string

end RequestView
end ServerScript
