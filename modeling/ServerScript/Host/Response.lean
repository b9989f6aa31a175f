import ServerScript.Text.Blank
import ServerScript.Text.Case
import ServerScript.Number.Numeral

/-! What a script produces for its client. -/
namespace ServerScript

structure Response where
  status : String := "200 OK"
  contentType : String := "text/html"
  charset : Option String := none
  headers : Array (String × String) := #[]
  cookies : List (String × String) := []
  body : String := ""
  buffer : Bool := true
  /-- Minutes until the page is stale. -/
  expires : Option Int64 := none
  log : Array String := #[]
  redirect : Option String := none
  deriving Inhabited, BEq

namespace Response

/-- The number at the front of the status, or 200 if it is none that fits sixteen bits. -/
def statusCode (r : Response) : Nat :=
  let code := (Text.words r.status).head?.bind fun word => Number.natural? UInt16.size word.toList
  code.getD 200

def write (r : Response) (text : String) : Response := { r with body := r.body ++ text }

def clear (r : Response) : Response := { r with body := "" }

def addHeader (r : Response) (name value : String) : Response :=
  { r with headers := r.headers.push (name, value) }

def redirectTo (r : Response) (url : String) : Response :=
  { r with
    status := "302 Object moved"
    headers := r.headers.push ("Location", url)
    body := ""
    redirect := some url }

def cookie? (r : Response) (name : String) : Option String :=
  (r.cookies.find? fun e => Text.asciiEq e.1 name).map (·.2)

/-- Sets a cookie; its name ignores the case of ASCII letters. -/
def setCookie (r : Response) (name value : String) : Response :=
  { r with cookies := go r.cookies }
where
  /-- Walks to the cookie of the name. -/
  go : List (String × String) → List (String × String)
    | [] => [(name, value)]
    | e :: rest => if Text.asciiEq e.1 name then (e.1, value) :: rest else e :: go rest

end Response
end ServerScript
