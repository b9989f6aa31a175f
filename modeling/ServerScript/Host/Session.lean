import ServerScript.Host.Contents

/-! Sessions: values that belong to one client from request to request. -/
namespace ServerScript

structure Session where
  id : String
  contents : Contents := {}
  /-- Minutes without a request after which the session may be dropped. -/
  timeout : Int64 := 20
  abandoned : Bool := false
  /-- Whether no request that uses the session has ended yet. -/
  isNew : Bool := true
  deriving Inhabited, BEq

def Session.idOf (request : Nat) : String :=
  let digits := (Nat.toDigits 16 request).map Char.toUpper
  String.ofList (List.replicate (16 - digits.length) '0' ++ digits)

end ServerScript
