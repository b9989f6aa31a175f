import ServerScript.Host.Contents

/-! The contents shared by all requests and the lock that a script may take on them. Reading never
waits. A request that would have to wait for the lock of another one runs out of time instead:
requests are served one after another, so nobody could release the lock meanwhile. -/
namespace ServerScript

structure ApplicationStore where
  contents : Contents := {}
  holder : Option Nat := none
  /-- How often the holder has locked the store. -/
  depth : Nat := 0

namespace ApplicationStore

def allows (s : ApplicationStore) (request : Nat) : Bool := s.holder.all (· == request)

def onTurn (s : ApplicationStore) (request : Nat) (change : ApplicationStore → ApplicationStore) :
    Except EvalError ApplicationStore :=
  if s.allows request then .ok (change s) else .error .timeout

def set (s : ApplicationStore) (request : Nat) (key : String) (value : SharedValue) :
    Except EvalError ApplicationStore :=
  s.onTurn request fun s => { s with contents := s.contents.insert key value }

def remove (s : ApplicationStore) (request : Nat) (key : String) :
    Except EvalError ApplicationStore :=
  s.onTurn request fun s => { s with contents := s.contents.remove key }

def clear (s : ApplicationStore) (request : Nat) : Except EvalError ApplicationStore :=
  s.onTurn request fun s => { s with contents := s.contents.clear }

/-- Takes the lock, once more if the request holds it already. -/
def lock (s : ApplicationStore) (request : Nat) : Except EvalError ApplicationStore :=
  s.onTurn request fun s => { s with holder := some request, depth := s.depth + 1 }

def unlock (s : ApplicationStore) (request : Nat) : ApplicationStore :=
  if s.holder = some request then
    if s.depth ≤ 1 then { s with holder := none, depth := 0 } else { s with depth := s.depth - 1 }
  else s

def release (s : ApplicationStore) (request : Nat) : ApplicationStore :=
  if s.holder = some request then { s with holder := none, depth := 0 } else s

theorem release_of_not_holder (s : ApplicationStore) (request : Nat)
    (other : s.holder ≠ some request) : s.release request = s := by simp [release, other]

theorem unlock_of_not_holder (s : ApplicationStore) (request : Nat)
    (other : s.holder ≠ some request) : s.unlock request = s := by simp [unlock, other]

end ApplicationStore
end ServerScript
