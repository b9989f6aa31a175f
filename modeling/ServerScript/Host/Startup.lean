/-! The life of an application: its start is tried once, its end once after that. -/
namespace ServerScript

structure Startup where
  started : Bool := false
  ended : Bool := false
  deriving DecidableEq, Repr, Inhabited, BEq

namespace Startup

/-- Whether the start has to be run now, and the state after it. A start that fails counts. -/
def start (s : Startup) : Bool × Startup := (!s.started, { s with started := true })

def finish (s : Startup) : Bool × Startup :=
  if s.started && !s.ended then (true, { s with ended := true }) else (false, s)

end Startup
end ServerScript
