import ServerScript.Code.Stmt
import ServerScript.Error

/-! The interrupts of a request. Time is counted in looks at the clock, one for every statement
and every turn of a loop; a look stands for a microsecond. -/
namespace ServerScript

inductive Halt where
  | finish
  | redirect (url : String)
  deriving DecidableEq, Repr, Inhabited, BEq

inductive Flow where
  | normal
  /-- An exit on its way to the construct that it leaves. -/
  | exit (kind : ExitKind)
  | halt (reason : Halt)
  deriving DecidableEq, Repr, Inhabited, BEq

structure Control where
  /-- Looks at the clock so far. -/
  elapsed : Nat := 0
  /-- The time allowed in milliseconds; without it a request may run for ever. -/
  timeout : Option Nat := none
  halt : Option Halt := none
  deriving Inhabited

namespace Control

def looksPerMillisecond : Nat := 1000

def tick (c : Control) : Control := { c with elapsed := c.elapsed + 1 }

def isExpired (c : Control) : Bool := c.timeout.any (· * looksPerMillisecond < c.elapsed)

def requestHalt (c : Control) (reason : Halt) : Control :=
  { c with halt := c.halt <|> some reason }

/-- Instants are words of seconds and a request starts early in their range, so a timeout close to
the largest word has no instant to end at. -/
def deadlineExists (c : Control) : Bool := c.timeout.all fun ms => ms / 1000 < 0x8000000000000000 - 0x80000000

end Control
end ServerScript
