import ServerScript.Error
import ServerScript.Code.Location

/-! What is reported of a request that failed: the cause, a hint, and the place in the source. -/
namespace ServerScript

inductive Cause where
  | eval (e : EvalError)
  /-- The request broke off in a way that no script can cause on purpose. -/
  | crash (text : String)
  deriving DecidableEq, Repr, Inhabited, BEq

namespace Cause

def kind : Cause → String
  | eval e => e.kind
  | crash _ => "Panic"

def message : Cause → String
  | eval e => e.message
  | crash text => "request panicked: " ++ text

def number : Cause → Option Int64
  | eval e => some e.number
  | crash _ => none

def help : Cause → Option String
  | eval .divisionByZero => some "Division by zero is not allowed."
  | eval .subscriptOutOfRange =>
    some "The index is outside the array bounds. Check UBound or ReDim the array first."
  | eval (.undefinedFunction name) =>
    some ("'" ++ name ++ "' is not a sub, function or built-in. Did you forget to declare it?")
  | eval (.classNotDefined name) =>
    some ("Declare 'Class " ++ name ++ "' before creating instances of it.")
  | eval (.recursion limit) =>
    some ("Procedure calls nested deeper than " ++ toString limit ++
      " levels. Check for unbounded recursion.")
  | eval .timeout =>
    some "The script ran past its timeout. Raise Server.ScriptTimeout or ASP_SCRIPT_TIMEOUT."
  | eval .notShareable =>
    some "Only strings, numbers, booleans and arrays of those can be stored in Application or Session."
  | crash _ => some "An internal error occurred. Please report this if it persists."
  | _ => none

end Cause

/-- The bytes before a place, given the line and column reached, both counted from zero. The walk
ends before the first character that is not before the place, or at the end of the text. It stands
for the walk by which the diagnostics library finds the offset of a line and a column; that library
is not part of the program's own source, and its documented behaviour is what is written here. -/
def bytesBefore (p : Position) : Nat → Nat → List Char → Nat
  | _, _, [] => 0
  | line, column, c :: rest =>
    if p.line ≤ line + 1 ∧ p.column ≤ column + 1 then 0
    else if c = '\n' then c.utf8Size + bytesBefore p (line + 1) 0 rest
    else c.utf8Size + bytesBefore p line (column + 1) rest

def Position.offset (p : Position) (source : String) : Nat := bytesBefore p 0 0 source.toList

structure Span where
  offset : Nat := 0
  length : Nat := 0
  deriving DecidableEq, Repr, Inhabited, BEq

def Range.span (r : Range) (source : String) : Span :=
  let start := r.start.offset source
  ⟨start, max (r.stop.offset source - start) 1⟩

structure Report where
  cause : Cause
  /-- The source of the document, empty if it is not known. -/
  source : String := ""
  span : Span := {}
  deriving DecidableEq, Repr, Inhabited, BEq

namespace Report

/-- The report of an error. Without a source there is no place to point at. -/
def ofError (source : Option String) (e : EvalError) (range : Option Range) : Report :=
  let source := source.getD ""
  let span := if source = "" then {} else range.elim {} (·.span source)
  ⟨.eval e, source, span⟩

def ofCrash (text : String) : Report := ⟨.crash text, "", {}⟩

def labels (r : Report) : Option (List (String × Span)) :=
  if r.source = "" then none else some [(r.cause.message, r.span)]

end Report
end ServerScript
