import ServerScript.Text.Case

/-! Names of variables, procedures and members. Names ignore case: they are folded to small
letters when they are read. A spelling without a capital is kept as it stands. -/
namespace ServerScript

structure Name where
  text : String
  deriving DecidableEq, Repr, Inhabited, BEq

namespace Name

def ofText (spelling : String) : Name :=
  if spelling.toList.any Text.isCapital then ⟨Text.lower spelling⟩ else ⟨spelling⟩

/-- The name of a default member, which no declaration spells. -/
def blank : Name := ⟨""⟩

def isBlank (name : Name) : Bool := name.text == ""

instance : LawfulBEq Name where
  eq_of_beq {a b} h := by
    cases a; cases b
    simpa [BEq.beq, instBEqName.beq] using h
  rfl {a} := by
    cases a
    simp [BEq.beq, instBEqName.beq]

end Name
end ServerScript
