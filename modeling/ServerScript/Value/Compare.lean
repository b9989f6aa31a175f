import ServerScript.Value.Convert

/-! Loose comparison of values. Texts compare by code points, in text mode after lowering both
sides; mixed kinds are equal when their texts or their numeric readings are. -/
namespace ServerScript

def sameText (mode : CompareMode) (a b : String) : Bool :=
  match mode with
  | .binary => a == b
  | .text => Text.lower a == Text.lower b

def textBefore (mode : CompareMode) (a b : String) : Bool :=
  match mode with
  | .binary => a < b
  | .text => Text.lower a < Text.lower b

theorem sameText_refl (mode : CompareMode) (a : String) : sameText mode a a = true := by
  cases mode <;> simp [sameText]

theorem sameText_comm (mode : CompareMode) (a b : String) : sameText mode a b = sameText mode b a := by
  cases mode <;> simp only [sameText] <;> exact BEq.comm

namespace Value

def sameNumber (a b : Value) : Bool :=
  match a.toNumeric?, b.toNumeric? with
  | some x, some y => x.toFloat == y.toFloat
  | _, _ => false

def looseEq (mode : CompareMode) : Value → Value → Bool
  | nothing, nothing | null, null => true
  | nothing, _ | _, nothing | null, _ | _, null => false
  | object a, object b => a.same b
  | inst a _, inst b _ => a == b
  | array a, array b => a == b
  | string a, string b => sameText mode a b
  | bool a, bool b => a == b
  | a, b => sameText mode a.toText b.toText || sameNumber a b

/-- The order of `<`: by numbers where both sides read as such, otherwise by texts. -/
def less (mode : CompareMode) (a b : Value) : Bool :=
  match a.toNumeric?, b.toNumeric? with
  | some x, some y => x.toFloat < y.toFloat
  | _, _ => textBefore mode a.toText b.toText

end Value
end ServerScript
