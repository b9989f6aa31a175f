import ServerScript.Value.Operator
import Mathlib.Tactic.Common

/-! The logical operators as connectives. A connective works on two truth values, or on the bits of
anything else, and hands a null operand on. `Not` in front of an operand or of the result makes
another connective of it, whichever way the operands are read, so that a law of the logical
operators is a law of truth tables and of bits. -/
namespace ServerScript

/-- What a logical operator does with two truth values, and with bits. -/
structure Connective where
  onBools : Bool → Bool → Bool
  onBits : Int32 → Int32 → Int32

def Value.isBool : Value → Bool
  | .bool _ => true
  | _ => false

/-- What logical operators yield: a truth value, a word of thirty-two bits, or null. -/
inductive Value.Logical : Value → Prop
  | null : Logical .null
  | bool (x : Bool) : Logical (.bool x)
  | bits (n : Int32) : Logical (.integer n.toInt64)

namespace Connective

def apply (c : Connective) (a b : Value) : Value :=
  if a.isNull || b.isNull then .null else Operator.logical c.onBools c.onBits a b

def negated (c : Connective) : Connective :=
  ⟨fun x y => !c.onBools x y, fun x y => ~~~(c.onBits x y)⟩

def notLeft (c : Connective) : Connective :=
  ⟨fun x y => c.onBools (!x) y, fun x y => c.onBits (~~~x) y⟩

def swapped (c : Connective) : Connective :=
  ⟨fun x y => c.onBools y x, fun x y => c.onBits y x⟩

/-- The connective with `Not` in front of its second operand. -/
def notRight (c : Connective) : Connective := c.swapped.notLeft.swapped

def and : Connective := ⟨(· && ·), (· &&& ·)⟩

def or : Connective := ⟨(· || ·), (· ||| ·)⟩

def xor : Connective := ⟨(· ^^ ·), (· ^^^ ·)⟩

def eqv : Connective := ⟨(· == ·), fun x y => ~~~(x ^^^ y)⟩

def imp : Connective := ⟨fun x y => !x || y, fun x y => ~~~x ||| y⟩

end Connective

def BinaryOp.connective? : BinaryOp → Option Connective
  | .and => some .and
  | .or => some .or
  | .xor => some .xor
  | .eqv => some .eqv
  | .imp => some .imp
  | _ => none

namespace Operator

theorem binary_eq_apply {op : BinaryOp} {c : Connective} (logical : op.connective? = some c)
    (mode : CompareMode) (a b : Value) : binary mode op a b = .ok (c.apply a b) := by
  have passes : passesNull op = true := by
    cases op <;> cases logical <;> rfl
  unfold binary
  rw [passes, Bool.true_and, Connective.apply]
  split
  · rfl
  · cases op <;> cases logical <;> rfl

theorem bits_ofBits (n : Int32) : bits (ofBits n) = n := Int32.toInt32_toInt64 n

theorem isNull_not (a : Value) : (unary .not a).isNull = a.isNull := by
  cases a <;> rfl

theorem isBool_not (a : Value) : (unary .not a).isBool = a.isBool := by
  cases a <;> rfl

theorem bits_not {a : Value} (notNull : a.isNull = false) : bits (unary .not a) = ~~~(bits a) := by
  cases a with
  | null => cases notNull
  | bool x => cases x <;> decide
  | _ => exact bits_ofBits _

variable {onBools : Bool → Bool → Bool} {onBits : Int32 → Int32 → Int32} {a b : Value}

theorem logical_of_mixed (mixed : ¬(a.isBool = true ∧ b.isBool = true)) :
    logical onBools onBits a b = ofBits (onBits (bits a) (bits b)) := by
  unfold logical
  split
  · exact absurd ⟨rfl, rfl⟩ mixed
  · rfl

end Operator

namespace Connective
open Operator

variable {a b : Value}

theorem apply_of_null (c : Connective) (null : (a.isNull || b.isNull) = true) :
    c.apply a b = .null := if_pos null

theorem apply_of_mixed (c : Connective) (live : ¬(a.isNull || b.isNull) = true)
    (mixed : ¬(a.isBool = true ∧ b.isBool = true)) :
    c.apply a b = ofBits (c.onBits (bits a) (bits b)) := by
  rw [apply, if_neg live]
  exact logical_of_mixed mixed

theorem readings (a b : Value) :
    (a.isNull || b.isNull) = true ∨ (∃ x y, a = .bool x ∧ b = .bool y) ∨
      ¬(a.isNull || b.isNull) = true ∧ ¬(a.isBool = true ∧ b.isBool = true) := by
  by_cases null : (a.isNull || b.isNull) = true
  · exact .inl null
  · by_cases bools : a.isBool = true ∧ b.isBool = true
    · cases a <;> cases bools.1
      cases b <;> cases bools.2
      exact .inr (.inl ⟨_, _, rfl, rfl⟩)
    · exact .inr (.inr ⟨null, bools⟩)

theorem logical_apply (c : Connective) (a b : Value) : (c.apply a b).Logical := by
  obtain null | ⟨x, y, rfl, rfl⟩ | ⟨live, mixed⟩ := readings a b
  · rw [c.apply_of_null null]
    exact .null
  · exact .bool _
  · rw [c.apply_of_mixed live mixed]
    exact .bits _

theorem not_apply (c : Connective) (a b : Value) :
    unary .not (c.apply a b) = c.negated.apply a b := by
  obtain null | ⟨x, y, rfl, rfl⟩ | ⟨live, mixed⟩ := readings a b
  · rw [c.apply_of_null null, c.negated.apply_of_null null, unary_null]
  · rfl
  · rw [c.apply_of_mixed live mixed, c.negated.apply_of_mixed live mixed]
    exact congrArg (fun n => ofBits (~~~n)) (bits_ofBits _)

theorem apply_not_left (c : Connective) (a b : Value) :
    c.apply (unary .not a) b = c.notLeft.apply a b := by
  obtain null | ⟨x, y, rfl, rfl⟩ | ⟨live, mixed⟩ := readings a b
  · rw [c.notLeft.apply_of_null null, apply_of_null]
    rw [isNull_not, null]
  · rfl
  · -- `Not` keeps the reading, since it keeps null and truth values what they are
    have notNull : a.isNull = false := by
      rw [Bool.or_eq_true, not_or] at live
      exact Bool.eq_false_iff.mpr live.1
    rw [c.notLeft.apply_of_mixed live mixed, apply_of_mixed, bits_not notNull]
    · rfl
    · rw [isNull_not]
      exact live
    · rw [isBool_not]
      exact mixed

theorem apply_swap (c : Connective) (a b : Value) : c.apply b a = c.swapped.apply a b := by
  obtain null | ⟨x, y, rfl, rfl⟩ | ⟨live, mixed⟩ := readings a b
  · rw [c.swapped.apply_of_null null, apply_of_null]
    rw [Bool.or_comm, null]
  · rfl
  · rw [c.swapped.apply_of_mixed live mixed, apply_of_mixed]
    · rfl
    · rw [Bool.or_comm]
      exact live
    · rw [and_comm]
      exact mixed

theorem apply_not_right (c : Connective) (a b : Value) :
    c.apply a (unary .not b) = c.notRight.apply a b := by
  rw [apply_swap, apply_not_left, apply_swap]
  rfl

theorem negated_and : and.negated = or.notRight.notLeft := by
  simp only [negated, notLeft, notRight, swapped, and, or, Connective.mk.injEq]
  constructor
  · funext x y
    exact Bool.not_and x y
  · funext x y
    exact Int32.toBitVec_inj.mp BitVec.not_and

theorem negated_or : or.negated = and.notRight.notLeft := by
  simp only [negated, notLeft, notRight, swapped, and, or, Connective.mk.injEq]
  constructor
  · funext x y
    exact Bool.not_or x y
  · funext x y
    exact Int32.toBitVec_inj.mp BitVec.not_or

theorem negated_xor : xor.negated = eqv := by
  simp only [negated, xor, eqv, Connective.mk.injEq, and_true]
  funext x y
  cases x <;> cases y <;> rfl

theorem notLeft_or : or.notLeft = imp := rfl

theorem swapped_and : and.swapped = and := by
  simp only [swapped, and, Connective.mk.injEq]
  exact ⟨funext₂ fun x y => Bool.and_comm y x, funext₂ fun x y => Int32.and_comm y x⟩

theorem swapped_or : or.swapped = or := by
  simp only [swapped, or, Connective.mk.injEq]
  exact ⟨funext₂ fun x y => Bool.or_comm y x, funext₂ fun x y => Int32.or_comm y x⟩

theorem swapped_xor : xor.swapped = xor := by
  simp only [swapped, xor, Connective.mk.injEq]
  exact ⟨funext₂ fun x y => Bool.xor_comm y x, funext₂ fun x y => Int32.xor_comm y x⟩

theorem swapped_eqv : eqv.swapped = eqv := by
  rw [← negated_xor]
  exact congrArg negated swapped_xor

/-- The negation of a connective is its dual on the negated operands. -/
theorem not_apply_of_dual {c d : Connective} (dual : c.negated = d.notRight.notLeft) (a b : Value) :
    unary .not (c.apply a b) = d.apply (unary .not a) (unary .not b) := by
  rw [not_apply, dual, apply_not_right, apply_not_left]

theorem apply_comm {c : Connective} (symmetric : c.swapped = c) (a b : Value) :
    c.apply a b = c.apply b a := by
  rw [apply_swap c a b, symmetric]

end Connective

namespace Operator

theorem logical_not (a : Value) : (unary .not a).Logical := by
  cases a with
  | null => exact .null
  | bool x => exact .bool _
  | _ => exact .bits _

/-- `Not`, `And`, `Or`, `Xor`, `Eqv` and `Imp` obey the laws of logic on operands of any kinds, and
what they yield is a truth value, a word of thirty-two bits or null. -/
theorem logical_duality (mode : CompareMode) (a b : Value) :
    (binary mode .and a b).map (unary .not) = binary mode .or (unary .not a) (unary .not b) ∧
    (binary mode .or a b).map (unary .not) = binary mode .and (unary .not a) (unary .not b) ∧
    binary mode .eqv a b = (binary mode .xor a b).map (unary .not) ∧
    binary mode .imp a b = binary mode .or (unary .not a) b ∧
    (∀ op ∈ [BinaryOp.and, .or, .xor, .eqv], binary mode op a b = binary mode op b a) ∧
    (unary .not a).Logical ∧
    ∀ op ∈ [BinaryOp.and, .or, .xor, .eqv, .imp],
      ∃ v, binary mode op a b = .ok v ∧ v.Logical := by
  have yields {op : BinaryOp} {c : Connective} (logical : op.connective? = some c) :=
    binary_eq_apply logical mode
  have commutes {op : BinaryOp} {c : Connective} (logical : op.connective? = some c)
      (symmetric : c.swapped = c) : binary mode op a b = binary mode op b a := by
    rw [yields logical, yields logical, Connective.apply_comm symmetric]
  have ends {op : BinaryOp} {c : Connective} (logical : op.connective? = some c) :
      ∃ v, binary mode op a b = .ok v ∧ v.Logical :=
    ⟨_, yields logical a b, c.logical_apply a b⟩
  refine ⟨?_, ?_, ?_, ?_, ?_, logical_not a, ?_⟩
  · rw [yields rfl, yields rfl, ← Connective.not_apply_of_dual Connective.negated_and]
    rfl
  · rw [yields rfl, yields rfl, ← Connective.not_apply_of_dual Connective.negated_or]
    rfl
  · rw [yields rfl, yields rfl, ← Connective.negated_xor, ← Connective.not_apply]
    rfl
  · rw [yields rfl, yields rfl, Connective.apply_not_left, Connective.notLeft_or]
  · simp only [List.forall_mem_cons]
    exact ⟨commutes rfl Connective.swapped_and, commutes rfl Connective.swapped_or,
      commutes rfl Connective.swapped_xor, commutes rfl Connective.swapped_eqv, nofun⟩
  · simp only [List.forall_mem_cons]
    exact ⟨ends rfl, ends rfl, ends rfl, ends rfl, ends rfl, nofun⟩

theorem truth_value_and_word :
    binary .text .and (.bool true) (.integer 0x100000006) =
      binary .text .and (.integer 0x100000006) (.bool true) ∧
    ∃ v, binary .text .imp (.bool true) (.integer 0x100000006) = .ok v ∧ v.Logical := by
  have laws := logical_duality .text (.bool true) (.integer 0x100000006)
  exact ⟨laws.2.2.2.2.1 .and (by simp), laws.2.2.2.2.2.2 .imp (by simp)⟩

end Operator
end ServerScript
