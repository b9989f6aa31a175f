import ServerScript.Value.Compare

/-! The laws of loose comparison. Equality is reflexive and symmetric and the order is asymmetric,
on values of all kinds and in both modes. References are told apart by identity only where two
objects, two instances or two arrays are compared; all others go by their texts. -/
namespace ServerScript

namespace Number
open Float.Model

theorem compare_swap (u v : UnpackedFloat) : v.compare u = (u.compare v).map Ordering.swap := by
  have magnitudes (m m' : Nat) (e e' : Int) :
      (compare e' e).then (compare m' m) = ((compare e e').then (compare m m')).swap := by
    rw [Ordering.swap_then, ← Std.OrientedOrd.eq_swap, ← Std.OrientedOrd.eq_swap]
  cases u with
  | notANumber => cases v <;> rfl
  | infinity s =>
    cases v with
    | infinity s' => cases s <;> cases s' <;> rfl
    | _ => cases s <;> rfl
  | zero s =>
    cases v with
    | finite s' => cases s' <;> rfl
    | infinity s' => cases s' <;> rfl
    | _ => rfl
  | finite s m e =>
    cases v with
    | notANumber => rfl
    | infinity s' => cases s' <;> rfl
    | zero s' => cases s <;> rfl
    | finite s' m' e' =>
      cases s with
      | negative =>
        cases s' with
        | negative => exact congrArg (some ·.swap) (magnitudes m m' e e')
        | positive => rfl
      | positive =>
        cases s' with
        | negative => rfl
        | positive => exact congrArg some (magnitudes m m' e e')

theorem beq_double_comm (x y : Float) : (x == y) = (y == x) := by
  change (x.toModel.unpack.compare y.toModel.unpack == some .eq) =
    (y.toModel.unpack.compare x.toModel.unpack == some .eq)
  rw [compare_swap x.toModel.unpack]
  rcases x.toModel.unpack.compare y.toModel.unpack with _ | _ | _ | _ <;> rfl

theorem lt_double_asymm {x y : Float} (less : x < y) : ¬y < x := by
  have reading (x y : Float) :
      x < y ↔ (x.toModel.unpack.compare y.toModel.unpack == some .lt) = true := decide_eq_true_iff
  rw [reading] at less ⊢
  rw [compare_swap x.toModel.unpack, eq_of_beq less]
  decide

end Number

theorem textBefore_asymm {mode : CompareMode} {a b : String} (before : textBefore mode a b = true) :
    textBefore mode b a = false := by
  cases mode <;> exact decide_eq_false (String.lt_asymm (of_decide_eq_true before))

inductive Kind where
  | empty | null | nothing | bool | integer | float | string | array | object | inst | callable
  deriving DecidableEq

def Kind.hasRule : Kind → Bool
  | .empty | .integer | .float | .callable => false
  | _ => true

namespace Value

def kind : Value → Kind
  | empty => .empty
  | null => .null
  | nothing => .nothing
  | bool _ => .bool
  | integer _ => .integer
  | float _ => .float
  | string _ => .string
  | array _ => .array
  | object _ => .object
  | inst .. => .inst
  | callable .. => .callable

/-- `Null` and `Nothing`, which equal themselves only. -/
def isAbsent : Value → Bool
  | null | nothing => true
  | _ => false

variable {mode : CompareMode} {a b : Value}

theorem looseEq_of_no_rule (mixed : a.kind = b.kind → a.kind.hasRule = false) :
    looseEq mode a b =
      (!(a.isAbsent || b.isAbsent) && (sameText mode a.toText b.toText || sameNumber a b)) := by
  cases a <;> cases b <;> first | rfl | cases mixed rfl

theorem sameNumber_comm (a b : Value) : sameNumber a b = sameNumber b a := by
  unfold sameNumber
  cases a.toNumeric? <;> cases b.toNumeric? <;> first | rfl | exact Number.beq_double_comm _ _

theorem looseEq_refl (mode : CompareMode) (a : Value) : looseEq mode a a = true := by
  cases a with
  | null => rfl
  | nothing => rfl
  | bool x => exact beq_self_eq_true x
  | string s => exact sameText_refl mode s
  | array cell => exact beq_self_eq_true cell
  | object ref => exact ref.same_refl
  | inst cell => exact beq_self_eq_true cell
  | empty | integer | float | callable =>
    rw [looseEq_of_no_rule fun _ => rfl, sameText_refl]
    rfl

theorem looseEq_comm (mode : CompareMode) (a b : Value) :
    looseEq mode a b = looseEq mode b a := by
  by_cases rule : a.kind = b.kind ∧ a.kind.hasRule = true
  · -- the seven kinds with a rule are left, each beside itself
    obtain ⟨same, rule⟩ := rule
    cases a <;> cases b <;> cases same <;> cases rule <;>
      first
      | rfl
      | exact BEq.comm
      | exact sameText_comm ..
      | exact ObjectRef.same_comm ..
  · have mixed (same : a.kind = b.kind) : a.kind.hasRule = false :=
      Bool.eq_false_iff.mpr fun has => rule ⟨same, has⟩
    rw [looseEq_of_no_rule mixed, looseEq_of_no_rule fun same => same ▸ mixed same.symm,
      Bool.or_comm a.isAbsent, sameText_comm, sameNumber_comm]

theorem less_asymm (before : less mode a b = true) : less mode b a = false := by
  unfold less at before ⊢
  cases left : a.toNumeric? <;> cases right : b.toNumeric? <;>
    simp only [left, right] at before ⊢
  case some.some x y => exact decide_eq_false (Number.lt_double_asymm (of_decide_eq_true before))
  all_goals exact textBefore_asymm before

/-- Equality of values of any kinds is reflexive and symmetric, and the order is asymmetric. -/
theorem loose_comparison_laws (mode : CompareMode) (a b : Value) :
    looseEq mode a a = true ∧ looseEq mode a b = looseEq mode b a ∧
      (less mode a b = true → less mode b a = false) :=
  ⟨looseEq_refl mode a, looseEq_comm mode a b, less_asymm⟩

theorem nine_before_ten :
    less .text (.string "9") (.integer 10) = true ∧ less .text (.integer 10) (.string "9") = false :=
  have before : less .text (.string "9") (.integer 10) = true := by decide +kernel
  ⟨before, (loose_comparison_laws .text (.string "9") (.integer 10)).2.2 before⟩

section References

/-- Whether the value is a reference, to a cell or to a declaration. -/
def isReference : Value → Bool
  | array _ | object _ | inst .. | callable .. => true
  | _ => false

/-- Whether two values are one reference. `Is` knows no declarations; these are the same if they
are stored under one number. -/
def identical : Value → Value → Bool
  | callable a _, callable b _ => a == b
  | a, b => a.sameReference b

theorem identical_of_kind_ne (differ : a.kind ≠ b.kind) : a.identical b = false := by
  cases a <;> cases b <;> first | exact absurd rfl differ | rfl

theorem sameNumber_of_isReference (reference : a.isReference = true) : sameNumber a b = false := by
  cases a <;> first | rfl | cases reference

theorem isAbsent_of_isReference (reference : a.isReference = true) : a.isAbsent = false := by
  cases a <;> first | rfl | cases reference

theorem looseEq_of_same_kind (reference : a.isReference = true) (same : a.kind = b.kind)
    (stored : a.kind ≠ .callable) : looseEq mode a b = a.identical b := by
  cases a <;> cases reference <;> cases b <;> cases same
  · rfl
  · rfl
  · rfl
  · exact absurd rfl stored

theorem looseEq_of_callable (left : a.kind = .callable) (right : b.kind = .callable) :
    looseEq mode a b = true := by
  cases a <;> cases left
  cases b <;> cases right
  rw [looseEq_of_no_rule fun _ => rfl]
  exact Bool.or_eq_true_iff.mpr (.inl (sameText_refl mode _))

theorem looseEq_of_kind_ne (left : a.isReference = true) (right : b.isReference = true)
    (differ : a.kind ≠ b.kind) : looseEq mode a b = sameText mode a.toText b.toText := by
  rw [looseEq_of_no_rule fun same => absurd same differ, isAbsent_of_isReference left,
    isAbsent_of_isReference right, sameNumber_of_isReference left, Bool.or_false, Bool.or_false]
  exact Bool.true_and _

/-- Two references are compared by identity if both are objects, instances or arrays. Two
declarations are always equal. References of different kinds, which are never one, compare by their
texts: that of an array is empty, that of an instance names its class, and others name a kind. -/
theorem references_compare_by_kind (mode : CompareMode) {a b : Value}
    (left : a.isReference = true) (right : b.isReference = true) :
    (a.kind = b.kind → a.kind ≠ .callable → looseEq mode a b = a.identical b) ∧
    (a.kind = .callable → b.kind = .callable → looseEq mode a b = true) ∧
    (a.kind ≠ b.kind →
      a.identical b = false ∧ looseEq mode a b = sameText mode a.toText b.toText) := by
  refine ⟨looseEq_of_same_kind left, looseEq_of_callable, fun differ => ?_⟩
  exact ⟨identical_of_kind_ne differ, looseEq_of_kind_ne left right differ⟩

def namesake : Value := .inst 0 { name := "Dictionary" }

theorem namesake_compared_by_text :
    namesake.identical (.object (.dictionary 0)) = false ∧
      looseEq .text namesake (.object (.dictionary 0)) = sameText .text "Dictionary" "Dictionary" :=
  (references_compare_by_kind .text rfl rfl).2.2 (by decide)

/-- A dictionary and its namesake are two references, and equal. -/
theorem different_references_equal :
    ¬∀ mode (a b : Value), a.isReference = true → b.isReference = true →
      (looseEq mode a b = true ↔ a.identical b = true) := by
  intro byIdentity
  have compared := byIdentity .binary namesake (.object (.dictionary 0)) rfl rfl
  have equal : looseEq .binary namesake (.object (.dictionary 0)) = true := by decide
  cases compared.mp equal

end References

end Value
end ServerScript
