import ServerScript.Eval.Statement
import ServerScript.Proofs.Computation
import ServerScript.Proofs.JsonText
import ServerScript.Proofs.SmallForms
import ServerScript.Proofs.WordDouble

/-! How whole numbers compare. Equality and order read both sides as doubles, so two words compare
as the doubles nearest to them do: an order is never turned round, but words that share a nearest
double are taken for equal. -/
namespace ServerScript

open Number (nearest)

def BinaryOp.accepts? : BinaryOp → Option (Ordering → Bool)
  | .eq => some Ordering.isEq
  | .ne => some Ordering.isNe
  | .lt => some Ordering.isLT
  | .le => some Ordering.isLE
  | .gt => some Ordering.isGT
  | .ge => some Ordering.isGE
  | _ => none

namespace Text

theorem lower_toString (n : Int) : lower (toString n) = toString n := by
  have plain : ∀ code < 58, isCapital (Char.ofNat code) = false ∧
      isTitleCase (Char.ofNat code) = false := by decide
  refine lower_eq_self fun c member => ?_
  have below : c.toNat < 58 := by
    rw [Json.toList_toString, List.mem_append] at member
    rcases member with sign | digit
    · obtain rfl : c = '-' := by
        split at sign
        · exact List.mem_singleton.mp sign
        · cases sign
      decide
    · have digit := Nat.isDigit_of_mem_toDigits (by omega) (by omega) digit
      simp only [Char.isDigit, ge_iff_le, Bool.and_eq_true, decide_eq_true_eq] at digit
      exact Nat.lt_succ_of_le digit.2
  rw [← Char.ofNat_toNat c]
  exact plain c.toNat below

end Text

theorem sameText_toString {mode : CompareMode} {a b : Int} :
    sameText mode (toString a) (toString b) = true ↔ a = b := by
  have written : toString a = toString b ↔ a = b := Int.repr_inj
  cases mode
  · rw [sameText, beq_iff_eq, written]
  · rw [sameText, Text.lower_toString, Text.lower_toString, beq_iff_eq, written]

def exactly (a b : Int64) : Ordering := compare a.toInt b.toInt

/-- The order of the doubles nearest to two words. -/
def asDoubles (a b : Int64) : Ordering := compare (nearest a.toInt) (nearest b.toInt)

/-- The comparisons of whole numbers go by an order: on the words of a set, each of them answers
what it asks of the order of the two. -/
structure ComparesBy (mode : CompareMode) (order : Int64 → Int64 → Ordering) (words : Set Int64) :
    Prop where
  equal : ∀ a ∈ words, ∀ b ∈ words,
    Value.looseEq mode (.integer a) (.integer b) = (order a b).isEq
  less : ∀ a ∈ words, ∀ b ∈ words, Value.less mode (.integer a) (.integer b) = (order a b).isLT
  operator : ∀ a ∈ words, ∀ b ∈ words, ∀ op accepts, BinaryOp.accepts? op = some accepts →
    Operator.binary mode op (.integer a) (.integer b) = .ok (.bool (accepts (order a b)))
  valueCase : ∀ a ∈ words, ∀ b ∈ words, ∀ (ev : Interpreter) e m m',
    (ev.expr e).exec m = (.ok (.integer b), m') →
    (Interpreter.caseHolds ev mode (.integer a) (.value e)).exec m = (.ok (order a b).isEq, m')
  rangeCase : ∀ a ∈ words, ∀ b ∈ words, ∀ c ∈ words, ∀ (ev : Interpreter) low high m m₁ m',
    (ev.expr low).exec m = (.ok (.integer b), m₁) →
    (ev.expr high).exec m₁ = (.ok (.integer c), m') →
    (Interpreter.caseHolds ev mode (.integer a) (.range low high)).exec m =
      (.ok ((order b a).isLE && (order a c).isLE), m')
  isCase : ∀ a ∈ words, ∀ b ∈ words, ∀ (ev : Interpreter) op accepts e m m',
    BinaryOp.accepts? op = some accepts → (ev.expr e).exec m = (.ok (.integer b), m') →
    (Interpreter.caseHolds ev mode (.integer a) (.is op e)).exec m =
      (.ok (accepts (order a b)), m')

namespace ComparesBy

variable {mode : CompareMode} {order order' : Int64 → Int64 → Ordering} {words : Set Int64}

theorem of_equal_less (swap : ∀ a b, order b a = (order a b).swap)
    (equal : ∀ a ∈ words, ∀ b ∈ words,
      Value.looseEq mode (.integer a) (.integer b) = (order a b).isEq)
    (less : ∀ a ∈ words, ∀ b ∈ words,
      Value.less mode (.integer a) (.integer b) = (order a b).isLT) :
    ComparesBy mode order words := by
  have operator : ∀ a ∈ words, ∀ b ∈ words, ∀ op accepts, BinaryOp.accepts? op = some accepts →
      Operator.binary mode op (.integer a) (.integer b) = .ok (.bool (accepts (order a b))) := by
    intro a inA b inB op accepts asks
    have same := equal a inA b inB
    have before := less a inA b inB
    have after := less b inB a inA
    rw [swap a b] at after
    cases op <;> cases asks <;>
      simp only [Operator.binary, Operator.passesNull, Value.isNull, same, before, after] <;>
      cases order a b <;> rfl
  refine ⟨equal, less, operator, ?_, ?_, ?_⟩
  · intro a inA b inB ev e m m' evaluated
    rw [Interpreter.caseHolds, Run.exec_bind_ok evaluated, equal a inA b inB]
    rfl
  · intro a inA b inB c inC ev low high m m₁ m' first second
    rw [Interpreter.caseHolds, Run.exec_bind_ok first, Run.exec_bind_ok second, less a inA b inB,
      less c inC a inA, swap b a, swap a c]
    cases order b a <;> cases order a c <;> rfl
  · intro a inA b inB ev op accepts e m m' asks evaluated
    rw [Interpreter.caseHolds, Run.exec_bind_ok evaluated, operator a inA b inB op accepts asks]
    cases accepts (order a b) <;> rfl

theorem congr (compares : ComparesBy mode order words)
    (swap : ∀ a b, order' b a = (order' a b).swap)
    (same : ∀ a ∈ words, ∀ b ∈ words, order a b = order' a b) : ComparesBy mode order' words := by
  refine of_equal_less swap (fun a inA b inB => ?_) fun a inA b inB => ?_
  · rw [← same a inA b inB]
    exact compares.equal a inA b inB
  · rw [← same a inA b inB]
    exact compares.less a inA b inB

end ComparesBy

theorem exactly_swap (a b : Int64) : exactly b a = (exactly a b).swap :=
  Std.OrientedOrd.eq_swap

theorem asDoubles_swap (a b : Int64) : asDoubles b a = (asDoubles a b).swap :=
  Std.OrientedOrd.eq_swap

theorem isEq_exactly {a b : Int64} : (exactly a b).isEq = true ↔ a = b := by
  rw [exactly, Ordering.isEq_iff_eq_eq, compare_eq_iff_eq, Int64.toInt_inj]

theorem isEq_asDoubles {a b : Int64} :
    (asDoubles a b).isEq = true ↔ nearest a.toInt = nearest b.toInt := by
  rw [asDoubles, Ordering.isEq_iff_eq_eq, compare_eq_iff_eq]

theorem isLT_asDoubles {a b : Int64} :
    (asDoubles a b).isLT = true ↔ nearest a.toInt < nearest b.toInt := by
  rw [asDoubles, Ordering.isLT_iff_eq_lt, compare_lt_iff_lt]

theorem asDoubles_eq_exactly {a b : Int64} :
    asDoubles a b = exactly a b ∨ asDoubles a b = .eq := by
  rw [asDoubles, exactly]
  rcases lt_trichotomy a.toInt b.toInt with before | same | after
  · rw [compare_lt_iff_lt.mpr before, compare_lt_iff_lt, compare_eq_iff_eq]
    exact lt_or_eq_of_le (Number.nearest_mono before.le)
  · rw [same]
    exact .inr (compare_eq_iff_eq.mpr rfl)
  · rw [compare_gt_iff_gt.mpr after, compare_gt_iff_gt, compare_eq_iff_eq]
    exact (lt_or_eq_of_le (Number.nearest_mono after.le)).imp_right Eq.symm

theorem looseEq_integer {mode : CompareMode} {a b : Int64} :
    Value.looseEq mode (.integer a) (.integer b) = (asDoubles a b).isEq := by
  have numbers : Value.sameNumber (.integer a) (.integer b) = true ↔
      nearest a.toInt = nearest b.toInt :=
    (Number.denotes_ofWord a).beq_iff (Number.denotes_ofWord b)
  have texts : sameText mode (Value.toText (.integer a)) (Value.toText (.integer b)) = true ↔
      a.toInt = b.toInt := sameText_toString
  have mixed : Value.looseEq mode (.integer a) (.integer b) =
      (sameText mode (Value.toText (.integer a)) (Value.toText (.integer b)) ||
        Value.sameNumber (.integer a) (.integer b)) := rfl
  rw [Bool.eq_iff_iff, isEq_asDoubles, mixed, Bool.or_eq_true, texts, numbers]
  exact or_iff_right_of_imp fun same => congrArg nearest same

theorem less_integer {mode : CompareMode} {a b : Int64} :
    Value.less mode (.integer a) (.integer b) = (asDoubles a b).isLT := by
  rw [Bool.eq_iff_iff, isLT_asDoubles]
  exact decide_eq_true_iff.trans
    ((Number.denotes_ofWord a).lt_iff (Number.denotes_ofWord b))

theorem comparesBy_asDoubles (mode : CompareMode) (words : Set Int64) :
    ComparesBy mode asDoubles words :=
  .of_equal_less asDoubles_swap (fun _ _ _ _ => looseEq_integer) fun _ _ _ _ => less_integer

theorem comparesBy_exactly_iff {mode : CompareMode} {words : Set Int64} :
    ComparesBy mode exactly words ↔ Set.InjOn (fun w => nearest w.toInt) words := by
  constructor
  · intro exact a inA b inB same
    have equal := (exact.equal a inA b inB).symm.trans looseEq_integer
    exact isEq_exactly.mp (equal.trans (isEq_asDoubles.mpr same))
  · intro apart
    refine (comparesBy_asDoubles mode words).congr exactly_swap fun a inA b inB => ?_
    refine asDoubles_eq_exactly.elim id fun level => ?_
    have same : a = b := apart inA inB (compare_eq_iff_eq.mp level)
    rw [level, same]
    exact (compare_eq_iff_eq.mpr rfl).symm

/-- Words compare as the doubles nearest to them. The comparisons are exact on the words of a set
precisely if no two of them share their nearest double, as none do up to 53 bits, and no order is
turned round. -/
theorem words_compare_as_doubles (mode : CompareMode) :
    ComparesBy mode asDoubles Set.univ ∧
    (∀ words, ComparesBy mode exactly words ↔ Set.InjOn (fun w => nearest w.toInt) words) ∧
    ComparesBy mode exactly {w | w.toInt.natAbs ≤ 2 ^ 53} ∧
    ∀ a b, asDoubles a b = exactly a b ∨ asDoubles a b = .eq := by
  refine ⟨comparesBy_asDoubles mode _, fun _ => comparesBy_exactly_iff, ?_,
    fun _ _ => asDoubles_eq_exactly⟩
  refine comparesBy_exactly_iff.mpr fun a small b small' same => ?_
  rw [← Int64.toInt_inj, ← Number.nearest_of_le small, ← Number.nearest_of_le small']
  exact same

/-- Two to the 53rd and its successor share their nearest double. -/
theorem equal_beyond_doubles :
    ¬∀ mode a b, (Value.looseEq mode (.integer a) (.integer b) = true ↔ a = b) ∧
      (Value.less mode (.integer a) (.integer b) = true ↔ a.toInt < b.toInt) := by
  intro exact
  have equal : Value.looseEq .binary (.integer 9007199254740992) (.integer 9007199254740993) =
      true := by decide +kernel
  exact absurd ((exact .binary 9007199254740992 9007199254740993).1.mp equal) (by decide)

end ServerScript
