import ServerScript.Proofs.World
import ServerScript.Eval.Interpreter

/-! Functions that only answer. Their answers refer to nothing, so that they may be used anywhere,
and none of them runs out of steps. -/
namespace ServerScript

variable {p : Policy}

/-- Values that refer to nothing: neither to an array, an object or an instance nor to code. -/
def Value.Simple : Value → Prop
  | .array _ | .object _ | .inst .. | .callable .. => False
  | _ => True

theorem Value.Simple.value {v : Value} (simple : v.Simple) : p.value v := by
  cases v with
  | inst | callable => exact simple.elim
  | _ => trivial

theorem simple_builtinConstants : ∀ e ∈ builtinConstants, e.2.Simple := by
  intro e member
  rcases List.mem_append.mp member with member | member
  · obtain ⟨entry, -, rfl⟩ := List.mem_map.mp member
    trivial
  · obtain ⟨entry, -, rfl⟩ := List.mem_map.mp member
    trivial

namespace Ends

variable {Q : α → Prop} {R : β → Prop}

theorem bind {x : Except Stop α} {f : α → Except Stop β} (first : Ends p Q x)
    (next : ∀ a, Q a → Ends p R (f a)) : Ends p R (x >>= f) := by
  cases x with
  | ok a => exact next a first
  | error s => exact first

theorem refuse (e : EvalError) : Ends p Q (Function.refuse e) := nofun

theorem ite {c : Prop} [Decidable c] {x y : Except Stop α} (yes : Ends p Q x)
    (no : Ends p Q y) : Ends p Q (if c then x else y) := by
  split
  · exact yes
  · exact no

theorem ofFaultOr (r : Except Fault α) : Ends p (fun _ => True) (Function.ofFaultOr r) := by
  cases r with
  | ok a => trivial
  | error f => exact nofun

theorem count (n : Int64) (name : String) : Ends p (fun _ => True) (Function.count n name) :=
  ite (refuse _) trivial

theorem positionFrom (n : Int64) (name : String) :
    Ends p (fun _ => True) (Function.positionFrom n name) := ite (refuse _) trivial

theorem passNull {f : List Value → Function.Answer} {args : List Value}
    (answers : Ends p Value.Simple (f args)) : Ends p Value.Simple (Function.passNull f args) :=
  ite trivial answers

end Ends

namespace Function

def Answers (p : Policy) (f : List Value → Answer) : Prop := ∀ args, Ends p Value.Simple (f args)

theorem ends_dateArg (args : List Value) (index : Nat) (name : String) :
    Ends p (fun _ => True) (dateArg args index name) := by
  rw [dateArg]
  split
  · trivial
  · exact .refuse _

theorem ends_intervalArg (args : List Value) (name : String) :
    Ends p (fun _ => True) (intervalArg args name) := .ite (.refuse _) trivial

theorem ends_ofMoment? (t : Option Calendar.Moment) (name : String) :
    Ends p Value.Simple (ofMoment? t name) := by
  cases t with
  | none => exact .refuse _
  | some t => trivial

theorem answers_component (name : String) (part : Calendar.Moment → Int) :
    Answers p (component name part) := by
  intro args
  exact .passNull (.bind (ends_dateArg args 0 name) fun moment _ => trivial)

theorem answers_weekday : Answers p weekday := by
  intro args
  exact .bind (ends_dateArg args 0 _) fun moment _ => trivial

theorem answers_weekdayName : Answers p weekdayName := fun _ => .ite trivial (.refuse _)

theorem answers_monthName : Answers p monthName := by
  intro args
  refine .bind (.ofFaultOr _) fun index _ => ?_
  split
  · trivial
  · exact .refuse _

theorem answers_dateSerial : Answers p dateSerial := by
  intro args
  exact .bind (.ofFaultOr _) fun moment _ => ends_ofMoment? moment _

theorem answers_timeSerial : Answers p timeSerial := fun _ => ends_ofMoment? _ _

theorem answers_dateAdd : Answers p dateAdd := by
  intro args
  refine .bind (ends_intervalArg args _) fun interval _ => ?_
  exact .bind (ends_dateArg args 2 _) fun moment _ => ends_ofMoment? _ _

theorem answers_dateDiff : Answers p dateDiff := by
  intro args
  refine .bind (ends_intervalArg _ _) fun interval _ => .bind (ends_dateArg _ _ _) fun _ _ =>
    .bind (ends_dateArg _ _ _) fun _ _ => ?_
  cases interval with
  | none => exact .refuse _
  | some interval => exact .bind (.ofFaultOr _) fun _ _ => trivial

theorem answers_datePart : Answers p datePart := by
  intro args
  refine .bind (ends_intervalArg _ _) fun interval _ => .bind (ends_dateArg _ _ _) fun _ _ => ?_
  cases interval with
  | none => exact .refuse _
  | some interval => trivial

theorem answers_formatDateTime : Answers p formatDateTime := by
  intro args
  refine .bind (ends_dateArg _ _ _) fun t _ => ?_
  split
  all_goals first | trivial | exact .refuse _

theorem answers_cDate : Answers p cDate := by
  intro args
  exact .bind (ends_dateArg args 0 _) fun moment _ => trivial

theorem answers_cStr : Answers p cStr := fun _ => .ite (.refuse _) trivial

theorem answers_toRange (name : String) (low high : Int) : Answers p (toRange name low high) := by
  intro args
  exact .ite (.refuse _) (.ite (.refuse _) trivial)

theorem answers_toDouble (name : String) : Answers p (toDouble name) := by
  intro args
  rw [toDouble]
  split
  · trivial
  · exact .refuse _

theorem answers_cBool : Answers p cBool := by
  intro args
  rw [cBool]
  split
  · trivial
  · refine .ite trivial (.ite trivial ?_)
    dsimp only
    split
    · trivial
    · exact .refuse _
  · dsimp only
    split
    · trivial
    · exact .refuse _

theorem answers_inRadix (radix : Nat) : Answers p (inRadix radix) := fun _ => .passNull trivial

theorem answers_onFloat (f : Float → Float) : Answers p (onFloat f) := by
  refine fun args => .passNull ?_
  split <;> trivial

theorem answers_abs : Answers p abs := by
  refine fun args => .passNull ?_
  split
  · split <;> trivial
  · trivial

theorem answers_sgn : Answers p sgn := fun _ => .passNull trivial

theorem answers_round : Answers p round := by
  intro args
  exact .passNull (.ite (.refuse _) (answers_onFloat _ args))

theorem answers_sqr : Answers p sqr := fun _ => .passNull (.ite (.refuse _) trivial)

theorem answers_formatNumber : Answers p formatNumber := by
  intro args
  exact .ite (.refuse _) (.ite nofun trivial)

theorem answers_len : Answers p len := fun _ => .passNull trivial

theorem answers_left : Answers p left := by
  intro args
  exact .passNull (.bind (.count _ _) fun length _ => trivial)

theorem answers_right : Answers p right := by
  intro args
  exact .passNull (.bind (.count _ _) fun length _ => trivial)

theorem answers_mid : Answers p mid := by
  refine fun args => .passNull (.bind (.positionFrom _ _) fun start _ => ?_)
  exact .ite trivial (.bind (.count _ _) fun length _ => trivial)

theorem answers_onText (f : String → String) : Answers p (onText f) := fun _ => .passNull trivial

theorem answers_inStr : Answers p inStr := by
  intro args
  exact .ite trivial (.bind (.positionFrom _ _) fun start _ => trivial)

theorem answers_inStrRev : Answers p inStrRev := by
  intro args
  have stop : ∀ n length, Ends p (fun _ => True) (inStrRevStop n length) := fun _ _ =>
    .ite trivial (.ite (.refuse _) trivial)
  refine .ite trivial (.bind (stop _ _) fun _ _ => .ite trivial ?_)
  split <;> trivial

theorem answers_replace : Answers p replace := by
  intro args
  exact .passNull (.bind (.positionFrom _ _) fun start _ => trivial)

theorem answers_space : Answers p space := by
  intro args
  exact .bind (.count _ _) fun length _ => trivial

theorem answers_string : Answers p string := by
  refine fun args => .bind (.count _ _) fun _ _ => ?_
  split
  · trivial
  · exact .refuse _

theorem answers_strComp : Answers p strComp := fun _ => .ite trivial trivial

theorem answers_asc : Answers p asc := by
  intro args
  rw [asc]
  split
  · trivial
  · exact .refuse _

theorem answers_chr : Answers p chr := by
  intro args
  rw [chr]
  split
  · trivial
  · exact .refuse _

end Function
end ServerScript
