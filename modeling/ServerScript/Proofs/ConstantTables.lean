import Mathlib.Data.List.Forall2
import Mathlib.Tactic.IntervalCases
import ServerScript.Proofs.Names

/-! Constants and variables under any sequence of operations on the names. Every operation checks
other tables before it writes: an assignment looks for a constant everywhere, a declaration in the
place it declares to, a constant at both tables of its place. What they have in common is what they
can do to one level, which is a frame or the place outside of procedures: nothing, one variable
whose name is no constant there, one constant whose name is free there, or the loss of all
variables. -/
namespace ServerScript

/-- The operations on the names. A write says which objects it finds. -/
inductive ScopeCall where
  | push
  | pop
  | assign (objects : Heap) (name : Name) (value : Value)
  | writeBack (objects : Heap) (name : Name) (value : Value)
  | define (name : Name) (value : Value)
  | declare (name : Name) (value : Value)
  | constant (name : Name) (value : Value)
  /-- The host provides a global. -/
  | provide (name : Name) (value : Value)
  | clearGlobals
  | setMe (me : Option InstanceRef)

/-- A place for names: outside of procedures, or a frame, counted from the outermost one. -/
inductive Level where
  | top
  | frame (number : Nat)

inductive Scope.Update (scope : Scope) : Scope → Prop
  | same : Update scope scope
  | store (name : Name) (v : Value) : lookupName name scope.constants = none →
      Update scope { scope with locals := putName name v scope.locals }
  | fix (name : Name) (v : Value) : lookupName name scope.constants = none →
      lookupName name scope.locals = none →
      Update scope { scope with constants := putName name v scope.constants }
  | clear : Update scope { scope with locals := [] }

def Scope.Apart (scope : Scope) : Prop :=
  ∀ name, lookupName name scope.constants = none ∨ lookupName name scope.locals = none

namespace Scope.Update

variable {scope scope' : Scope}

theorem apart (update : scope.Update scope') (apart : scope.Apart) : scope'.Apart := by
  intro other
  cases update with
  | same => exact apart other
  | store name v free =>
    simp only [lookupName_putName]
    by_cases here : other = name
    · simp [here, free]
    · simpa [here] using apart other
  | fix name v _ free =>
    simp only [lookupName_putName]
    by_cases here : other = name
    · simp [here, free]
    · simpa [here] using apart other
  | clear => exact .inr rfl

theorem lookup_constants (update : scope.Update scope') {name : Name} {v : Value}
    (bound : lookupName name scope.constants = some v) :
    lookupName name scope'.constants = some v := by
  cases update with
  | same => exact bound
  | store => exact bound
  | fix other w free =>
    have different : name ≠ other := by
      rintro rfl
      simp [free] at bound
    simpa [lookupName_putName, different] using bound
  | clear => exact bound

end Scope.Update

namespace Scopes

variable {s s' : Scopes} {h : Heap} {name : Name} {v : Value} {level : Level} {scope : Scope}

/-- The names of a level, as long as there is one. -/
def at? (s : Scopes) : Level → Option Scope
  | .top => some { locals := s.globals, constants := s.constants }
  | .frame number => s.frames.reverse[number]?

def constantAt? (s : Scopes) (level : Level) (name : Name) : Option Value :=
  (s.at? level).bind fun scope => lookupName name scope.constants

def variableAt? (s : Scopes) (level : Level) (name : Name) : Option Value :=
  (s.at? level).bind fun scope => lookupName name scope.locals

def answer (s : Scopes) : ScopeCall → Except EvalError Scopes
  | .push => .ok s.push
  | .pop => .ok s.pop
  | .assign h name v => do return (← s.assign h name v).1
  | .writeBack h name v => do return (← s.writeBack h name v).1
  | .define name v => s.define name v
  | .declare name v => s.declare name v
  | .constant name v => s.setConstant name v
  | .provide name v => .ok (s.setGlobal name v)
  | .clearGlobals => .ok s.clearGlobals
  | .setMe me => .ok { s with me }

def next (s : Scopes) (c : ScopeCall) : Scopes :=
  match s.answer c with
  | .ok s' => s'
  | .error _ => s

def after (s : Scopes) (calls : List ScopeCall) : Scopes := calls.foldl next s

theorem after_append (s : Scopes) (calls more : List ScopeCall) :
    s.after (calls ++ more) = (s.after calls).after more := by
  simp [after]

/-- The host provides no global under the name of a constant that is outside of procedures. -/
def Admits (s : Scopes) : ScopeCall → Prop
  | .provide name _ => lookupName name s.constants = none
  | _ => True

def AdmitsAll (s : Scopes) : List ScopeCall → Prop
  | [] => True
  | c :: rest => s.Admits c ∧ (s.next c).AdmitsAll rest

theorem AdmitsAll.split {s : Scopes} {calls more : List ScopeCall}
    (admitted : s.AdmitsAll (calls ++ more)) :
    s.AdmitsAll calls ∧ (s.after calls).AdmitsAll more := by
  induction calls generalizing s with
  | nil => exact ⟨trivial, admitted⟩
  | cons c rest ih =>
    obtain ⟨rest, more⟩ := ih admitted.2
    exact ⟨⟨admitted.1, rest⟩, more⟩

/-- The levels of `s'` are those of `s`, each with an update, and possibly a new empty frame. -/
def Updates (s s' : Scopes) : Prop :=
  ∀ level scope', s'.at? level = some scope' →
    (∃ scope, s.at? level = some scope ∧ scope.Update scope') ∨
      (s.at? level = none ∧ scope' = {})

theorem Updates.refl (s : Scopes) : s.Updates s :=
  fun _ scope here => .inl ⟨scope, here, .same⟩

theorem Updates.constantAt? (updates : s.Updates s') (bound : s.constantAt? level name = some v)
    (lives : (s'.at? level).isSome) : s'.constantAt? level name = some v := by
  obtain ⟨scope', here⟩ := Option.isSome_iff_exists.mp lives
  obtain ⟨scope, before, bound⟩ := Option.bind_eq_some_iff.mp bound
  rw [Scopes.constantAt?, here, Option.bind_some]
  obtain ⟨scope, known, update⟩ | ⟨missing, -⟩ := updates level scope' here
  · obtain rfl := Option.some.inj (known.symm.trans before)
    exact update.lookup_constants bound
  · simp [missing] at before

theorem Updates.of_frames (frames : List.Forall₂ Scope.Update s.frames s'.frames)
    (top : Scope.Update ⟨s.globals, s.constants⟩ ⟨s'.globals, s'.constants⟩) : s.Updates s' := by
  intro level scope' here
  cases level with
  | top =>
    obtain rfl := Option.some.inj here
    exact .inl ⟨_, rfl, top⟩
  | frame number =>
    have reversed := List.forall₂_reverse_iff.mpr frames
    obtain ⟨bound', rfl⟩ := List.getElem?_eq_some_iff.mp here
    have bound : number < s.frames.reverse.length := by
      simpa [frames.length_eq] using bound'
    exact .inl ⟨_, List.getElem?_eq_getElem bound, reversed.get bound bound'⟩

theorem updates_of_head {rest : List Scope} {scope' : Scope} (first : s.frames = scope :: rest)
    (update : scope.Update scope') : s.Updates { s with frames := scope' :: rest } := by
  refine .of_frames ?_ .same
  rw [first]
  exact .cons update (List.forall₂_same.mpr fun _ _ => .same)

theorem updates_of_top {globals constants : Frame}
    (update : Scope.Update ⟨s.globals, s.constants⟩ ⟨globals, constants⟩) :
    s.Updates { s with globals, constants } :=
  .of_frames (List.forall₂_same.mpr fun _ _ => .same) update

theorem constants_of_constant?_eq_none (free : s.constant? name = none) :
    (∀ scope ∈ s.frames, lookupName name scope.constants = none) ∧
      lookupName name s.constants = none := by
  rw [constant?] at free
  split at free
  · cases free
  · exact ⟨List.findSome?_eq_none_iff.mp ‹_›, free⟩

theorem forall₂_setInFrames {frames : List Scope}
    (free : ∀ scope ∈ frames, lookupName name scope.constants = none) :
    List.Forall₂ Scope.Update frames (setInFrames name v frames) := by
  induction frames with
  | nil => exact .nil
  | cons scope rest ih =>
    rw [List.forall_mem_cons] at free
    rw [setInFrames]
    split
    · exact .cons (.store name v free.1) (List.forall₂_same.mpr fun _ _ => .same)
    · exact .cons .same (ih free.2)

theorem updates_push (s : Scopes) : s.Updates s.push := by
  intro level scope' here
  cases level with
  | top => exact .inl ⟨scope', here, .same⟩
  | frame number =>
    simp only [at?, push, List.reverse_cons, List.getElem?_append] at here ⊢
    split at here
    · exact .inl ⟨scope', here, .same⟩
    · have outside : s.frames.reverse.length ≤ number := by omega
      obtain ⟨-, rfl⟩ := List.getElem?_eq_some_iff.mp here
      exact .inr ⟨List.getElem?_eq_none outside, by simp⟩

theorem updates_pop (s : Scopes) : s.Updates s.pop := by
  intro level scope' here
  cases level with
  | top => exact .inl ⟨scope', here, .same⟩
  | frame number =>
    refine .inl ⟨scope', ?_, .same⟩
    simp only [at?, pop] at here ⊢
    cases frames : s.frames with
    | nil => simp [frames] at here
    | cons scope rest =>
      rw [frames, List.drop_one, List.tail_cons] at here
      obtain ⟨bound, -⟩ := List.getElem?_eq_some_iff.mp here
      rw [List.reverse_cons, List.getElem?_append_left bound]
      exact here

theorem updates_assign {h' : Heap} {r : Assigned} (done : s.assign h name v = .ok (s', h', r)) :
    s.Updates s' := by
  have free : s.constant? name = none := by
    rw [assign] at done
    split at done
    · cases done
    · rename_i free
      exact Option.not_isSome_iff_eq_none.mp free
  obtain ⟨inFrames, outside⟩ := constants_of_constant?_eq_none free
  obtain ⟨rfl, -, -⟩ | ⟨-, rfl, -, -⟩ | ⟨-, rfl, -, -⟩ | ⟨-, -, rfl, -, -⟩ := assign_cases done
  · exact .of_frames (forall₂_setInFrames inFrames) .same
  · exact updates_of_top (.store name v outside)
  · exact .refl _
  · exact .refl _

theorem updates_writeBack {h' : Heap} {r : Assigned}
    (done : s.writeBack h name v = .ok (s', h', r)) : s.Updates s' := by
  rw [writeBack] at done
  split at done
  · cases done
    exact .refl s
  · exact updates_assign done

theorem updates_define (done : s.define name v = .ok s') : s.Updates s' := by
  rw [define] at done
  split at done
  · rename_i scope rest first
    split at done
    · cases done
    · rename_i free
      cases done
      exact updates_of_head first (.store name v (Option.not_isSome_iff_eq_none.mp free))
  · split at done
    · cases done
    · rename_i free
      cases done
      exact updates_of_top (.store name v (Option.not_isSome_iff_eq_none.mp free))

theorem updates_declare (done : s.declare name v = .ok s') : s.Updates s' := by
  rw [declare] at done
  split at done
  · cases done
    exact .refl s
  · exact updates_define done

theorem free_of_constantClash {constants taken : Frame}
    (done : constantClash name constants taken = .ok ()) :
    lookupName name constants = none ∧ lookupName name taken = none := by
  simp only [constantClash] at done
  split at done
  · cases done
  · split at done
    · cases done
    · rename_i unbound free
      exact ⟨Option.not_isSome_iff_eq_none.mp unbound, Option.not_isSome_iff_eq_none.mp free⟩

theorem updates_setConstant (done : s.setConstant name v = .ok s') : s.Updates s' := by
  rw [setConstant] at done
  split at done
  · rename_i scope rest first
    cases clash : constantClash name scope.constants scope.locals with
    | error e => simp [clash, Except.map] at done
    | ok u =>
      simp only [clash, Except.map] at done
      cases done
      obtain ⟨unbound, free⟩ := free_of_constantClash clash
      exact updates_of_head first (.fix name v unbound free)
  · cases clash : constantClash name s.constants s.globals with
    | error e => simp [clash, Except.map] at done
    | ok u =>
      simp only [clash, Except.map] at done
      cases done
      obtain ⟨unbound, free⟩ := free_of_constantClash clash
      exact updates_of_top (.fix name v unbound free)

theorem updates_next {c : ScopeCall} (admitted : s.Admits c) : s.Updates (s.next c) := by
  rw [next]
  cases done : s.answer c with
  | error e => exact .refl s
  | ok s' =>
    cases c with
    | push => cases done; exact updates_push s
    | pop => cases done; exact updates_pop s
    | assign h name v =>
      obtain ⟨r, ended, done⟩ := exists_of_bind_eq_ok done
      cases done
      exact updates_assign ended
    | writeBack h name v =>
      obtain ⟨r, ended, done⟩ := exists_of_bind_eq_ok done
      cases done
      exact updates_writeBack ended
    | define name v => exact updates_define done
    | declare name v => exact updates_declare done
    | constant name v => exact updates_setConstant done
    | provide name v => cases done; exact updates_of_top (.store name v admitted)
    | clearGlobals => cases done; exact updates_of_top .clear
    | setMe me => cases done; exact .of_frames (List.forall₂_same.mpr fun _ _ => .same) .same

def Apart (s : Scopes) : Prop := ∀ level scope, s.at? level = some scope → scope.Apart

theorem apart_new : ({} : Scopes).Apart := by
  intro level scope here
  cases level with
  | top =>
    obtain rfl := Option.some.inj here
    exact fun _ => .inr rfl
  | frame number => simp [at?] at here

theorem Apart.next {c : ScopeCall} (apart : s.Apart) (admitted : s.Admits c) :
    (s.next c).Apart := by
  intro level scope' here
  obtain ⟨scope, before, update⟩ | ⟨-, rfl⟩ := updates_next admitted level scope' here
  · exact update.apart (apart level scope before)
  · exact fun _ => .inl rfl

theorem Apart.after (apart : s.Apart) {calls : List ScopeCall} (admitted : s.AdmitsAll calls) :
    (s.after calls).Apart := by
  induction calls generalizing s with
  | nil => exact apart
  | cons c rest ih => exact ih (apart.next admitted.1) admitted.2

theorem constantAt?_after {calls : List ScopeCall} (admitted : s.AdmitsAll calls)
    (bound : s.constantAt? level name = some v)
    (lives : ∀ part, part <+: calls → ((s.after part).at? level).isSome) :
    (s.after calls).constantAt? level name = some v := by
  induction calls generalizing s with
  | nil => exact bound
  | cons c rest ih =>
    have here : ((s.next c).at? level).isSome := lives [c] ⟨rest, rfl⟩
    refine ih admitted.2 ((updates_next admitted.1).constantAt? bound here) fun part inside => ?_
    exact lives (c :: part) (List.cons_prefix_cons.mpr ⟨rfl, inside⟩)

end Scopes

open Scopes

/-- Constants and variables stay apart. After any sequence of operations on new names, in which the
host provides no global under the name of a constant outside of procedures, no level has a name
both as a constant and as a variable. A constant keeps its value until its frame is popped; one
outside of procedures keeps it for ever, and so does a built-in one. -/
theorem constants_and_variables_apart {calls : List ScopeCall}
    (admitted : ({} : Scopes).AdmitsAll calls) :
    (∀ level name, (({} : Scopes).after calls).constantAt? level name = none ∨
      (({} : Scopes).after calls).variableAt? level name = none) ∧
    (∀ before since level name v, calls = before ++ since →
      (({} : Scopes).after before).constantAt? level name = some v →
      (∀ part, part <+: since → ((({} : Scopes).after (before ++ part)).at? level).isSome) →
      (({} : Scopes).after calls).constantAt? level name = some v) ∧
    (∀ before since name v, calls = before ++ since →
      (({} : Scopes).after before).constantAt? .top name = some v →
      (({} : Scopes).after calls).constantAt? .top name = some v) ∧
    ∀ name v, lookupName name builtinConstants = some v →
      (({} : Scopes).after calls).constantAt? .top name = some v := by
  have lasts : ∀ before since level name v, calls = before ++ since →
      (({} : Scopes).after before).constantAt? level name = some v →
      (∀ part, part <+: since → ((({} : Scopes).after (before ++ part)).at? level).isSome) →
      (({} : Scopes).after calls).constantAt? level name = some v := by
    rintro before since level name v rfl bound lives
    rw [after_append]
    refine constantAt?_after admitted.split.2 bound fun part inside => ?_
    rw [← after_append]
    exact lives part inside
  refine ⟨fun level name => ?_, lasts, fun before since name v split bound => ?_,
    fun name v bound => ?_⟩
  · have apart := apart_new.after admitted level
    rw [constantAt?, variableAt?]
    cases here : (({} : Scopes).after calls).at? level with
    | none => exact .inl rfl
    | some scope => exact apart scope here name
  · exact lasts before since .top name v split bound fun _ _ => rfl
  · exact lasts [] calls .top name v rfl bound fun _ _ => rfl

/-- A constant outside of procedures, and one of the same name in a procedure that tries to assign
it and to declare it again. -/
def ScopeCall.sample : List ScopeCall :=
  [.constant ⟨"k"⟩ (.integer 1), .provide ⟨"request"⟩ .empty, .push,
    .constant ⟨"k"⟩ (.integer 2), .assign {} ⟨"k"⟩ (.integer 3), .define ⟨"k"⟩ (.integer 4),
    .writeBack {} ⟨"request"⟩ (.integer 5), .clearGlobals]

theorem sample_apart :
    let s := ({} : Scopes).after ScopeCall.sample
    s.variableAt? (.frame 0) ⟨"k"⟩ = none ∧ s.constantAt? (.frame 0) ⟨"k"⟩ = some (.integer 2) ∧
      s.constantAt? .top ⟨"k"⟩ = some (.integer 1) := by
  have admitted : ({} : Scopes).AdmitsAll ScopeCall.sample :=
    ⟨trivial, rfl, trivial, trivial, trivial, trivial, trivial, trivial, trivial⟩
  obtain ⟨apart, lasts, forever, -⟩ := constants_and_variables_apart admitted
  have inner := lasts (ScopeCall.sample.take 4) (ScopeCall.sample.drop 4) (.frame 0) ⟨"k"⟩
    (.integer 2) rfl rfl ?_
  · refine ⟨(apart (.frame 0) ⟨"k"⟩).resolve_left (by simp [inner]), inner, ?_⟩
    exact forever (ScopeCall.sample.take 1) (ScopeCall.sample.drop 1) ⟨"k"⟩ (.integer 1) rfl rfl
  · intro part inside
    have short : part.length ≤ 4 := inside.length_le
    rw [List.prefix_iff_eq_take.mp inside]
    interval_cases part.length <;> rfl

end ServerScript
