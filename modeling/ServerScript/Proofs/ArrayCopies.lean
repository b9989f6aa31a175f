import ServerScript.Proofs.AcyclicArrays
import ServerScript.Proofs.Placing

/-! Copies of arrays. A plain assignment and a parameter by value store a copy: it has the bounds
and the elements of the array at every depth and is made of cells that did not exist before. What
is written through the array or through the copy is then not seen through the other one, in that
state and in all later ones, unless the copy was stored inside of the array itself. -/
namespace ServerScript

open Relation

namespace Heap

/-- An operation that changes an array in place: an element of it, or of an array inside of it, is
written, or it is emptied or resized. -/
inductive Writes (h : Heap) (cell : Nat) : Heap → Prop where
  | element (path : List Int64) (v : Value) : h.Writes cell (h.setPath cell path v).1
  | erase : h.Writes cell (h.modifyArray cell (·.erase))
  | resize {uppers : List Int64} {result : Heap × ArrayCell}
    (done : resizePreserve h.arrayDepth h ((h.array? cell).getD {}) uppers = .ok result) :
    h.Writes cell (result.1.setArray cell result.2)

/-- What is written through one array is not seen through another one. -/
def Hides (h : Heap) (c d : Nat) : Prop :=
  ∀ cell h', ReflTransGen h.Element c cell → h.Writes cell h' →
    ∀ x, ReflTransGen h.Element d x → h'.array? x = h.array? x

variable {h h' : Heap} {c d : Nat}

theorem hides_of_not_shares (closed : h.Closed) (small : d < h.arrays.size)
    (alone : ¬h.Shares c d) : h.Hides c d := by
  intro cell h' reaches writes x seen
  have other : ∀ {target}, ReflTransGen h.Element cell target → x ≠ target := by
    rintro target inner rfl
    exact alone ⟨x, reaches.trans inner, seen⟩
  cases writes with
  | element path v =>
    obtain done | ⟨target, a, i, inner, -, -, done⟩ := h.setPath_cases cell path v
    · rw [done]
    · rw [done, array?_setArray_of_ne _ _ (other inner)]
  | erase =>
    rw [Heap.array?, modifyArray, Array.getElem?_modify, if_neg (other .refl).symm]
    rfl
  | resize done =>
    rw [array?_setArray_of_ne _ _ (other .refl)]
    exact (keeps_resizePreserve _ done).old x (closed.reaches small seen)

end Heap

/-- The values that variables, constants, fields, dictionaries and `With` blocks have. A session
has contents and no arrays of the state. -/
inductive Machine.Holds (m : Machine) : Value → Prop where
  | localVariable {scope name v} (frame : scope ∈ m.scopes.frames)
    (entry : (name, v) ∈ scope.locals) : m.Holds v
  | localConstant {scope name v} (frame : scope ∈ m.scopes.frames)
    (entry : (name, v) ∈ scope.constants) : m.Holds v
  | global {name v} (entry : (name, v) ∈ m.scopes.globals) : m.Holds v
  | constant {name v} (entry : (name, v) ∈ m.scopes.constants) : m.Holds v
  | field {cell content name v} (found : m.heap.instance? cell = some content)
    (entry : (name, v) ∈ content.fields) : m.Holds v
  | key {cell : Nat} {d : Dictionary} {v item} (found : m.heap.dictionaries[cell]? = some d)
    (entry : (v, item) ∈ d.entries) : m.Holds v
  | item {cell : Nat} {d : Dictionary} {key v} (found : m.heap.dictionaries[cell]? = some d)
    (entry : (key, v) ∈ d.entries) : m.Holds v
  | target {v} (entry : v ∈ m.withStack) : m.Holds v

def Machine.Reaches (m : Machine) (c : Nat) : Prop :=
  ∃ d, m.Holds (.array d) ∧ ReflTransGen m.heap.Element d c

/-- A value of a later state is a copy on its own: it has the bounds and the elements of a value at
every depth, in cells that did not exist before and were reached from nothing. -/
structure Machine.Separate (m m' : Machine) (v w : Value) : Prop where
  mirrors : m.heap.Mirrors m'.heap v w
  fresh : ∀ c d, w = .array c → ReflTransGen m'.heap.Element c d → m.cells ≤ d ∧ ¬m.Reaches d

/-- A task on values that exist. Stores of elements are parts of assignments. -/
def Task.Exists (n : Nat) : Task → Prop
  | .expr _ | .block _ => True
  | .invoke _ _ values => ∀ v ∈ values, v.Within 0 n
  | .store .. => False

/-- The states that may follow a state. Programs, expressions and procedures are run, and in
between anything may happen that leaves the arrays that exist as they are: control goes back to a
caller, names and members get values, arrays are built. -/
inductive Machine.Follows (m : Machine) : Machine → Prop where
  | here : m.Follows m
  | run {s : Stage} {m'} (before : m.Follows s.state) (fits : s.task.Exists s.state.cells)
    (passes : s.Passes m') : m.Follows m'
  | between {m' m''} (before : m.Follows m') (grows : m'.cells ≤ m''.cells)
    (old : ∀ c, c < m'.cells → m''.heap.array? c = m'.heap.array? c) (grounded : m''.Grounded) :
    m.Follows m''

/-- From a state on, what is written through one of two arrays is not seen through the other. -/
def Machine.Isolates (m : Machine) (c d : Nat) : Prop :=
  ∀ m', m.Follows m' → m'.heap.Hides c d ∧ m'.heap.Hides d c

namespace Machine

variable {A : Nat → Nat → Prop} {R : Reserve A} {m m' : Machine} {v w : Value} {c d : Nat}

theorem Secures.usable_of_holds (secures : m.Secures R) (holds : m.Holds v) :
    v.Usable R m.cells := by
  cases holds with
  | localVariable frame entry => exact (secures.scopes.frames _ frame).1 _ entry
  | localConstant frame entry => exact (secures.scopes.frames _ frame).2 _ entry
  | global entry => exact secures.scopes.globals _ entry
  | constant entry => exact secures.scopes.constants _ entry
  | field found entry => exact secures.heap.objects.fields _ _ found _ entry
  | key found entry => exact ((secures.heap.objects.dictionaries _ _ found).1 _ entry).1
  | item found entry => exact ((secures.heap.objects.dictionaries _ _ found).1 _ entry).2
  | target entry => exact secures.withStack _ entry

theorem Secures.usable_inside (secures : m.Secures R) (usable : (Value.array c).Usable R m.cells)
    (inside : ReflTransGen m.heap.Element c d) : (Value.array d).Usable R m.cells := by
  refine ⟨?_, ?_⟩
  · exact secures.heap.closed.reaches usable.1 inside
  · exact secures.heap.usable_of_reaches usable.2 inside

theorem Secures.usable_of_reached (secures : m.Secures R) (reached : m.Reaches c) :
    (Value.array c).Usable R m.cells := by
  obtain ⟨v, holds, inside⟩ := reached
  exact secures.usable_inside (secures.usable_of_holds holds) inside

theorem Grounded.isolates (grounded : m.Grounded) (small : c < m.cells) (small' : d < m.cells)
    (alone : ¬m.heap.Shares c d) : m.Isolates c d := by
  intro m' follows
  let A (a b : Nat) : Prop := a = c ∧ b = d
  suffices state : m'.Grounded ∧ m'.heap.KeepsApart A by
    obtain ⟨grounded, apart⟩ := state
    obtain ⟨small, small', alone⟩ := apart c d ⟨rfl, rfl⟩
    exact ⟨Heap.hides_of_not_shares grounded.closed small' alone,
      Heap.hides_of_not_shares grounded.closed small fun shares => alone shares.symm⟩
  induction follows with
  | here =>
    refine ⟨grounded, ?_⟩
    rintro a b ⟨rfl, rfl⟩
    exact ⟨small, small', alone⟩
  | @run s m' _ fits passes ih =>
    obtain ⟨grounded, apart⟩ := ih
    have secures := grounded.secures apart
    have guarded : (custody A).Guarded s.task s.state := by
      refine ⟨_, _, .refl _, secures, ?_⟩
      cases same : s.task with
      | invoke decl this values =>
        rw [same] at fits
        exact ⟨trivial, fun _ _ => trivial, fun v member => (fits v member).usable⟩
      | store container index value name =>
        rw [same] at fits
        exact fits.elim
      | _ => trivial
    obtain ⟨R, after⟩ := passes.fits (custody_upkeep A) guarded
    exact ⟨after.grounded, after.heap.apart⟩
  | between _ grows old grounded ih =>
    exact ⟨grounded, ih.2.stays (Heap.evolves_of_old grows old ih.1.closed)⟩

theorem Secures.separate (secures : m.Secures R) (usable : v.Usable R m.cells)
    (same : ∀ c x, (m.heap.deepCopy v).2 = .array c →
      ReflTransGen (m.copied v).heap.Element c x →
      m'.heap.array? x = (m.copied v).heap.array? x) :
    m.Separate m' v (m.heap.deepCopy v).2 := by
  have copied := secures.heap.copied usable
  refine ⟨copied.mirrors.kept fun c x a whole reaches found => ?_, fun c d whole reaches => ?_⟩
  · exact (same c x whole reaches).trans found
  · have new : m.cells ≤ d := by
      have within := copied.within
      rw [whole] at within
      exact copied.builds.reaches_new within.1
        (Heap.reaches_of_kept (fun x => same c x whole) reaches)
    exact ⟨new, fun reached => Nat.not_lt_of_le new (secures.usable_of_reached reached).1⟩

end Machine

/-- What an assignment does with the copy of a value. While the target is evaluated nothing leads to
the copy. A place that keeps values has it afterwards, and what the value is made of is isolated
from it, apart from arrays that it was put inside of. -/
structure Machine.AssignsCopy (m : Machine) (n : Nat) (target : Expr) (v : Value) : Prop where
  located : ∀ place m', (Interpreter.locate n target).exec (m.copied v) = (.ok place, m') →
    m.Separate m' v (m.heap.deepCopy v).2 ∧
      ∀ c d, (m.heap.deepCopy v).2 = .array c → ReflTransGen m'.heap.Element c d → ¬m'.Reaches d
  stored : ∀ place m' m'', (Interpreter.locate n target).exec (m.copied v) = (.ok place, m') →
    place.Stores → (place.put (m.heap.deepCopy v).2).exec m' = (.ok ⟨⟩, m'') →
    (place.Present m' → place.Holds m'' (m.heap.deepCopy v).2) ∧
      m.Separate m'' v (m.heap.deepCopy v).2 ∧
      ∀ c d x, v = .array c → (m.heap.deepCopy v).2 = .array d → ReflTransGen m.heap.Element c x →
        ¬ReflTransGen m''.heap.Element x d → m''.Isolates x d

namespace Machine.Secures

variable {A : Nat → Nat → Prop} {R : Reserve A} {m m' m'' : Machine} {v : Value} {n : Nat}
  {target : Expr} {place : Place} (secures : m.Secures R) (usable : v.Usable R m.cells)

include secures usable

theorem adds_of_copy {c x : Nat} (whole : (m.heap.deepCopy v).2 = .array c)
    (reaches : ReflTransGen (m.copied v).heap.Element c x) : R.Adds (m.aside R v) x := by
  have owned := secures.owned_aside usable
  rw [whole] at owned
  have closed := (secures.copied usable).heap.adds_closed (secures.extends_aside usable)
  exact Heap.mem_of_reaches closed owned reaches

theorem untouched (secured : m'.Secures (m.aside R v)) {c x : Nat}
    (whole : (m.heap.deepCopy v).2 = .array c)
    (reaches : ReflTransGen (m.copied v).heap.Element c x) :
    m'.heap.array? x = (m.copied v).heap.array? x := by
  obtain ⟨a, there⟩ := Option.ne_none_iff_exists'.mp (secures.adds_of_copy usable whole reaches).2
  exact (secured.heap.kept x a there).trans ((secures.copied usable).heap.kept x a there).symm

theorem located (done : (Interpreter.locate n target).exec (m.copied v) = (.ok place, m')) :
    m'.Secures (m.aside R v) ∧ place.Usable (m.aside R v) m'.cells := by
  have agree := Interpreter.secure_locate n target _ (secures.copied usable) (Nat.le_refl _)
  have state := agree.state
  have result := agree.result
  rw [done] at state result
  exact ⟨state, result place rfl⟩

theorem untouched_of_put (secured : m'.Secures (m.aside R v))
    (inReach : place.Usable (m.aside R v) m'.cells) (stores : place.Stores)
    (put : (place.put (m.heap.deepCopy v).2).exec m' = (.ok ⟨⟩, m'')) {c x : Nat}
    (whole : (m.heap.deepCopy v).2 = .array c)
    (reaches : ReflTransGen (m.copied v).heap.Element c x) :
    m''.heap.array? x = (m.copied v).heap.array? x := by
  rw [← secures.untouched usable secured whole reaches]
  obtain same | ⟨cell, path, rfl, written⟩ := place.arrays_of_put stores put
  · rw [Heap.array?, same, Heap.array?]
  · rw [written]
    obtain done | ⟨t, a, i, inner, -, -, done⟩ :=
      m'.heap.setPath_cases cell path (m.heap.deepCopy v).2
    · rw [done]
    · rw [done]
      refine Heap.array?_setArray_of_ne _ _ ?_
      rintro rfl
      exact (secures.adds_of_copy usable whole reaches).2
        (secured.heap.usable_of_reaches inReach.2 inner)

/-- After that an old array shares with the copy only if it contains the copy. -/
theorem reaches_of_put (secured : m'.Secures (m.aside R v))
    (inReach : place.Usable (m.aside R v) m'.cells) (stores : place.Stores)
    (put : (place.put (m.heap.deepCopy v).2).exec m' = (.ok ⟨⟩, m'')) {d x : Nat}
    (whole : (m.heap.deepCopy v).2 = .array d) (old : (Value.array x).Usable R m.cells)
    (shares : m''.heap.Shares x d) : ReflTransGen m''.heap.Element x d := by
  have more := secures.extends_aside usable
  have added := secures.adds_of_copy usable whole .refl
  have other : ¬R.Adds (m.aside R v) x := fun added =>
    added.2 ((Heap.reserve_of_lt old.1).trans old.2)
  obtain same | ⟨cell, path, rfl, written⟩ := place.arrays_of_put stores put
  · refine absurd ?_ (secured.heap.not_shares more other added)
    exact shares.mono fun _ _ => Heap.element_of_arrays same
  · rw [written, whole] at shares ⊢
    exact secured.heap.reaches_of_shares more inReach.2 path other added shares

theorem grounded_of_put (done : (Interpreter.locate n target).exec (m.copied v) = (.ok place, m'))
    (put : (place.put (m.heap.deepCopy v).2).exec m' = (.ok ⟨⟩, m'')) :
    m''.Grounded ∧ (m.copied v).cells ≤ m''.cells := by
  have ends : ((Interpreter.within n).assignTo target (m.heap.deepCopy v).2 false).exec
      (m.copied v) = (.ok ⟨⟩, m'') := by
    rw [Interpreter.assignTo_eq_locate, Run.exec_bind_ok done, put]
  have sound := (custody_upkeep A).sound_within n
  have delivers : (custody A).Delivers R (m.aside R v) (m.copied v).cells fun _ =>
      (Interpreter.within n).assignTo target (m.heap.deepCopy v).2 false :=
    ExprWalk.assignTo sound.invoke sound.store (fun e _ => sound.expr e)
      (secures.extends_aside usable) (secures.owned_aside usable)
  have agree := delivers _ (secures.copied usable) (Nat.le_refl _)
  have state := agree.state
  have grows := agree.grows
  dsimp only at state grows
  rw [ends] at state grows
  exact ⟨state.grounded, grows⟩

theorem assignsCopy (n : Nat) (target : Expr) : m.AssignsCopy n target v := by
  refine ⟨fun place m' done => ?_, fun place m' m'' done stores put => ?_⟩
  · obtain ⟨secured, -⟩ := secures.located usable done
    refine ⟨secures.separate usable fun c x => secures.untouched usable secured,
      fun c d whole reaches reached => ?_⟩
    have before := Heap.reaches_of_kept (fun x => secures.untouched usable secured whole) reaches
    exact (secures.adds_of_copy usable whole before).2 (secured.usable_of_reached reached).2
  · obtain ⟨secured, inReach⟩ := secures.located usable done
    have acyclic := secured.heap.founded.acyclic
    refine ⟨fun present => place.holds_of_put acyclic secured.heap.objects stores present put,
      secures.separate usable fun c x => secures.untouched_of_put usable secured inReach stores put,
      fun c d x value whole inside alone => ?_⟩
    obtain ⟨grounded, grows⟩ := secures.grounded_of_put usable done put
    have copied := secures.heap.copied usable
    have old : (Value.array x).Usable R m.cells := by
      rw [value] at usable
      exact secures.usable_inside usable inside
    have new : d < (m.copied v).cells := by
      have within := copied.within
      rw [whole] at within
      exact within.2
    exact grounded.isolates (Nat.lt_of_lt_of_le old.1 (Nat.le_trans copied.builds.size grows))
      (Nat.lt_of_lt_of_le new grows) fun shares =>
        alone (secures.reaches_of_put usable secured inReach stores put whole old shares)

end Machine.Secures

namespace Interpreter

variable {h : Heap} {m : Machine} {scope : Scope} {rest : List Scope}

theorem exec_define (name : Name) (v : Value) (frames : m.scopes.frames = scope :: rest)
    (free : scope.constants = []) :
    (Run.modifyScopes (·.define name v)).exec m = (.ok ⟨⟩, { m with scopes := { m.scopes with
      frames := { scope with locals := putName name v scope.locals } :: rest } }) := by
  have defined : m.scopes.define name v = .ok { m.scopes with
      frames := { scope with locals := putName name v scope.locals } :: rest } := by
    rw [Scopes.define, frames]
    simp [free, lookupName]
  exact exec_modifyScopes defined

def given (param : Param) (h : Heap) (v : Value) : Heap × Value :=
  if param.byVal then h.deepCopy v else (h, v)

def withParam (m : Machine) (scope : Scope) (rest : List Scope) (param : Param) (v : Value) :
    Machine :=
  { m with
    heap := (given param m.heap v).1
    scopes := { m.scopes with
      frames := { scope with
        locals := putName param.name (given param m.heap v).2 scope.locals } :: rest } }

theorem local?_withParam (frames : m.scopes.frames = scope :: rest) (param : Param) (v : Value)
    (name : Name) : (withParam m scope rest param v).scopes.local? name =
      if name = param.name then some (given param m.heap v).2 else m.scopes.local? name := by
  have before : m.scopes.local? name = lookupName name scope.locals := by
    rw [Scopes.local?, frames]
  rw [before]
  exact lookupName_putName param.name name _ scope.locals

theorem exec_bindParams_cons (param : Param) (params : List Param) (values : List Value)
    (frames : m.scopes.frames = scope :: rest) (free : scope.constants = []) :
    (bindParams (param :: params) values).exec m = (bindParams params values.tail).exec
      (withParam m scope rest param (values.headD .empty)) := by
  rw [bindParams, withParam, given]
  cases param.byVal with
  | true =>
    exact Run.exec_bind_ok (exec_define
      (m := { m with heap := (m.heap.deepCopy (values.headD .empty)).1 }) param.name _ frames free)
  | false => exact Run.exec_bind_ok (exec_define param.name _ frames free)

theorem bindParams_append (params others : List Param) (values : List Value) :
    bindParams (params ++ others) values =
      bindParams params values >>= fun _ => bindParams others (values.drop params.length) := by
  induction params generalizing values with
  | nil => rfl
  | cons param params ih =>
    rw [List.cons_append, bindParams, bindParams]
    cases param.byVal <;> simp [ih]

/-- What binding parameters leaves behind: more new cells, a frame that still takes any name, and
the other names as they were. -/
structure Bound (h : Heap) (params : List Param) (m m' : Machine) : Prop where
  builds : h.Builds m'.heap
  keeps : m.heap.Keeps m'.heap
  frame : ∃ scope, m'.scopes.frames = scope :: m.scopes.frames.tail ∧ scope.constants = []
  others : ∀ name, (∀ param ∈ params, param.name ≠ name) →
    m'.scopes.local? name = m.scopes.local? name

theorem builds_given (param : Param) (closed : h.Closed) (acyclic : h.Acyclic)
    (builds : h.Builds m.heap) {v : Value} (valid : v.Within 0 h.arrays.size) :
    h.Builds (given param m.heap v).1 ∧ m.heap.Keeps (given param m.heap v).1 := by
  rw [given]
  split
  · have copied := Heap.copied_deepCopy closed acyclic builds valid
    exact ⟨copied.builds, copied.keeps⟩
  · exact ⟨builds, .refl _⟩

theorem bound_bindParams (closed : h.Closed) (acyclic : h.Acyclic) (params : List Param)
    {values : List Value} (valid : ∀ v ∈ values, v.Within 0 h.arrays.size)
    (builds : h.Builds m.heap) (frames : m.scopes.frames = scope :: rest)
    (free : scope.constants = []) :
    ∃ m', (bindParams params values).exec m = (.ok ⟨⟩, m') ∧ Bound h params m m' := by
  induction params generalizing values m scope with
  | nil => exact ⟨m, rfl, builds, .refl _, ⟨scope, by rw [frames]; rfl, free⟩, fun _ _ => rfl⟩
  | cons param params ih =>
    have first : (values.headD .empty).Within 0 h.arrays.size := headD_of_forall trivial valid
    obtain ⟨built, kept⟩ := builds_given param closed acyclic builds first
    rw [exec_bindParams_cons param params values frames free]
    obtain ⟨m', done, bound⟩ := ih (m := withParam m scope rest param (values.headD .empty))
      (fun v member => valid v (List.mem_of_mem_tail member)) built rfl free
    refine ⟨m', done, bound.builds, kept.trans bound.keeps, ?_, fun name other => ?_⟩
    · rw [frames]
      exact bound.frame
    · obtain ⟨here, others⟩ := List.forall_mem_cons.mp other
      rw [bound.others name others, local?_withParam frames, if_neg here.symm]

end Interpreter

/-- The name of a parameter gets a copy of its argument on its own, which is isolated from it. -/
def Machine.BindsCopy (m m' : Machine) (name : Name) (v : Value) : Prop :=
  ∃ w, m'.scopes.local? name = some w ∧ m.Separate m' v w ∧
    ∀ c d, v = .array c → w = .array d → m'.Isolates c d

/-- What happens to the arguments of a call: all parameters are bound, no array that exists is
changed, and each parameter by value gets its copy after the parameters before it are bound, unless
one of the same name follows. -/
def Machine.BindsCopies (m : Machine) (params : List Param) (values : List Value) : Prop :=
  ∃ m', (Interpreter.bindParams params values).exec m = (.ok ⟨⟩, m') ∧ m.heap.Keeps m'.heap ∧
    ∀ i param, params[i]? = some param → param.byVal →
      (∀ later ∈ params.drop (i + 1), later.name ≠ param.name) →
      ∃ before, (Interpreter.bindParams (params.take i) values).exec m = (.ok ⟨⟩, before) ∧
        m.heap.Keeps before.heap ∧ before.BindsCopy m' param.name (values.getD i .empty)

namespace Machine.Grounded

variable {m m' : Machine} {scope : Scope} {rest : List Scope} {param : Param} {params : List Param}
  {values : List Value} (grounded : m.Grounded) (valid : ∀ v ∈ values, v.Within 0 m.cells)

include grounded valid

theorem bindParams (done : (Interpreter.bindParams params values).exec m = (.ok ⟨⟩, m')) :
    m'.Grounded := by
  have usable : ∀ v ∈ values, v.Usable (Reserve.nothing fun _ _ => False) m.cells :=
    fun v member => (valid v member).usable
  have binds : Secure _ m.cells (fun _ _ => True) fun _ => Interpreter.bindParams params values :=
    StmtWalk.bindParams (J := (custody_upkeep fun _ _ => False).walk.toStmtWalk)
      (fun _ _ => trivial) usable
  have state := (binds m grounded.secures_self (Nat.le_refl _)).state
  dsimp only at state
  rw [done] at state
  exact state.grounded

theorem bindsCopy (frames : m.scopes.frames = scope :: rest) (free : scope.constants = [])
    (byVal : param.byVal) (last : ∀ later ∈ params, later.name ≠ param.name)
    (done : (Interpreter.bindParams (param :: params) values).exec m = (.ok ⟨⟩, m')) :
    m.BindsCopy m' param.name (values.headD .empty) := by
  have after := grounded.bindParams valid done
  have first : (values.headD .empty).Within 0 m.cells :=
    Interpreter.headD_of_forall trivial valid
  have others : ∀ v ∈ values.tail, v.Within 0 m.cells := fun v member =>
    valid v (List.mem_of_mem_tail member)
  rw [Interpreter.exec_bindParams_cons param params values frames free] at done
  generalize values.headD .empty = v at first done
  have given : Interpreter.given param m.heap v = m.heap.deepCopy v := if_pos byVal
  have copied := Heap.copied_deepCopy grounded.closed grounded.acyclic (.refl _) first
  have heap : (Interpreter.withParam m scope rest param v).heap = (m.copied v).heap :=
    congrArg Prod.fst given
  obtain ⟨_, bindings, bound⟩ := Interpreter.bound_bindParams grounded.closed grounded.acyclic
    (m := Interpreter.withParam m scope rest param v) params others (heap ▸ copied.builds) rfl free
  obtain rfl := (Prod.mk.inj (done.symm.trans bindings)).2
  have keeps : (m.copied v).heap.Keeps m'.heap := heap ▸ bound.keeps
  refine ⟨(m.heap.deepCopy v).2, ?_, ?_, fun c d value whole => ?_⟩
  · rw [bound.others _ last, Interpreter.local?_withParam frames, if_pos rfl, given]
  · have secures := grounded.secures_self
    refine secures.separate first.usable fun c x whole reaches => keeps.old x ?_
    have within := copied.within
    rw [whole] at within
    exact (secures.copied first.usable).heap.closed.reaches within.2 reaches
  · subst value
    have within := copied.within
    rw [whole] at within
    exact after.isolates (Nat.lt_of_lt_of_le first.2 bound.builds.size)
      (Nat.lt_of_lt_of_le within.2 keeps.size)
      (bound.builds.not_shares grounded.closed first.2 within.1)

theorem bindParams_at {i : Nat} (found : params[i]? = some param)
    (frames : m.scopes.frames = scope :: rest) (free : scope.constants = [])
    (done : (Interpreter.bindParams params values).exec m = (.ok ⟨⟩, m')) :
    ∃ before, (Interpreter.bindParams (params.take i) values).exec m = (.ok ⟨⟩, before) ∧
      m.heap.Keeps before.heap ∧ before.Grounded ∧
      (∀ v ∈ values.drop i, v.Within 0 before.cells) ∧
      (∃ scope, before.scopes.frames = scope :: rest ∧ scope.constants = []) ∧
      (Interpreter.bindParams (param :: params.drop (i + 1)) (values.drop i)).exec before =
        (.ok ⟨⟩, m') := by
  obtain ⟨before, first, earlier⟩ := Interpreter.bound_bindParams grounded.closed grounded.acyclic
    (params.take i) valid (.refl _) frames free
  refine ⟨before, first, earlier.keeps, grounded.bindParams valid first, fun v member => ?_, ?_, ?_⟩
  · exact (valid v (List.mem_of_mem_drop member)).mono earlier.keeps.size
  · simpa [frames] using earlier.frame
  · obtain ⟨small, rfl⟩ := List.getElem?_eq_some_iff.mp found
    rw [← List.take_append_drop i params, Interpreter.bindParams_append, Run.exec_bind_ok first,
      List.length_take_of_le (Nat.le_of_lt small), List.drop_eq_getElem_cons small] at done
    exact done

theorem bindsCopies (params : List Param) (frames : m.scopes.frames = scope :: rest)
    (free : scope.constants = []) : m.BindsCopies params values := by
  obtain ⟨m', done, bound⟩ := Interpreter.bound_bindParams grounded.closed grounded.acyclic
    params valid (.refl _) frames free
  refine ⟨m', done, bound.keeps, fun i param found byVal last => ?_⟩
  obtain ⟨before, first, keeps, grounded, later, ⟨scope, frames, free⟩, remaining⟩ :=
    grounded.bindParams_at valid found frames free done
  refine ⟨before, first, keeps, ?_⟩
  have copy := grounded.bindsCopy later frames free byVal last remaining
  rwa [List.headD_eq_head?_getD, List.head?_drop, ← List.getD_eq_getElem?_getD] at copy

end Machine.Grounded

variable {m₀ m : Machine} {k : Nat} {program : Block}

theorem Interpreter.exec_execAssign {n : Nat} {e : Expr} {v : Value} {m₁ : Machine} (target : Expr)
    (value : ((within n).expr e).exec m = (.ok v, m₁)) :
    ((within n).execAssign target e false).exec m =
      (locate n target >>= (·.put (m₁.heap.deepCopy v).2)).exec (m₁.copied v) := by
  rw [execAssign, Run.exec_bind_ok value, ← assignTo_eq_locate]
  rfl

/-- Plain assignments and parameters by value isolate arrays. In every state that a run goes
through, a copy changes no array that exists and is on its own. An assignment puts a copy into
place that is on its own and isolated from all arrays of the value that it was not put inside of,
and each parameter by value is bound to a copy of its argument that is isolated from it. -/
theorem assignment_and_byVal_isolate (grounded : m₀.Grounded)
    (visits : Script.Visits k program m₀ m) :
    (∀ v : Value, v.Within 0 m.cells → m.heap.Keeps (m.heap.deepCopy v).1 ∧
      m.Separate (m.copied v) v (m.heap.deepCopy v).2) ∧
    (∀ n target e v m₁, ((Interpreter.within n).expr e).exec m = (.ok v, m₁) →
      ((Interpreter.within n).execAssign target e false).exec m =
        (Interpreter.locate n target >>= (·.put (m₁.heap.deepCopy v).2)).exec (m₁.copied v) ∧
      m₁.AssignsCopy n target v) ∧
    ∀ decl this values, (∀ v ∈ values, v.Within 0 m.cells) →
      (Interpreter.enter decl this m).BindsCopies decl.params values := by
  have grounded := visits.grounded grounded
  have secures := grounded.secures_self
  refine ⟨fun v valid => ?_, fun n target e v m₁ value => ?_, fun decl this values valid => ?_⟩
  · exact ⟨(secures.heap.copied valid.usable).keeps,
      secures.separate valid.usable fun _ _ _ _ => rfl⟩
  · have agree := ((custody_upkeep _).sound_within n).expr e _ _ m secures (Nat.le_refl _)
    have state := agree.state
    have result := agree.result
    dsimp only at state result
    rw [value] at state result
    exact ⟨Interpreter.exec_execAssign target value, state.assignsCopy (result v rfl) n target⟩
  · have entered := (secures.enter decl this).grounded
    exact entered.bindsCopies valid decl.params rfl rfl

namespace RowCopies

def b : Name := ⟨"b"⟩

/-- `Dim a(1, 1)`. -/
def block : Block :=
  [⟨.dim [⟨SelfAssignment.a, some [.literal (.integer 1), .literal (.integer 1)]⟩], {}⟩]

/-- The state after that: `a` has the rows 0 and 1 in the array 2. -/
def declared : Machine := ((Script.runWithin 5 block).exec SelfAssignment.start).2

def assigned : Machine :=
  (((Interpreter.within 3).execAssign (.ident b) (.ident SelfAssignment.a) false).exec declared).2

end RowCopies

open RowCopies in
theorem assigned_rows_are_isolated :
    SelfAssignment.start.Grounded ∧ Script.Visits 5 block SelfAssignment.start declared ∧
      assigned.scopes.stored? SelfAssignment.a = some (.array 2) ∧
      assigned.scopes.stored? b = some (.array 5) ∧
      declared.Separate assigned (.array 2) (.array 5) ∧ assigned.Isolates 2 5 := by
  have grounded : SelfAssignment.start.Grounded := Host.grounded_machine _ _ nofun
  have visits := Script.visits_runWithin 5 block SelfAssignment.start
  obtain ⟨copies, assigns, -⟩ := assignment_and_byVal_isolate grounded visits
  have small : 2 < declared.cells := Nat.lt_succ_self 2
  obtain ⟨keeps, -⟩ := copies (.array 2) ⟨Nat.zero_le 2, small⟩
  obtain ⟨-, assigns⟩ := assigns 3 (.ident b) (.ident SelfAssignment.a) (.array 2) declared rfl
  obtain ⟨-, separate, isolates⟩ := assigns.stored (.named b) _ _ rfl trivial rfl
  refine ⟨grounded, visits, rfl, rfl, separate, isolates 2 5 2 rfl rfl .refl fun reaches => ?_⟩
  have closed := (visits.grounded grounded).closed
  have inside := closed.reaches small (Heap.reaches_of_old keeps.old closed small reaches)
  exact absurd inside (Nat.not_lt_of_le (Nat.le_add_left 3 2))

namespace SelfAssignment

def declared : Machine := ((Script.runWithin 5 (block.take 1)).exec start).2

def assignment : Except Stop Unit × Machine :=
  ((Interpreter.within 3).execAssign (.call (.ident a) [.literal (.integer 1)]) (.ident a)
    false).exec declared

def written : Heap := (assignment.2.heap.setPath 1 [0] (.integer 9)).1

end SelfAssignment

open SelfAssignment in
/-- A copy that is put inside of its own array is seen through it. After `a(1) = a` the array 0 has
the copy, the array 1, as an element; what is written through the copy is then read through the
array. -/
theorem self_assigned_copy_shows_through :
    Script.Visits 5 (block.take 1) start declared ∧
      declared.scopes.stored? a = some (.array 0) ∧ declared.cells = 1 ∧
      assignment.1 = .ok ⟨⟩ ∧ (Place.element 0 [1]).Holds assignment.2 (.array 1) ∧
      (assignment.2.heap.array? 0).bind (assignment.2.heap.getPath · [1, 0]) = some .empty ∧
      (written.array? 0).bind (written.getPath · [1, 0]) = some (.integer 9) ∧
      ¬assignment.2.Isolates 0 1 := by
  refine ⟨Script.visits_runWithin _ _ _, rfl, rfl, rfl, rfl, rfl, rfl, fun isolates => ?_⟩
  have element : assignment.2.heap.Element 0 1 := ⟨⟨0, #[.empty, .array 1]⟩, rfl, by simp⟩
  have same : written.array? 1 = assignment.2.heap.array? 1 :=
    (isolates _ .here).2 1 _ .refl (.element [0] (.integer 9)) 1 (.single element)
  have read : some (Value.integer 9) = some .empty := congrArg (·.bind (·.items[0]?)) same
  cases read

end ServerScript
