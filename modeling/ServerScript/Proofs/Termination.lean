import Mathlib.Logic.Relation
import Mathlib.Order.OrderIsoNat
import Mathlib.Order.WellFounded
import ServerScript.Proofs.Settling

/-! Endless runs without loops. Calls are counted, blocks and expressions get smaller on the way
to their parts, and nothing else is left that could go on for ever but the two kinds of task which
start another task of their kind without a call: a store into an instance whose default member can
be read and not written, which is a store into what that member reads as, and a `New` in the bounds
of the fields of a class. A run without loops ends unless one of them goes on for ever. -/
namespace ServerScript

namespace Task

/-- Blocks issue expressions, expressions issue no blocks, and stores issue neither. -/
def order : Task → Nat
  | block _ => 3
  | expr _ => 2
  | store .. => 1
  | invoke .. => 0

noncomputable def size : Task → Nat
  | block body => sizeOf body
  | expr e => sizeOf e
  | _ => 0

end Task

namespace Point

variable {accepts : ClassDecl → Bool} {x y : Point} {f : ℕ → Point}

/-- The calls that are left, and then the order of the task. -/
def rank (x : Point) : Nat := 4 * (x.state.callLimit - x.state.callDepth) + x.task.order

/-- A task is followed by one of a smaller rank, or by one of its own order at its own depth. -/
theorem Follows.rank_lt_or (follows : x.Follows accepts y) :
    y.rank < x.rank ∨ y.rank = x.rank ∧ y.task.order = x.task.order ∧
      y.state.callDepth = x.state.callDepth := by
  obtain ⟨task, m⟩ := x
  obtain ⟨task', m'⟩ := y
  obtain ⟨-, next, callLimit, callDepth⟩ := follows
  dsimp only at next callLimit callDepth
  cases task <;> cases task' <;>
    simp only [Task.Next, Task.innerDepth] at next callDepth <;>
    dsimp only [rank, Task.order] <;> omega

theorem Follows.size_lt (follows : x.Follows accepts y) (same : y.task.order = x.task.order)
    (noNew : ∀ name, x.task ≠ .expr (.new name)) (noStore : x.task.order ≠ 1) :
    y.task.size < x.task.size := by
  obtain ⟨task, m⟩ := x
  obtain ⟨task', m'⟩ := y
  have next := follows.next
  cases task with
  | expr e =>
    cases task' with
    | expr part =>
      obtain member | ⟨⟨name, rfl⟩, -⟩ := next
      · exact Expr.sizeOf_of_mem_parts member
      · exact absurd rfl (noNew name)
    | _ => cases same
  | block outer =>
    cases task' with
    | block body =>
      obtain ⟨stmt, inside, member⟩ := next
      have := StmtKind.sizeOf_of_mem_bodies member
      have := List.sizeOf_lt_of_mem inside
      obtain ⟨kind, range⟩ := stmt
      rw [Stmt.mk.sizeOf_spec] at this
      dsimp only [Task.size] at *
      omega
    | _ => cases same
  | store => exact absurd rfl noStore
  | invoke =>
    cases task' with
    | invoke => cases next
    | _ => cases same

/-- An endless sequence of tasks, each of which may follow the one before, comes to a place after
which neither the order of the tasks nor their depth changes. -/
theorem exists_stable (follows : ∀ i, (f i).Follows accepts (f (i + 1))) :
    ∃ n, ∀ i, (f (n + i)).task.order = (f n).task.order ∧
      (f (n + i)).state.callDepth = (f n).state.callDepth := by
  let ranks : ℕ → ℕ := fun i => (f i).rank
  have antitone : Antitone ranks := by
    refine antitone_nat_of_succ_le fun i => ?_
    rcases (follows i).rank_lt_or with less | ⟨same, -⟩
    · exact Nat.le_of_lt less
    · exact Nat.le_of_eq same
  refine ⟨Function.argmin ranks, fun i => ?_⟩
  induction i with
  | zero => exact ⟨rfl, rfl⟩
  | succ i ih =>
    have least : ranks (Function.argmin ranks) ≤ ranks (Function.argmin ranks + i + 1) :=
      Function.argmin_le ranks _
    have before : ranks (Function.argmin ranks + i) ≤ ranks (Function.argmin ranks) :=
      antitone (Nat.le_add_right _ i)
    rcases (follows (Function.argmin ranks + i)).rank_lt_or with less | ⟨-, order, depth⟩
    · exact absurd less (Nat.not_lt_of_le (Nat.le_trans before least))
    · exact ⟨order.trans ih.1, depth.trans ih.2⟩

/-- A store into an instance that relays it: the default member of the class is a property that
can be read from outside and not written. -/
def Relays (index : List Value) (value : Value) (x : Point) : Prop :=
  ∃ cell cls name member, x.task = .store (.inst cell cls) index value name ∧
    cls.defaultMember = some member ∧ Interpreter.writer? cls member false .outside = none ∧
    (Interpreter.getter? cls member .outside).isSome

def IsExpr (x : Point) : Prop := ∃ e, x.task = .expr e

def IsNew (x : Point) : Prop := ∃ name, x.task = .expr (.new name)

end Point

/-- An endless sequence of tasks, each issued by the one before without a call: stores of one value
that are relayed from instance to instance, or expressions with a `New` among them again and
again. -/
structure Endless (f : ℕ → Point) : Prop where
  issues : ∀ i, (f i).Issues (f (i + 1))
  callDepth : ∀ i, (f i).state.callDepth = (f 0).state.callDepth
  kind : (∃ index value, ∀ i, (f i).Relays index value) ∨
    (∀ i, (f i).IsExpr) ∧ ∀ i, ∃ j, (f (i + j)).IsNew

namespace Point

variable {accepts : ClassDecl → Bool} {x y : Point} {f : ℕ → Point}

theorem defaultMember_of_memberName {cls : ClassDef} {member : Name}
    (found : Interpreter.memberName cls .blank = .ok member) : cls.defaultMember = some member := by
  rw [Interpreter.memberName, if_pos (by decide)] at found
  split at found
  · rename_i name known
    rw [known, Except.ok.inj found]
  · cases found

theorem Follows.relays {container : Value} {index : List Value} {value : Value} {name : Name}
    (follows : x.Follows accepts y) (free : x.LoopFree accepts)
    (store : x.task = .store container index value name) (same : y.task.order = 1) :
    x.Relays index value ∧ ∃ container' name', y.task = .store container' index value name' := by
  obtain ⟨task, m⟩ := x
  obtain ⟨task', m'⟩ := y
  obtain rfl : task = _ := store
  have next := follows.next
  cases task' with
  | store container' index' value' member =>
    obtain ⟨rfl, rfl, cell, cls, rfl, found, relayed⟩ := next
    refine ⟨⟨cell, cls, name, member, rfl, defaultMember_of_memberName found, ?_⟩,
      container', member, rfl⟩
    obtain ⟨source, -, done⟩ : (Policy.loopFree accepts).cls cls := free.task.1
    have noField :=
      (ClassDef.coherent_of_ofDecl done).field?_default (defaultMember_of_memberName found)
    simpa [Interpreter.relays, Interpreter.fieldInReach, noField] using relayed
  | _ => cases same

theorem exists_store_of_order (order : x.task.order = 1) :
    ∃ container index value name, x.task = .store container index value name := by
  cases task : x.task with
  | store container index value name => exact ⟨container, index, value, name, rfl⟩
  | _ =>
    rw [task] at order
    cases order

theorem isExpr_of_order (order : x.task.order = 2) : x.IsExpr := by
  cases task : x.task with
  | expr e => exact ⟨e, task⟩
  | _ =>
    rw [task] at order
    cases order

theorem exists_isNew (follows : ∀ i, (f i).Follows accepts (f (i + 1)))
    (order : ∀ i, (f i).task.order = (f 0).task.order) (noStore : (f 0).task.order ≠ 1) (i : ℕ) :
    ∃ j, (f (i + j)).IsNew := by
  by_contra never
  have drops : ∀ j, (f (i + (j + 1))).task.size < (f (i + j)).task.size := by
    intro j
    refine (follows (i + j)).size_lt ((order _).trans (order _).symm) (fun name isNew => ?_) ?_
    · exact never ⟨j, name, isNew⟩
    · rw [order]
      exact noStore
  exact not_strictAnti_of_wellFoundedLT (fun j => (f (i + j)).task.size)
    (strictAnti_nat_of_succ_lt drops)

theorem exists_relays (follows : ∀ i, (f i).Follows accepts (f (i + 1)))
    (free : ∀ i, (f i).LoopFree accepts) (order : ∀ i, (f i).task.order = 1) :
    ∃ index value, ∀ i, (f i).Relays index value := by
  obtain ⟨container, index, value, name, start⟩ := exists_store_of_order (order 0)
  have stores : ∀ i, ∃ container name, (f i).task = .store container index value name := by
    intro i
    induction i with
    | zero => exact ⟨container, name, start⟩
    | succ i ih =>
      obtain ⟨container, name, store⟩ := ih
      exact ((follows i).relays (free i) store (order (i + 1))).2
  refine ⟨index, value, fun i => ?_⟩
  obtain ⟨container, name, store⟩ := stores i
  exact ((follows i).relays (free i) store (order (i + 1))).1

/-- An endless sequence of issued tasks ends in one of the two endless kinds. -/
theorem exists_endless (issues : ∀ i, (f i).Issues (f (i + 1)))
    (follows : ∀ i, (f i).Follows accepts (f (i + 1))) :
    ∃ n, Endless fun i => f (n + i) := by
  obtain ⟨n, stable⟩ := exists_stable follows
  have order : ∀ i, (f (n + 1 + i)).task.order = (f (n + 1)).task.order := fun i => by
    rw [Nat.add_assoc, (stable (1 + i)).1, (stable 1).1]
  have depth : ∀ i, (f (n + 1 + i)).state.callDepth = (f (n + 1)).state.callDepth := fun i => by
    rw [Nat.add_assoc, (stable (1 + i)).2, (stable 1).2]
  refine ⟨n + 1, fun i => issues (n + 1 + i), depth, ?_⟩
  have follows' : ∀ i, (f (n + 1 + i)).Follows accepts (f (n + 1 + (i + 1))) := fun i =>
    follows (n + 1 + i)
  by_cases store : (f (n + 1)).task.order = 1
  · refine .inl (exists_relays follows' (fun i => ?_) fun i => (order i).trans store)
    rw [Nat.add_right_comm]
    exact (follows (n + i)).free
  · have again := exists_isNew (f := fun i => f (n + 1 + i)) follows' order store
    refine .inr ⟨fun i => isExpr_of_order ((order i).trans ?_), again⟩
    obtain ⟨j, name, isNew⟩ := again 0
    rw [← order (0 + j), isNew]
    rfl

theorem LoopFree.exists_endless (free : x.LoopFree accepts) (unsettled : ¬x.Settles) :
    ∃ f : ℕ → Point, Relation.ReflTransGen Issues x (f 0) ∧ Endless f ∧
      ∀ i, (f i).LoopFree accepts ∧ (f i).Follows accepts (f (i + 1)) := by
  have notAcc : ¬Acc (fun y x : Point => x.Issues y ∧ x.Follows accepts y) x := by
    intro acc
    induction acc with
    | intro x _ ih =>
      obtain ⟨y, issues, follows, unsettled'⟩ := free.exists_issues unsettled
      exact ih y ⟨issues, follows⟩ follows.free unsettled'
  obtain ⟨f, rfl, steps⟩ := not_acc_iff_exists_descending_chain.mp notAcc
  obtain ⟨n, endless⟩ := Point.exists_endless (fun i => (steps i).1) fun i => (steps i).2
  have path : ∀ i, Relation.ReflTransGen Issues (f 0) (f i) := by
    intro i
    induction i with
    | zero => exact .refl
    | succ i ih => exact ih.tail (steps i).1
  have frees : ∀ i, (f i).LoopFree accepts := by
    intro i
    cases i with
    | zero => exact free
    | succ i => exact (steps i).2.free
  exact ⟨fun i => f (n + i), path n, endless, fun i => ⟨frees (n + i), (steps (n + i)).2⟩⟩

theorem LoopFree.exhausted_of_endless (free : (f 0).LoopFree accepts)
    (issues : ∀ i, (f i).Issues (f (i + 1))) (n : ℕ) : ((f 0).run n).1 = .error .exhausted := by
  induction n generalizing f with
  | zero =>
    rw [run]
    cases (f 0).task <;> rfl
  | succ n ih =>
    have less := ih (f := fun i => f (i + 1)) (free.issues (issues 0)) fun i => issues (i + 1)
    exact (issues 0).exhausted free less

theorem LoopFree.path (free : x.LoopFree accepts) (path : Relation.ReflTransGen Issues x y) :
    y.LoopFree accepts := by
  induction path with
  | refl => exact free
  | tail _ issues ih => exact ih.issues issues

/-- What leads to a task that does not settle does not settle. -/
theorem LoopFree.not_settles_of_path (free : x.LoopFree accepts)
    (path : Relation.ReflTransGen Issues x y) (unsettled : ¬y.Settles) : ¬x.Settles := by
  induction path using Relation.ReflTransGen.head_induction_on with
  | refl => exact unsettled
  | head issues _ ih =>
    have unsettled' := ih (free.issues issues)
    rintro ⟨n, e, ends, same⟩
    have less := (free.issues issues).exhausted unsettled' n
    refine ends ?_
    rw [← same (n + 1) (Nat.le_succ n)]
    exact issues.exhausted free less

theorem not_settles_of_exhausted (exhausted : ∀ n, (x.run n).1 = .error .exhausted) :
    ¬x.Settles := by
  rintro ⟨n, e, ends, same⟩
  refine ends ?_
  rw [← same n (Nat.le_refl n)]
  exact exhausted n

end Point

mutual

def Expr.newFree : Expr → Bool
  | .new _ => false
  | .unary _ operand => operand.newFree
  | .binary _ lhs rhs => lhs.newFree && rhs.newFree
  | .call callee args => callee.newFree && exprsNewFree args
  | .member object _ => object.newFree
  | _ => true

def exprsNewFree : List Expr → Bool
  | [] => true
  | e :: rest => e.newFree && exprsNewFree rest

end

theorem exprsNewFree_eq_all (es : List Expr) : exprsNewFree es = es.all Expr.newFree := by
  induction es with
  | nil => rfl
  | cons e rest ih => rw [exprsNewFree, ih, List.all_cons]

theorem Expr.newFree_of_mem_parts {e part : Expr} (free : e.newFree) (member : part ∈ e.parts) :
    part.newFree := by
  cases e with
  | unary op operand => exact List.mem_singleton.mp member ▸ free
  | binary op lhs rhs =>
    rw [newFree, Bool.and_eq_true] at free
    simp only [parts, List.mem_cons, List.not_mem_nil, or_false] at member
    rcases member with rfl | rfl
    · exact free.1
    · exact free.2
  | call callee args =>
    rw [newFree, Bool.and_eq_true, exprsNewFree_eq_all, List.all_eq_true] at free
    rcases List.mem_append.mp member with member | member
    · cases callee with
      | ident | withMember => cases member
      | member object name => exact List.mem_singleton.mp member ▸ free.1
      | _ => exact List.mem_singleton.mp member ▸ free.1
    · exact free.2 part member
  | member object name => exact List.mem_singleton.mp member ▸ free
  | _ => cases member

/-- A class with no `New` in the bounds of its fields, whose default member relays no stores. -/
def ClassDef.steady (c : ClassDef) : Bool :=
  c.bounds.all Expr.newFree &&
    c.defaultMember.all fun member => !Interpreter.relays c member false .outside

def ClassDecl.steady (source : ClassDecl) : Bool :=
  match ClassDef.ofDecl source with
  | .ok c => c.steady
  | .error _ => true

theorem steady_of_loopFree {c : ClassDef} (allowed : (Policy.loopFree ClassDecl.steady).cls c) :
    c.steady := by
  obtain ⟨source, free, done⟩ := allowed
  rw [ClassDecl.loopFree_iff, Bool.and_eq_true, ClassDecl.steady, done] at free
  exact free.1

namespace Point

variable {x y : Point} {f : ℕ → Point}

theorem Relays.not_loopFree {index : List Value} {value : Value} (relays : x.Relays index value) :
    ¬x.LoopFree ClassDecl.steady := by
  rintro ⟨task, -⟩
  obtain ⟨cell, cls, name, member, store, isDefault, writer, getter⟩ := relays
  rw [store] at task
  have steady := steady_of_loopFree task.1
  rw [ClassDef.steady, Bool.and_eq_true, isDefault, Option.all_some] at steady
  simp [Interpreter.relays, writer, getter] at steady

theorem Follows.newFree (follows : x.Follows ClassDecl.steady y) (isExpr : y.IsExpr)
    {e : Expr} (task : x.task = .expr e) (inside : (∃ name, e = .new name) ∨ e.newFree) :
    ∃ part, y.task = .expr part ∧ part.newFree := by
  obtain ⟨part, task'⟩ := isExpr
  have next := follows.next
  rw [task, task'] at next
  refine ⟨part, task', ?_⟩
  rcases next with member | ⟨-, cls, allowed, member⟩
  · rcases inside with ⟨name, rfl⟩ | free
    · cases member
    · exact Expr.newFree_of_mem_parts free member
  · have steady := steady_of_loopFree allowed
    rw [ClassDef.steady, Bool.and_eq_true, List.all_eq_true] at steady
    exact steady.1 part member

theorem not_endless_of_steady (steps : ∀ i, (f i).LoopFree ClassDecl.steady ∧
    (f i).Follows ClassDecl.steady (f (i + 1))) : ¬Endless f := by
  intro endless
  rcases endless.kind with ⟨index, value, relays⟩ | ⟨exprs, again⟩
  · exact (relays 0).not_loopFree (steps 0).1
  · obtain ⟨j, name, isNew⟩ := again 0
    have free : ∀ k, ∃ e, (f (0 + j + 1 + k)).task = .expr e ∧ e.newFree := by
      intro k
      induction k with
      | zero => exact (steps _).2.newFree (exprs _) isNew (.inl ⟨name, rfl⟩)
      | succ k ih =>
        obtain ⟨e, task, inside⟩ := ih
        exact (steps _).2.newFree (exprs _) task (.inr inside)
    obtain ⟨k, other, isNew'⟩ := again (0 + j + 1)
    obtain ⟨e, task, inside⟩ := free k
    rw [task] at isNew'
    cases isNew'
    cases inside

end Point

namespace Script

variable {accepts : ClassDecl → Bool} {program : Block} {m : Machine}

/-- A run of a program ends in the same way under every bound that is large enough. -/
def Settles (program : Block) (m : Machine) : Prop :=
  ∃ n e, e.1 ≠ .error .exhausted ∧ ∀ k, n ≤ k → (runWithin k program).exec m = e

theorem hoist_cases (free : blockLoopFree accepts program)
    (carries : m.Carries (.loopFree accepts)) :
    (∃ s m₀, s ≠ .exhausted ∧ (Interpreter.hoist program).exec m = (.error s, m₀)) ∨
      ∃ m₀, (Interpreter.hoist program).exec m = (.ok ⟨⟩, m₀) ∧
        Point.LoopFree accepts ⟨.block program, m₀⟩ := by
  have holds := StmtJudgement.holds_hoist
    (S := ((Criterion.progress accepts fun _ => False).stmts
      m.callLimit m.callDepth).toStmtJudgement) program
    (fun _ _ _ _ => trivial) fun stmt member =>
      StmtKind.obeys_loopFree (loopFree_of_mem_block free member)
  cases holds m ⟨carries, rfl, rfl⟩ with
  | stuck y n never => exact never.elim
  | done r m₀ n ends result state same =>
    have final : (Interpreter.hoist program).exec m = (r, m₀) :=
      same ⟨n, none⟩ (Nat.le_refl n) (Trial.fair_none n)
    cases r with
    | error s => exact .inl ⟨s, m₀, fun same => ends (congrArg _ same), final⟩
    | ok u => exact .inr ⟨m₀, final, free, state.carries⟩

theorem loopFree_of_hoisted {m₀ : Machine} (free : blockLoopFree accepts program)
    (carries : m.Carries (.loopFree accepts))
    (hoisted : (Interpreter.hoist program).exec m = (.ok ⟨⟩, m₀)) :
    Point.LoopFree accepts ⟨.block program, m₀⟩ := by
  rcases hoist_cases free carries with ⟨s, m', -, failed⟩ | ⟨m', hoisted', inner⟩
  · rw [failed] at hoisted
    cases hoisted
  · rw [hoisted'] at hoisted
    cases hoisted
    exact inner

theorem settles_iff (free : blockLoopFree accepts program)
    (carries : m.Carries (.loopFree accepts)) :
    Settles program m ↔ ∀ m₀, (Interpreter.hoist program).exec m = (.ok ⟨⟩, m₀) →
      Point.Settles ⟨.block program, m₀⟩ := by
  rcases hoist_cases free carries with ⟨s, m₀, other, failed⟩ | ⟨m₀, hoisted, -⟩
  · refine ⟨fun _ m₀ hoisted => ?_, fun _ => ⟨0, (.error s, m₀), ?_, fun k _ => ?_⟩⟩
    · rw [failed] at hoisted
      cases hoisted
    · exact fun same => other (Except.error.inj same)
    · exact Run.exec_bind_error failed
  · have same : ∀ k, (runWithin k program).exec m = Point.run ⟨.block program, m₀⟩ k := fun _ =>
      Run.exec_bind_ok hoisted
    simp only [Settles, same]
    refine ⟨fun settles m' hoisted' => ?_, fun settles => settles m₀ hoisted⟩
    rw [hoisted] at hoisted'
    cases hoisted'
    exact settles

end Script

/-- A program without loops ends, whatever the limit on calls, unless its run comes to an endless
sequence of relayed stores or of instances that are created for the bounds of others. With steady
classes only, it always ends. -/
theorem loop_free_settles_iff {program : Block} {m : Machine}
    (free : blockLoopFree (fun _ => true) program) (carries : m.Carries (.loopFree fun _ => true)) :
    (Script.Settles program m ↔ ¬∃ m₀ f, (Interpreter.hoist program).exec m = (.ok ⟨⟩, m₀) ∧
      Relation.ReflTransGen Point.Issues ⟨.block program, m₀⟩ (f 0) ∧ Endless f) ∧
    (blockLoopFree ClassDecl.steady program → m.Carries (.loopFree ClassDecl.steady) →
      Script.Settles program m) := by
  refine ⟨?_, fun steady carries => ?_⟩
  · rw [Script.settles_iff free carries]
    constructor
    · rintro settles ⟨m₀, f, hoisted, path, endless⟩
      have start := Script.loopFree_of_hoisted free carries hoisted
      have unsettled : ¬(f 0).Settles := Point.not_settles_of_exhausted
        ((start.path path).exhausted_of_endless endless.issues)
      exact start.not_settles_of_path path unsettled (settles m₀ hoisted)
    · intro never m₀ hoisted
      by_contra unsettled
      obtain ⟨f, path, endless, -⟩ :=
        (Script.loopFree_of_hoisted free carries hoisted).exists_endless unsettled
      exact never ⟨m₀, f, hoisted, path, endless⟩
  · rw [Script.settles_iff steady carries]
    intro m₀ hoisted
    by_contra unsettled
    obtain ⟨f, -, endless, steps⟩ :=
      (Script.loopFree_of_hoisted steady carries hoisted).exists_endless unsettled
    exact Point.not_endless_of_steady steps endless

/-- `Function f(x)`, whose body is `f = f(x)`, and a class with a default property that can be read
and written. -/
def Script.callsItself : Block :=
  let f : Name := ⟨"f"⟩
  let x : Name := ⟨"x"⟩
  let item : Name := ⟨"item"⟩
  [⟨.procedure ⟨f, .function, .everyone, false, [{ name := x }],
      [⟨.assign (.ident f) (.call (.ident f) [.ident x]) false, {}⟩]⟩, {}⟩,
    ⟨.classDef ⟨"box", [.field .instanceOnly ⟨⟨"items"⟩, some [.literal (.integer 3)]⟩,
      .procedure ⟨item, .propertyGet, .everyone, true, [{ name := x }], []⟩,
      .procedure ⟨item, .propertyLet, .everyone, true, [{ name := x }, { name := ⟨"v"⟩ }], []⟩]⟩,
      {}⟩,
    ⟨.assign (.call (.new ⟨"box"⟩) [.literal (.integer 0)])
      (.call (.ident f) [.literal (.integer 1)]) false, {}⟩]

theorem endless_calls_settle :
    blockLoopFree (fun _ => true) Script.callsItself = true ∧
      Script.Settles Script.callsItself { callLimit := 3 } := by
  refine ⟨by decide, ?_⟩
  exact (loop_free_settles_iff (by decide) (Machine.carries_start _ 3)).2 (by decide)
    (Machine.carries_start _ 3)

namespace Interpreter

theorem exec_execStmt_exhausted {ev : Interpreter} {stmt : Stmt} {m m' m'' : Machine}
    (running : m.control.halt = none) (inTime : Run.checkDeadline.exec m = (.ok ⟨⟩, m'))
    (less : (execKind ev stmt.kind).exec m' = (.error .exhausted, m'')) :
    (execStmt ev stmt).exec m = (.error .exhausted, m'') :=
  exec_execStmt_of_final nofun running inTime less

end Interpreter

namespace Script

open Interpreter

theorem not_settles_of_last {decl : Stmt} {rest : Block} {m : Machine} (m₀ m₁ : Machine)
    (hoisted : (hoist (decl :: rest)).exec m = (.ok ⟨⟩, m₀))
    (declared : ∀ ev, (execStmt ev decl).exec m₀ = (.ok .normal, m₁))
    (less : ∀ k, ((execBlock (within (k + 1)) rest).exec m₁).1 = .error .exhausted) :
    ¬Settles (decl :: rest) m := by
  rintro ⟨n, e, ends, same⟩
  refine ends ?_
  rw [← same (n + 2) (Nat.le_add_right n 2), runWithin, Run.exec_bind_ok hoisted]
  change ((execBlock (within (n + 1)) (decl :: rest)).exec m₀).1 = _
  rw [execBlock, Run.exec_bind_ok (declared _)]
  exact less n

end Script

/-! A class with an array whose bound is a new instance of the class. -/

namespace Nest

open Interpreter

def nest : Name := ⟨"nest"⟩

def cls : ClassDef :=
  { name := "nest", fields := [(⟨"items"⟩, ⟨.everyone, some [.new nest]⟩)] }

def declare : Stmt := ⟨.classDef ⟨"nest", [.field .everyone ⟨⟨"items"⟩, some [.new nest]⟩]⟩, {}⟩

/-- `Set o = New nest`. -/
def create : Stmt := ⟨.assign (.ident ⟨"o"⟩) (.new nest) true, {}⟩

def state (view elapsed : Nat) : Machine :=
  { scopes := { globals := [(nest, .callable view (.cls cls))] }
    heap := { nextView := view + 1 }
    control := { elapsed } }

theorem exec_new (k : Nat) :
    ((within k).expr (.new nest)).exec (state 2 2) = (.error .exhausted, state 2 2) := by
  induction k with
  | zero => rfl
  | succ k ih =>
    have found : (Run.lookup nest).exec (state 2 2) =
      (.ok (some (.callable 2 (.cls cls))), state 2 2) := rfl
    have bounds : (dimensions (within k) [.new nest]).exec (state 2 2) =
        (.error .exhausted, state 2 2) := by
      rw [dimensions, List.mapM_cons]
      exact Run.exec_bind_error (Run.exec_bind_error ih)
    change (instantiate (within k) nest).exec _ = _
    rw [instantiate, Run.exec_bind_ok found]
    refine Run.exec_bind_error ?_
    simp only [cls, List.mapM_cons]
    exact Run.exec_bind_error (Run.exec_bind_error (Run.exec_bind_error bounds))

theorem exec_create (k : Nat) :
    (execStmt (within k) create).exec (state 2 1) = (.error .exhausted, state 2 2) :=
  exec_execStmt_exhausted rfl rfl (Run.exec_bind_error (Run.exec_bind_error (exec_new k)))

theorem not_settles : ¬Script.Settles [declare, create] {} := by
  refine Script.not_settles_of_last (state 1 0) (state 2 1) rfl (fun _ => rfl) fun k => ?_
  rw [execBlock, Run.exec_bind_error (exec_create _)]

end Nest

/-! A class whose default property reads as the instance itself. -/

namespace Mirror

open Interpreter

def mirror : Name := ⟨"mirror"⟩

def self : Name := ⟨"self"⟩

def o : Name := ⟨"o"⟩

/-- `Public Default Property Get self`, whose body is `Set self = Me`. -/
def getter : Procedure :=
  ⟨self, .propertyGet, .everyone, true, [], [⟨.assign (.ident self) .me true, {}⟩]⟩

def cls : ClassDef :=
  { name := "mirror", properties := [(self, { get := some getter })], defaultMember := some self }

def declare : Stmt := ⟨.classDef ⟨"mirror", [.procedure getter]⟩, {}⟩

/-- `Set o = New mirror`. -/
def create : Stmt := ⟨.assign (.ident o) (.new mirror) true, {}⟩

/-- `o(1) = 2`. -/
def write : Stmt :=
  ⟨.assign (.call (.ident o) [.literal (.integer 1)]) (.literal (.integer 2)) false, {}⟩

def this : InstanceRef := ⟨0, cls⟩

def start (view elapsed : Nat) : Machine :=
  { scopes := { globals := [(mirror, .callable view (.cls cls))] }
    heap := { nextView := view + 1 }
    control := { elapsed } }

def state (elapsed : Nat) : Machine :=
  { scopes := { globals := [(mirror, .callable 2 (.cls cls)), (o, this.value)] }
    heap := { instances := #[{}], nextView := 3 }
    control := { elapsed } }

theorem storeElement_eq (ev : Interpreter) (name : Name) :
    storeElement ev this.value [.integer 1] (.integer 2) name = (do
      let container ← guardGetter this self do
        return (← callWith ev getter (some this) []).value
      ev.store container [.integer 1] (.integer 2) self) := rfl

theorem exec_getter (k elapsed : Nat) :
    (guardGetter this self do
        return (← callWith (within (k + 3)) getter (some this) []).value).exec (state elapsed) =
      (.ok this.value, state (elapsed + 1)) := rfl

theorem exec_store (k elapsed : Nat) (name : Name) :
    (((within k).store this.value [.integer 1] (.integer 2) name).exec (state elapsed)).1 =
      .error .exhausted := by
  induction k generalizing elapsed name with
  | zero => rfl
  | succ k ih =>
    have rule : (within (k + 1)).store this.value [.integer 1] (.integer 2) name =
        storeElement (within k) this.value [.integer 1] (.integer 2) name := rfl
    rw [rule, storeElement_eq]
    match k with
    | 0 | 1 | 2 => rfl
    | k + 3 =>
      rw [Run.exec_bind_ok (exec_getter k elapsed)]
      exact ih (elapsed + 1) self

theorem exec_write (k : Nat) :
    ((execStmt (within (k + 1)) write).exec (state 2)).1 = .error .exhausted := by
  have rule : (execKind (within (k + 1)) write.kind).exec (state 3) =
      ((within (k + 1)).store this.value [.integer 1] (.integer 2) o >>= fun _ =>
        pure .normal).exec (state 3) := rfl
  have less := exec_store (k + 1) 3 o
  have ends : (execKind (within (k + 1)) write.kind).exec (state 3) = (.error .exhausted, _) :=
    rule.trans (Run.exec_bind_error (Prod.ext less rfl))
  rw [exec_execStmt_exhausted rfl rfl ends]

theorem not_settles : ¬Script.Settles [declare, create, write] {} := by
  refine Script.not_settles_of_last (start 1 0) (start 2 1) rfl (fun _ => rfl) fun k => ?_
  have created : (execStmt (within (k + 1)) create).exec (start 2 1) = (.ok .normal, state 2) := rfl
  rw [execBlock, Run.exec_bind_ok created]
  change ((execBlock (within (k + 1)) [write]).exec (state 2)).1 = _
  rw [execBlock, Run.exec_bind, exec_write]

end Mirror

/-- Without loops a run may still go on for ever: an instance that is created for the bounds of
another one, or a store that an instance relays to itself. -/
theorem uncounted_recursion_never_settles :
    blockLoopFree (fun _ => true) [Nest.declare, Nest.create] = true ∧
      ¬Script.Settles [Nest.declare, Nest.create] {} ∧
      blockLoopFree (fun _ => true) [Mirror.declare, Mirror.create, Mirror.write] = true ∧
      ¬Script.Settles [Mirror.declare, Mirror.create, Mirror.write] {} :=
  ⟨by decide, Nest.not_settles, by decide, Mirror.not_settles⟩

end ServerScript
