import ServerScript.Proofs.Names
import ServerScript.Proofs.DeclaredNames
import ServerScript.Proofs.Reachability

/-! The procedure that a call reaches. A name is looked up in the frames of all running procedures
before the globals, and a running function keeps its result so far in its own frame, under its own
name. A call of a global procedure therefore reaches it as long as no running procedure declares
its name, as a parameter, as a variable, as an inner procedure or class, or as a function by being
called so itself. -/
namespace ServerScript

variable {x : Name} {chain : List Procedure} {m m' : Machine}

def Scope.Binds (scope : Scope) (x : Name) : Prop := (lookupName x scope.locals).isSome

theorem Scope.binds_put {scope : Scope} {name : Name} {v : Value} :
    Scope.Binds { scope with locals := putName name v scope.locals } x ↔
      x = name ∨ scope.Binds x := by
  simp only [Scope.Binds, lookupName_putName]
  by_cases same : x = name <;> simp [same]

/-- Every running procedure has its frame, and a frame has a variable of a name only if its
procedure declares the name or if there is no such global. -/
structure Machine.Fit (x : Name) (chain : List Procedure) (m : Machine) : Prop where
  current : m.procedure = chain.head?
  frames : List.Forall₂ (fun decl scope => Scope.Binds scope x →
    x ∈ decl.names ∨ m.scopes.global? x = none) chain m.scopes.frames

theorem forall₂_imp_of_mem {P Q : α → β → Prop} {as : List α} {bs : List β}
    (implies : ∀ a, ∀ b ∈ bs, P a b → Q a b) (all : List.Forall₂ P as bs) :
    List.Forall₂ Q as bs := by
  induction all with
  | nil => exact .nil
  | cons first _ ih =>
    exact .cons (implies _ _ List.mem_cons_self first)
      (ih fun a b member => implies a b (List.mem_cons_of_mem _ member))

theorem exists_of_forall₂ {P : α → β → Prop} {as : List α} {bs : List β}
    (all : List.Forall₂ P as bs) {b : β} (member : b ∈ bs) : ∃ a ∈ as, P a b := by
  induction all with
  | nil => cases member
  | cons first _ ih =>
    rcases List.mem_cons.mp member with rfl | member
    · exact ⟨_, List.mem_cons_self, first⟩
    · obtain ⟨a, inside, held⟩ := ih member
      exact ⟨a, List.mem_cons_of_mem _ inside, held⟩

theorem forall₂_setInFrames {P : Procedure → Scope → Prop} {frames : List Scope} {name : Name}
    {v : Value} (keeps : ∀ decl scope, (lookupName name scope.locals).isSome → P decl scope →
      P decl { scope with locals := putName name v scope.locals })
    (all : List.Forall₂ P chain frames) :
    List.Forall₂ P chain (Scopes.setInFrames name v frames) := by
  induction all with
  | nil => exact .nil
  | cons first rest ih =>
    rw [Scopes.setInFrames]
    split
    · rename_i known
      exact .cons (keeps _ _ known first) rest
    · exact .cons first ih

theorem Scopes.global?_setGlobal (s : Scopes) (name : Name) (v : Value) :
    (s.setGlobal name v).global? x = if x = name then some v else s.global? x :=
  lookupName_putName name x v s.globals

namespace Machine.Fit

theorem ofScopes (fit : m.Fit x chain) (scopes : m'.scopes = m.scopes)
    (procedure : m'.procedure = m.procedure) : m'.Fit x chain := by
  refine ⟨procedure.trans fit.current, ?_⟩
  rw [scopes]
  exact fit.frames

theorem setGlobal (fit : m.Fit x chain) {name : Name} (v : Value)
    (missing : m.scopes.frameVariable? name = none) :
    Machine.Fit x chain { m with scopes := m.scopes.setGlobal name v } := by
  refine ⟨fit.current, ?_⟩
  rw [Scopes.frameVariable?, List.findSome?_eq_none_iff] at missing
  refine forall₂_imp_of_mem (fun decl scope member held binds => ?_) fit.frames
  refine (held binds).imp_right fun absent => ?_
  rw [Scopes.global?_setGlobal]
  split
  · rename_i same
    rw [Scope.Binds, same, missing scope member] at binds
    cases binds
  · exact absent

theorem assign (fit : m.Fit x chain) {name : Name} {v : Value} {scopes : Scopes} {heap : Heap}
    {r : Assigned} (done : m.scopes.assign m.heap name v = .ok (scopes, heap, r)) :
    Machine.Fit x chain { m with scopes, heap } := by
  obtain ⟨rfl, rfl, -⟩ | ⟨missing, rfl, rfl, -⟩ | ⟨i, rfl, rfl, -⟩ | ⟨i, -, rfl, rfl, -⟩ :=
    Scopes.assign_cases done
  · refine ⟨fit.current, forall₂_setInFrames (fun decl scope known held binds => ?_) fit.frames⟩
    rcases Scope.binds_put.mp binds with rfl | binds
    · exact held known
    · exact held binds
  · exact fit.setGlobal v missing
  · exact fit.ofScopes rfl rfl
  · exact fit.ofScopes rfl rfl

theorem define (fit : m.Fit x chain) {name : Name} {v : Value} {scopes : Scopes}
    (allowed : name = x → (∀ decl ∈ chain.head?, x ∈ decl.names) ∨ m.scopes.global? x = none)
    (done : m.scopes.define name v = .ok scopes) : Machine.Fit x chain { m with scopes } := by
  have frames := fit.frames
  obtain ⟨scope, rest, first, rfl⟩ | ⟨empty, rfl⟩ := Scopes.define_cases done
  · rw [first] at frames
    cases frames with
    | @cons decl _ outer _ head tail =>
      refine ⟨fit.current, .cons (fun binds => ?_) tail⟩
      rcases Scope.binds_put.mp binds with rfl | binds
      · exact (allowed rfl).imp_left fun declares => declares decl rfl
      · exact head binds
  · rw [empty] at frames
    cases frames
    refine ⟨fit.current, ?_⟩
    simp [Scopes.setGlobal, empty]

theorem setConstant (fit : m.Fit x chain) {name : Name} {v : Value} {scopes : Scopes}
    (done : m.scopes.setConstant name v = .ok scopes) : Machine.Fit x chain { m with scopes } := by
  have frames := fit.frames
  obtain ⟨scope, rest, first, rfl⟩ | ⟨-, rfl⟩ := Scopes.setConstant_cases done
  · rw [first] at frames
    cases frames with
    | cons head tail => exact ⟨fit.current, .cons head tail⟩
  · exact ⟨fit.current, frames⟩

theorem enter (fit : m.Fit x chain) (decl : Procedure) (this : Option InstanceRef) :
    Machine.Fit x (decl :: chain) (Interpreter.enter decl this m) := by
  refine ⟨rfl, .cons (fun binds => ?_) fit.frames⟩
  exact absurd binds (by simp [Scope.Binds, lookupName])

theorem leave (fit : m.Fit x chain) {decl : Procedure} (body : m'.Fit x (decl :: chain)) :
    Machine.Fit x chain (Interpreter.leave (.ofMachine m) m') := by
  refine ⟨fit.current, ?_⟩
  change List.Forall₂ (fun decl scope => Scope.Binds scope x →
    x ∈ decl.names ∨ m'.scopes.global? x = none) chain (m'.scopes.frames.drop 1)
  have frames := body.frames
  cases same : m'.scopes.frames with
  | nil =>
    rw [same] at frames
    cases frames
  | cons scope rest =>
    rw [same] at frames
    cases frames with
    | cons _ tail => exact tail

end Machine.Fit

def callExprs (x : Name) (chain : List Procedure) : ExprDiscipline where
  Pre := Machine.Fit x chain
  Step _ := Machine.Fit x chain
  refl pre := pre
  trans _ second := second
  keeps _ step := step
  moves pre moved := pre.ofScopes moved.scopes moved.procedure
  assign pre done := pre.assign done
  enterGetter pre _ := pre.ofScopes rfl rfl
  leaveGetter _ _ inner := inner.ofScopes rfl rfl

def callStmts (x : Name) (chain : List Procedure) : StmtDiscipline where
  toDiscipline := (callExprs x chain).toDiscipline
  exprs := callExprs x chain
  declares name := ∀ decl ∈ chain.head?, name ∈ decl.names
  modes _ := True
  pre_iff := .rfl
  lift _ step := step
  define pre declares done := pre.define (fun same => .inl (same ▸ declares)) done
  constant pre done := pre.setConstant done
  extend pre missing done :=
    pre.define (fun same => .inr (same ▸ Scopes.global?_of_resolve_missing missing)) done
  errorMode pre _ := pre.ofScopes rfl rfl
  compareMode pre := ⟨pre.current, pre.frames⟩
  enterWith pre := pre.ofScopes rfl rfl
  leaveWith _ inner := inner.ofScopes rfl rfl

/-- The regime under which frames have variables of a name only where procedures declare it. -/
def callRegime (x : Name) : Regime where
  stmts := callStmts x
  fits chain block := ∀ decl ∈ chain.head?, blockNames block ⊆ decl.names
  rest fits decl head := List.Subset.trans (blockNames_subset_cons _ _) (fits decl head)
  inner fits member inside decl head :=
    List.Subset.trans (bodies_subset_names inside)
      (List.Subset.trans (names_subset_blockNames member) (fits decl head))
  declared fits member inside decl head :=
    fits decl head (names_subset_blockNames member (declared_subset_names _ inside))
  modes _ _ _ := trivial
  body _ decl := by
    rintro _ ⟨⟩
    exact List.subset_append_right _ _
  params _ decl param member := by
    rintro _ ⟨⟩
    exact List.mem_append_left _ (List.mem_append_left _ (List.mem_map_of_mem member))
  result _ decl returns := by
    rintro _ ⟨⟩
    simp [Procedure.names, returns]
  scalars _ decl name member := by
    rintro _ ⟨⟩
    exact List.mem_append_right _ (blockScalars_subset _ member)
  enter pre _ := pre.enter _ _
  leave pre body := pre.leave body

namespace Stage.Reachable

variable {s : Stage}

theorem fit (reachable : s.Reachable) (x : Name) : s.state.Fit x s.chain := by
  have start : ∀ m : Machine, m.AtRest → m.Fit x [] := by
    intro m rest
    refine ⟨rest.procedure, ?_⟩
    rw [rest.frames]
    exact .nil
  exact ((callRegime x).reachable reachable start fun _ _ => nofun).1

theorem frameVariable?_eq_none (reachable : s.Reachable) {v : Value}
    (stored : s.state.scopes.global? x = some v) (free : ∀ decl ∈ s.chain, x ∉ decl.names) :
    s.state.scopes.frameVariable? x = none := by
  have frames := (reachable.fit x).frames
  rw [stored] at frames
  rw [Scopes.frameVariable?, List.findSome?_eq_none_iff]
  intro scope member
  obtain ⟨decl, running, held⟩ := exists_of_forall₂ frames member
  by_contra some
  rcases held (Option.isSome_iff_ne_none.mpr some) with declares | absent
  · exact free decl running declares
  · cases absent

end Stage.Reachable

/-- Values that have neither elements nor members and that cannot be called. -/
def Value.isScalar : Value → Bool
  | .array _ | .object _ | .inst .. | .callable .. => false
  | _ => true

namespace Interpreter

variable {ev : Interpreter}

theorem arguments_ne_nil {e : Expr} {rest : List Expr} {given : Arguments}
    (done : (arguments ev (e :: rest)).exec m = (.ok given, m')) : given.values ≠ [] := by
  rw [arguments] at done
  obtain ⟨origin, m₁, -, done⟩ := Run.exists_of_exec_bind_eq_ok done
  obtain ⟨value, m₂, -, done⟩ := Run.exists_of_exec_bind_eq_ok done
  obtain ⟨others, m₃, -, done⟩ := Run.exists_of_exec_bind_eq_ok done
  cases done
  exact List.cons_ne_nil _ _

theorem exec_callName (args : List Expr)
    (other : ∀ decl, m.procedure = some decl → decl.name = x → decl.kind.returnsValue = false) :
    (callName ev x args).exec m = (callFound ev x args).exec m := by
  rw [callName]
  split
  · rfl
  · have target : (recursiveTarget? x).exec m = (.ok none, m) := by
      have none : (m.procedure.filter fun decl =>
          decl.name == x && decl.kind.returnsValue) = none := by
        rw [Option.filter_eq_none_iff]
        intro decl running
        by_cases same : decl.name = x
        · simp [other decl running same]
        · simp [same]
      exact congrArg (fun r => (Except.ok r, m)) none
    rw [Run.exec_bind_ok target]

theorem exec_callFound_procedure {id : Nat} {f : Procedure} (args : List Expr)
    (found : m.scopes.resolve m.heap x = .value (.callable id (.procedure f))) :
    (callFound ev x args).exec m =
      (arguments ev args >>= fun given => callProcedure ev f none given).exec m := by
  have resolved : (Run.resolve x).exec m = (.ok (.value (.callable id (.procedure f))), m) :=
    congrArg (fun r => (Except.ok r, m)) found
  rw [callFound, Run.exec_bind_ok resolved]

theorem exec_callFound_variable {v : Value} (args : List Expr)
    (uncalled : ∀ id target, v ≠ .callable id target)
    (found : m.scopes.resolve m.heap x = .value v) :
    (callFound ev x args).exec m =
      (arguments ev args >>= fun given => indexValue ev v given.values x).exec m := by
  have resolved : (Run.resolve x).exec m = (.ok (.value v), m) :=
    congrArg (fun r => (Except.ok r, m)) found
  rw [callFound, Run.exec_bind_ok resolved]
  cases v with
  | callable id target => exact absurd rfl (uncalled id target)
  | _ => rfl

theorem exec_indexValue_scalar {v : Value} (scalar : v.isScalar) {args : List Expr}
    (some : args ≠ []) :
    (arguments ev args >>= fun given => indexValue ev v given.values x).exec m =
      (arguments ev args >>= fun _ => Run.error (.typeMismatch x.text) : Run Value).exec m := by
  obtain ⟨e, rest, rfl⟩ := List.exists_cons_of_ne_nil some
  refine Run.exec_bind_congr fun given m' done => ?_
  obtain ⟨first, others, values⟩ := List.exists_cons_of_ne_nil (arguments_ne_nil done)
  rw [values]
  cases v with
  | array | object | inst | callable => cases scalar
  | _ => rfl

end Interpreter

/-- Where a call of a global procedure goes. At every stage of a run, for a name that is neither a
constant nor a member of the current instance nor the function that is running, the procedure is
invoked with the arguments if the name is no variable of a running procedure, which it cannot be
unless one of them declares it. Where it is a variable, the variable is read at the arguments; that
is refused if it holds a scalar, as the result of a running function does at first. -/
theorem call_reaches_procedure {s : Stage} (reachable : s.Reachable) {x : Name} {id : Nat}
    {f : Procedure} (stored : s.state.scopes.global? x = some (.callable id (.procedure f)))
    (constant : s.state.scopes.constant? x = none)
    (member : s.state.scopes.member? s.state.heap x = none)
    (other : ∀ decl, s.state.procedure = some decl → decl.name = x → decl.kind.returnsValue = false)
    (ev : Interpreter) (args : List Expr) :
    ((∀ decl ∈ s.chain, x ∉ decl.names) → s.state.scopes.frameVariable? x = none) ∧
    (s.state.scopes.frameVariable? x = none →
      (ev.evalCall (.ident x) args).exec s.state =
        Run.exec (do
          let given ← ev.arguments args
          if f.params.length < given.values.length then
            Run.error (.invalidNumberOfArguments f.name.text)
          else
            let result ← ev.invoke f none given.values
            ev.writeBackAll f.params given.origins result.params
            return result.value) s.state) ∧
    ∀ v, s.state.scopes.frameVariable? x = some v → (∀ id target, v ≠ .callable id target) →
      (ev.evalCall (.ident x) args).exec s.state =
          Run.exec (do
            let given ← ev.arguments args
            ev.indexValue v given.values x) s.state ∧
        (v.isScalar → args ≠ [] → (ev.evalCall (.ident x) args).exec s.state =
          Run.exec (do
            let _ ← ev.arguments args
            Run.error (.typeMismatch x.text)) s.state) := by
  refine ⟨reachable.frameVariable?_eq_none stored, fun free => ?_, fun v bound uncalled => ?_⟩
  · have found := Scopes.resolve_global constant free member stored
    rw [Interpreter.evalCall, Interpreter.exec_callName args other,
      Interpreter.exec_callFound_procedure args found]
    refine Run.exec_bind_congr fun given m' _ => ?_
    rw [Interpreter.callProcedure, Interpreter.callWith]
    split <;> rfl
  · have found : s.state.scopes.resolve s.state.heap x = .value v := by
      simp [Scopes.resolve, constant, bound]
    rw [Interpreter.evalCall, Interpreter.exec_callName args other,
      Interpreter.exec_callFound_variable args uncalled found]
    exact ⟨rfl, fun scalar some => Interpreter.exec_indexValue_scalar scalar some⟩

namespace PingPong

def ping : Name := ⟨"ping"⟩

def pong : Name := ⟨"pong"⟩

def again : Name := ⟨"again"⟩

def function (name : Name) (body : Block) : Procedure :=
  ⟨name, .function, .everyone, false, [{ name := again }], body⟩

def assign (target : Name) (value : Expr) : Stmt := ⟨.assign (.ident target) value false, {}⟩

/-- `If again Then ping = pong(False) Else ping = 7`. -/
def pingDecl : Procedure :=
  function ping [⟨.choose
    [⟨.ident again, [assign ping (.call (.ident pong) [.literal (.bool false)])]⟩]
    (some [assign ping (.literal (.integer 7))]), {}⟩]

/-- `pong = ping(again)`. -/
def pongDecl : Procedure := function pong [assign pong (.call (.ident ping) [.ident again])]

/-- Two functions that call each other, and `r = ping(start)`. -/
def program (start : Bool) : Block :=
  [⟨.procedure pingDecl, {}⟩, ⟨.procedure pongDecl, {}⟩,
    assign ⟨"r"⟩ (.call (.ident ping) [.literal (.bool start)])]

def stored : Machine :=
  { scopes := {
      globals := [(ping, .callable 1 (.procedure pingDecl)),
        (pong, .callable 2 (.procedure pongDecl))] } }

def inPong : Machine :=
  { Interpreter.enter pongDecl none stored with
    scopes := { stored.scopes with
      frames := [{ locals := [(again, .bool false), (pong, .empty)] }] } }

end PingPong

theorem call_reaches_ping :
    (Script.interpreter.evalCall (.ident PingPong.ping) [.ident PingPong.again]).exec
        PingPong.inPong =
      Run.exec (do
        let given ← Script.interpreter.arguments [.ident PingPong.again]
        if PingPong.pingDecl.params.length < given.values.length then
          Run.error (.invalidNumberOfArguments "ping")
        else
          let result ← Script.interpreter.invoke PingPong.pingDecl none given.values
          Script.interpreter.writeBackAll PingPong.pingDecl.params given.origins result.params
          return result.value) PingPong.inPong := by
  have rest : PingPong.stored.AtRest := ⟨rfl, rfl, rfl, rfl, rfl, fun _ => rfl⟩
  have opened : (Interpreter.openFrame PingPong.pongDecl [.bool false]).exec
      (Interpreter.enter PingPong.pongDecl none PingPong.stored) = (.ok ⟨⟩, PingPong.inPong) := rfl
  have room : PingPong.stored.callDepth < PingPong.stored.callLimit := by decide
  have reachable : Stage.Reachable ⟨0, [PingPong.pongDecl], .block PingPong.pongDecl.body,
      PingPong.inPong⟩ :=
    .step (.start rest) (.issue ((Interpreter.within 0).issues_body room opened))
  have other : ∀ decl, PingPong.inPong.procedure = some decl → decl.name = PingPong.ping →
      decl.kind.returnsValue = false := by
    intro decl running same
    cases running
    exact absurd same (by decide)
  have reaches := call_reaches_procedure reachable rfl rfl rfl other Script.interpreter
    [.ident PingPong.again]
  exact reaches.2.1 (reaches.1 (by decide))

def Run.failsWith (e : EvalError) : Except Stop α → Bool
  | .error (.error e') => decide (e' = e)
  | _ => false

theorem Run.eq_of_failsWith {e : EvalError} {r : Except Stop α} (fails : failsWith e r = true) :
    r = .error (.error e) := by
  rcases r with ⟨⟨e'⟩ | ⟨f⟩ | _⟩ | a
  · rw [of_decide_eq_true fails]
  · cases fails
  · cases fails
  · cases fails

/-- With the first function still running, its result so far stands in front of it: two functions
cannot call each other again. -/
theorem mutual_recursion_refused :
    ((Script.run (PingPong.program true)).exec {}).1 = .error (.error (.typeMismatch "ping")) :=
  Run.eq_of_failsWith (by decide +kernel)

end ServerScript
