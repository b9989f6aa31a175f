import ServerScript.Proofs.Halts

/-! Exits are lexically scoped. An exit that a block ends with stands in the text of the block,
outside of every construct that keeps it to itself, whatever procedures are run on the way. An exit
that ends a block inside of a statement ends the statement too, unless it is its own. -/
namespace ServerScript

/-- An exit that a block may end with: one of its statements, or an exit of a block inside of one
that does not keep it to itself. The bodies of declarations are no part of the block. -/
inductive Exits (kind : ExitKind) : Block → Prop where
  | here {block stmt} (member : stmt ∈ block) (exit : Stmt.kind stmt = .exit kind) :
    Exits kind block
  | inner {block stmt body} (member : stmt ∈ block) (inside : body ∈ (Stmt.kind stmt).bodies)
    (leaves : (Stmt.kind stmt).own ≠ some kind) (exits : Exits kind body) : Exits kind block

theorem Flow.outside_eq_exit {own : Option ExitKind} {flow : Flow} {kind : ExitKind}
    (same : flow.outside own = .exit kind) : flow = .exit kind ∧ own ≠ some kind := by
  cases flow with
  | exit other =>
    rw [outside] at same
    split at same
    · cases same
    · next leaves =>
      cases same
      exact ⟨rfl, leaves⟩
  | _ => cases same

namespace Interpreter

variable {ev : Interpreter} {stmt : Stmt} {m m' : Machine} {kind : ExitKind}

section

variable (bodies : ∀ block m m' kind, (ev.block block).exec m = (.ok (.exit kind), m') →
  Exits kind block)

include bodies

theorem exits_execStmt (ends : (execStmt ev stmt).exec m = (.ok (.exit kind), m')) :
    Exits kind [stmt] := by
  rcases execStmt_cases ends with ⟨_, _, ⟨⟩, _⟩ | ⟨-, -, m₁, -, ran⟩ | none
  · by_cases exit : ∃ other, stmt.kind = .exit other
    · obtain ⟨other, same⟩ := exit
      rw [same] at ran
      cases ran
      exact .here List.mem_cons_self same
    · refine (routes_execKind ev (not_exists.mp exit)).ends ev.block
        (P := fun flow _ => flow = .exit kind → Exits kind [stmt]) (fun _ => nofun)
        (fun _ _ => id) (fun body inside m m' flow ran same => ?_) ran rfl
      obtain ⟨rfl, leaves⟩ := Flow.outside_eq_exit same
      exact .inner List.mem_cons_self inside leaves (bodies body m m' kind ran)
  · cases halt : m'.control.halt <;> rw [halt] at none <;> cases none

theorem exits_execBlock {block : Block}
    (ends : (execBlock ev block).exec m = (.ok (.exit kind), m')) : Exits kind block := by
  induction block generalizing m with
  | nil => cases ends
  | cons stmt rest ih =>
    obtain ⟨flow, m₁, begun, ends⟩ := Run.exists_of_exec_bind_eq_ok ends
    match flow, ends with
    | .normal, ends =>
      cases ih ends with
      | here member exit => exact .here (List.mem_cons_of_mem stmt member) exit
      | inner member inside leaves exits =>
        exact .inner (List.mem_cons_of_mem stmt member) inside leaves exits
    | .exit other, ends =>
      cases ends
      cases exits_execStmt bodies begun with
      | here member exit =>
        exact .here (List.mem_singleton.mp member ▸ List.mem_cons_self) exit
      | inner member inside leaves exits =>
        exact .inner (List.mem_singleton.mp member ▸ List.mem_cons_self) inside leaves exits
    | .halt reason, ends => cases ends

end

theorem exits_within (n : Nat) {block : Block}
    (ends : ((within n).block block).exec m = (.ok (.exit kind), m')) : Exits kind block := by
  induction n generalizing block m m' kind with
  | zero => cases ends
  | succ n ih => exact exits_execBlock (fun _ _ _ _ => ih) ends

/-- A statement comes to run a block inside of it at a state: the statement would end differently
were the block refused there. -/
def Enters (ev : Interpreter) (stmt : Stmt) (m : Machine) (body : Block) (start : Machine) : Prop :=
  ∃ stop, ((ev.refusing (.block body) start stop).execStmt stmt).exec m ≠ (ev.execStmt stmt).exec m

theorem refusing_block (ev : Interpreter) (body : Block) (start : Machine) (stop : Stop) :
    ev.refusing (.block body) start stop = ev.withBlocks fun block =>
      (ev.block block).stopAt (fun m => Task.block body = .block block ∧ m = start) stop := by
  have other : ∀ {α : Type} (act : Run α) (task : Task), Task.block body ≠ task →
      act.stopAt (fun m => Task.block body = task ∧ m = start) stop = act := by
    intro α act task differs
    exact Run.ext fun m => Run.exec_stopAt_of_not (fun here => differs here.1) act stop
  rw [refusing, withBlocks]
  congr 1
  · exact funext fun e => other _ _ nofun
  · exact funext fun decl => funext fun this => funext fun values => other _ _ nofun
  · exact funext fun container => funext fun index => funext fun value => funext fun name =>
      other _ _ nofun

/-- A flow that ends a block early ends the statement around it, unless it is its own exit. -/
theorem Enters.relays {body : Block} {start last : Machine} {flow : Flow}
    (enters : ev.Enters stmt m body start) (ends : (ev.block body).exec start = (.ok flow, last))
    (early : flow ≠ .normal) :
    ∃ m', (execStmt ev stmt).exec m =
      (.ok (if flow.outside stmt.kind.own = .normal then m'.control.halt.elim .normal .halt
        else flow.outside stmt.kind.own), m') := by
  obtain ⟨stop, differs⟩ := enters
  rw [refusing_block] at differs
  have running : m.control.halt = none := by
    by_contra asked
    obtain ⟨reason, asked⟩ := Option.ne_none_iff_exists'.mp asked
    refine differs ?_
    rw [exec_execStmt_of_halted _ stmt asked, exec_execStmt_of_halted _ stmt asked]
  have other : ∀ exit, stmt.kind ≠ .exit exit := by
    rintro exit same
    refine differs (exec_execStmt_congr ?_)
    rw [work, work, same]
    rfl
  have apart : ∀ block m, ¬(block = body ∧ m = start) →
      ((ev.block block).stopAt (fun m => Task.block body = .block block ∧ m = start) stop).exec m =
        (ev.block block).exec m := fun block m apart =>
    Run.exec_stopAt_of_not (fun here => apart ⟨(Task.block.inj here.1).symm, here.2⟩) _ stop
  -- The look at the clock runs no block.
  have works : Routes stmt.kind.own stmt.kind.bodies fun run => (ev.withBlocks run).work stmt :=
    .step fun _ => routes_execKind ev other
  rcases works.relays early ends apart m with same | done
  · exact absurd (exec_execStmt_congr same) differs
  · obtain ⟨m', worked⟩ : ∃ m', (ev.work stmt).exec m = (.ok (flow.outside stmt.kind.own), m') :=
      ⟨_, Prod.ext done rfl⟩
    refine ⟨m', ?_⟩
    rw [exec_execStmt ev stmt running, worked]

theorem Enters.of_first {body : Block} {start : Machine}
    {f : (Block → Run Flow) → Flow → Run Flow} (running : m.control.halt = none)
    (first : ∀ run, ((ev.withBlocks run).work stmt).exec m = (run body >>= f run).exec start) :
    ev.Enters stmt m body start := by
  refine Stop.exists_shows (fun stop final => ?_) _
  obtain ⟨run, same⟩ : ∃ run, ev.refusing (.block body) start stop = ev.withBlocks run :=
    ⟨_, ev.refusing_block body start stop⟩
  have refused : ((ev.refusing (.block body) start stop).block body).exec start =
      (.error stop, start) := Run.exec_stopAt ⟨rfl, rfl⟩ _ stop
  rw [same] at refused ⊢
  have worked : ((ev.withBlocks run).work stmt).exec m = (.error stop, start) :=
    (first run).trans (Run.exec_bind_error refused)
  rw [exec_execStmt _ stmt running, worked]
  cases stop with
  | error e => exact absurd rfl (final e)
  | _ => rfl

end Interpreter

/-- Exits are lexically scoped. An exit that a block ends with is one of the exits of its text. If a
statement comes to run a block inside of it and that block ends with an exit, the statement ends
with the same exit, unless it is its own; then it ends normally, or with the stop that was asked
for. A statement without blocks that is no exit itself ends with none, whatever procedures it runs,
for a call hands back a result whichever flow its body ends with. -/
theorem exits_lexically_scoped :
    (∀ (n : Nat) (block : Block) (m m' : Machine) (kind : ExitKind),
      ((Interpreter.within n).execBlock block).exec m = (.ok (.exit kind), m') →
      Exits kind block) ∧
    (∀ (n : Nat) (stmt : Stmt) (m : Machine) (body : Block) (start last : Machine)
      (kind : ExitKind), (Interpreter.within n).Enters stmt m body start →
      ((Interpreter.within n).block body).exec start = (.ok (.exit kind), last) →
      (stmt.kind.own ≠ some kind →
        (((Interpreter.within n).execStmt stmt).exec m).1 = .ok (.exit kind)) ∧
      (stmt.kind.own = some kind → ∃ m', ((Interpreter.within n).execStmt stmt).exec m =
        (.ok (m'.control.halt.elim .normal .halt), m'))) ∧
    (∀ (n : Nat) (stmt : Stmt) (m m' : Machine) (kind : ExitKind), stmt.kind.bodies = [] →
      (∀ exit, stmt.kind ≠ .exit exit) →
      ((Interpreter.within n).execStmt stmt).exec m ≠ (.ok (.exit kind), m')) ∧
    ∀ (n : Nat) (decl : Procedure) (this : Option InstanceRef) (values : List Value)
      (m start last : Machine) (flow : Flow), m.callDepth < m.callLimit →
      (Interpreter.openFrame decl values).exec (Interpreter.enter decl this m) = (.ok ⟨⟩, start) →
      ((Interpreter.within n).block decl.body).exec start = (.ok flow, last) →
      ∃ result, ((Interpreter.within n).invokeProcedure decl this values).exec m =
        (.ok result, Interpreter.leave (.ofMachine m) last) := by
  refine ⟨fun n block m m' kind => Interpreter.exits_within (n + 1),
    fun n stmt m body start last kind enters ends => ⟨fun leaves => ?_, fun own => ?_⟩,
    fun n stmt m m' kind none other ends => ?_,
    fun n decl this values m start last flow room opened ends => ?_⟩
  · obtain ⟨m', done⟩ := enters.relays ends nofun
    have outside : (Flow.exit kind).outside stmt.kind.own = .exit kind := if_neg leaves
    rw [done, outside, if_neg nofun]
  · obtain ⟨m', done⟩ := enters.relays ends nofun
    have outside : (Flow.exit kind).outside stmt.kind.own = .normal := if_pos own
    rw [outside, if_pos rfl] at done
    exact ⟨m', done⟩
  · cases Interpreter.exits_execStmt (fun _ _ _ _ => Interpreter.exits_within n) ends with
    | here member exit => exact other kind (List.mem_singleton.mp member ▸ exit)
    | inner member inside =>
      rw [List.mem_singleton.mp member, none] at inside
      cases inside
  · rw [Interpreter.exec_invokeProcedure, if_neg (Nat.not_le_of_lt room),
      Interpreter.exec_runBody _ opened, Run.exec_bind_ok ends]
    exact ⟨_, rfl⟩

/-- `While True`, `Exit Do`, `Wend`. -/
def Stmt.whileExits : Stmt := ⟨.whileLoop (.literal (.bool true)) [⟨.exit .doLoop, {}⟩], {}⟩

def Stmt.doExits : Stmt := ⟨.doLoop none [.whileExits], {}⟩

/-- The state after two looks at the clock, one of the statement and one of its first turn. -/
def Machine.inTurn : Machine := { control := { elapsed := 2 } }

/-- `Function f`, whose body is `Exit Do`. -/
def Procedure.leaving : Procedure :=
  ⟨⟨"f"⟩, .function, .everyone, false, [], [⟨.exit .doLoop, {}⟩]⟩

theorem exit_leaves_inner_loop :
    Exits .doLoop [.whileExits] ∧
    (((Interpreter.within 9).execStmt .whileExits).exec {}).1 = .ok (.exit .doLoop) ∧
    (∃ m', ((Interpreter.within 9).execStmt .doExits).exec {} =
      (.ok (m'.control.halt.elim .normal .halt), m')) ∧
    (∀ m', ((Interpreter.within 9).execStmt ⟨.call (.ident ⟨"f"⟩), {}⟩).exec
      ((Interpreter.defineProcedure .leaving).exec {}).2 ≠ (.ok (.exit .doLoop), m')) ∧
    ∃ result last, ((Interpreter.within 9).invokeProcedure .leaving none []).exec {} =
      (.ok result, last) := by
  obtain ⟨lexical, relayed, plain, calls⟩ := exits_lexically_scoped
  have ends : (((Interpreter.within 9).execBlock [.whileExits]).exec {}).1 =
      .ok (.exit .doLoop) := by decide +kernel
  have exits : (((Interpreter.within 9).block [.whileExits]).exec .inTurn).1 =
      .ok (.exit .doLoop) := by decide +kernel
  have inWhile : (Interpreter.within 9).Enters .whileExits {} [⟨.exit .doLoop, {}⟩] .inTurn :=
    .of_first rfl fun run => rfl
  have inDo : (Interpreter.within 9).Enters .doExits {} [.whileExits] .inTurn :=
    .of_first rfl fun run => rfl
  refine ⟨lexical 9 _ {} _ _ (Prod.ext ends rfl), ?_, ?_, fun m' => ?_, ?_⟩
  · exact (relayed 9 _ {} _ _ _ .doLoop inWhile rfl).1 nofun
  · exact (relayed 9 _ {} _ _ _ .doLoop inDo (Prod.ext exits rfl)).2 rfl
  · exact plain 9 _ _ m' .doLoop rfl nofun
  · obtain ⟨result, done⟩ := calls 9 .leaving none [] {} _ _ (.exit .doLoop) (by decide) rfl rfl
    exact ⟨result, _, done⟩

end ServerScript
