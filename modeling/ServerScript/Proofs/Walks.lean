import ServerScript.Proofs.Answers
import ServerScript.Proofs.ArrayWriting
import ServerScript.Proofs.Names
import ServerScript.Proofs.Realms
import Mathlib.Data.List.Forall2

/-! Judgements on families of computations that a walk over the rules of the interpreter closes. A
walk goes through a realm of values: what is read from a state may be used from then on, and what an
assignment sets aside is delivered. It is closed under sequencing and under every step that the
rules of expressions take; for the rules of statements a second judgement is closed under the steps
that declare names, run blocks and deal with errors. The rules are gone through once for all walks.
A family has one member for each run that is compared, or for each bound on the steps. -/
namespace ServerScript

def Resolved.Satisfies (P : Value → Prop) : Resolved → Prop
  | .value v => P v
  | .member ref => P ref.value
  | .missing => True

/-- What the rules read of a state: values that satisfy a condition, the procedure that runs, and
functions from outside that answer with such values. -/
structure Machine.Supplies (m : Machine) (p : Policy) (P : Value → Prop) : Prop where
  scopes : m.scopes.All P
  me : ∀ ref, m.scopes.me = some ref → P ref.value
  fields : ∀ cell name v, m.heap.field? cell name = some v → P v
  items : ∀ c a, m.heap.array? c = some a → P (.array c) → ∀ v ∈ a.items, P v
  dictionaries : ∀ cell, (m.heap.dictionary cell).All P
  withStack : ∀ v ∈ m.withStack, P v
  procedure : ∀ decl, m.procedure = some decl → p.procedure decl
  natives : ∀ f ∈ m.natives, ∀ args, (∀ a ∈ args, P a) → Ends p P (f.run args)

/-- A realm that says in each world which values may be used, and which are set aside by one reserve
beyond another. -/
structure ValueRealm (p : Policy) extends Realm where
  value : Reserve → World → Value → Prop
  owned : Reserve → Reserve → World → Value → Prop
  supplies : ∀ {r m}, state r m → m.Supplies p (value r (world m.heap))
  extends_refl : ∀ r, Extends r r
  simple : ∀ {r w v}, v.Simple → value r w v
  object : ∀ {r w ref}, value r w (.object ref)
  mono : ∀ {r v} {w w' : World}, value r w v → w ≤ w' → value r w' v
  release : ∀ {r r' w v}, Extends r r' → value r' w v → value r w v
  owned_mono : ∀ {r r' v} {w w' : World}, owned r r' w v → w ≤ w' → owned r r' w' v
  owned_of_isObject : ∀ {r w v}, v.isObject → value r w v → owned r r w v
  procedure_iff : ∀ {r w id decl}, value r w (.callable id (.procedure decl)) ↔ p.procedure decl
  cls_iff : ∀ {r w id cls}, value r w (.callable id (.cls cls)) ↔ p.cls cls
  allowed : ∀ {r w cell cls}, value r w (.inst cell cls) → p.cls cls

namespace ValueRealm

variable {p : Policy} (T : ValueRealm p) (r : T.Reserve) (w : T.World)

def assigned : Assigned → Prop
  | .done => True
  | .accessor ref => T.value r w ref.value

structure invocation (result : Invocation) : Prop where
  value : T.value r w result.value
  params : ∀ v ∈ result.params, T.value r w v

variable {T r w} {w' : T.World}

theorem monos {values : List Value} (usable : ∀ v ∈ values, T.value r w v) (le : w ≤ w') :
    ∀ v ∈ values, T.value r w' v := fun v member => T.mono (usable v member) le

theorem empty : T.value r w .empty := T.simple trivial

theorem runs {cell : Nat} {cls : ClassDef} {decl : Procedure}
    (usable : T.value r w (.inst cell cls)) (runs : cls.Runs decl) : p.procedure decl :=
  p.member (T.allowed usable) runs

end ValueRealm

namespace Machine.Supplies

variable {p : Policy} {P : Value → Prop} {m : Machine} {name : Name} {v : Value}

theorem resolve (supplies : m.Supplies p P) (name : Name) :
    (m.scopes.resolve m.heap name).Satisfies P := by
  rw [Scopes.resolve]
  split
  next v found => exact supplies.scopes.constant? found
  next =>
    split
    next v found => exact supplies.scopes.frameVariable? found
    next =>
      split
      next found known =>
        rw [Scopes.member?] at known
        split at known
        · cases known
        · rename_i ref isMe
          split at known
          · rename_i v field
            obtain rfl := Option.some.inj known
            exact supplies.fields _ _ v field
          · split at known
            · obtain rfl := Option.some.inj known
              exact supplies.me ref isMe
            · cases known
      next =>
        split
        next v found => exact supplies.scopes.globals.lookup found
        next => trivial

theorem lookup (supplies : m.Supplies p P)
    (found : m.scopes.lookup m.heap name = some v) : P v := by
  have resolved := supplies.resolve name
  rw [Scopes.lookup] at found
  split at found
  · rename_i w known
    rw [known] at resolved
    exact Option.some.inj found ▸ resolved
  · cases found

theorem localValue (supplies : m.Supplies p P) (empty : P .empty) (name : Name) :
    P (Interpreter.localValue m name) := by
  rw [Interpreter.localValue]
  cases found : m.scopes.local? name with
  | none => exact empty
  | some v => exact supplies.scopes.local? found

theorem getPath (supplies : m.Supplies p P) {a : ArrayCell} (items : ∀ v ∈ a.items, P v)
    {path : List Int64} (found : m.heap.getPath a path = some v) : P v := by
  induction path generalizing a with
  | nil => cases found
  | cons index rest ih =>
    cases rest with
    | nil => exact items v (Heap.mem_of_get? found)
    | cons next rest =>
      rw [Heap.getPath] at found
      split at found
      · rename_i inner known
        obtain ⟨row, there, found⟩ := Option.bind_eq_some_iff.mp found
        exact ih (supplies.items inner row there (items _ (Heap.mem_of_get? known))) found
      · cases found

theorem array (supplies : m.Supplies p P) {c : Nat} (usable : P (.array c)) :
    ∀ v ∈ ((m.heap.array? c).getD {}).items, P v := by
  cases found : m.heap.array? c with
  | none => simp
  | some a => exact supplies.items c a found usable

theorem flattenCell (supplies : m.Supplies p P) (depth : Nat) {a : ArrayCell}
    (items : ∀ v ∈ a.items, P v) : ∀ v ∈ m.heap.flattenCell depth a, P v := by
  induction depth generalizing a with
  | zero => exact nofun
  | succ depth ih =>
    intro v member
    obtain ⟨item, inside, member⟩ := List.mem_flatMap.mp member
    have usable := items item (Array.mem_toList_iff.mp inside)
    cases item with
    | array inner =>
      cases found : m.heap.array? inner with
      | none => simp [found] at member
      | some row =>
        dsimp only at member
        rw [found] at member
        exact ih (supplies.items inner row found usable) v member
    | _ => exact List.mem_singleton.mp member ▸ usable

end Machine.Supplies

variable {p : Policy}

/-- A way to judge families of computations that goes through a realm. It is closed under sequencing,
looks at the state, and stops. -/
structure Walk (ι : Type) (T : ValueRealm p) where
  holds : {α : Type} → T.Reserve → T.World → (T.World → α → Prop) → (ι → Run α) → Prop
  bind : ∀ {α β : Type} {r w} {Q : T.World → α → Prop} {S : T.World → β → Prop} {x : ι → Run α}
    {f : ι → α → Run β}, holds r w Q x →
    (∀ w', w ≤ w' → ∀ a, Q w' a → holds r w' S fun i => f i a) → holds r w S fun i => x i >>= f i
  /-- The limit on calls is not read. -/
  read : ∀ {α : Type} {r w} {Q : T.World → α → Prop} {f : Machine → α},
    (∀ m limit, f (m.withLimit limit) = f m) →
    (∀ m w', w ≤ w' → m.Supplies p (T.value r w') → Q w' (f m)) →
    holds r w Q fun _ => Run.read f
  throw : ∀ {α : Type} {r w} {Q : T.World → α → Prop} {s : Stop}, (s = .exhausted → p.exhausts) →
    holds r w Q fun _ => throw s

/-- A walk that is closed under the steps that built-in functions and objects take in the store and
the world outside. -/
structure BuiltinWalk (ι : Type) (T : ValueRealm p) extends Walk ι T where
  /-- What follows a look at the state need only be like some computation where it starts. -/
  lookAt : ∀ {α : Type} {r w} {Q : T.World → α → Prop} {f : Machine → Run α},
    (∀ m limit, f (m.withLimit limit) = f m) →
    (∀ m w', w ≤ w' → m.Supplies p (T.value r w') → ∃ act, holds r w' Q (fun _ => act) ∧
      ∀ limit, (f m).exec (m.withLimit limit) = act.exec (m.withLimit limit)) →
    holds r w Q fun _ => get >>= f
  newArray : ∀ {r w items}, (∀ v ∈ items, T.value r w v) →
    holds r w (T.value r) fun _ => Run.newArray items
  allocDictionary : ∀ {r w}, holds r w (fun _ _ => True) fun _ => Run.onHeap (·.allocDictionary)
  modifyDictionary : ∀ {r w change} cell,
    (∀ d w', w ≤ w' → d.All (T.value r w') → (change d).All (T.value r w')) →
    (∀ d, d.Indexed → (change d).Indexed) →
    holds r w (fun _ _ => True) fun _ => Run.modifyHeap (·.modifyDictionary cell change)
  toValue : ∀ {r w} s, holds r w (T.value r) fun _ => Run.onHeap fun h => SharedValue.toValue h s
  freshView : ∀ {r w}, holds r w (fun _ _ => True) fun _ => Members.freshView
  modifySite : ∀ {r w f}, (∀ s : Site, s.Continues (f s)) →
    holds r w (fun _ _ => True) fun _ => Run.modifySite f
  modifyControl : ∀ {r w f}, (∀ c : Control, c.Continues (f c)) →
    (∀ c : Control, c.elapsed ≤ (f c).elapsed) →
    holds r w (fun _ _ => True) fun _ => Run.modifyControl f
  modifyErr : ∀ {r w} f, holds r w (fun _ _ => True) fun _ => Members.modifyErr f
  perform : ∀ {r w} action, holds r w (fun _ _ => True) fun _ => Run.perform action

/-- A walk that is closed under the computations on the store and the world outside that the rules
are made of. -/
structure Walk.Effects {ι : Type} {T : ValueRealm p} (J : Walk ι T)
    (delivers : {α : Type} → T.Reserve → T.Reserve → T.World → (ι → Run α) → Prop) : Prop where
  setPath : ∀ {r r' w cell v} path, p.inPlace → T.Extends r r' → T.value r' w (.array cell) →
    T.owned r r' w v → delivers r r' w fun _ => Run.onHeap (·.setPath cell path v)
  deepCopy : ∀ {r w v}, T.value r w v → J.holds r w (T.value r) fun _ => Run.deepCopy v
  setField : ∀ {r w v} cell name, T.value r w v →
    J.holds r w (fun _ _ => True) fun _ => Run.modifyHeap (·.setField cell name v)
  newDimensions : ∀ {r w} uppers, J.holds r w (T.value r) fun _ => Run.newDimensions uppers
  function : ∀ {r w} name {args}, (∀ v ∈ args, T.value r w v) →
    J.holds r w (fun w' => Ends p fun found => ∀ v, found = some v → T.value r w' v) fun _ =>
      Run.attempt (Function.call? name args)
  readObject : ∀ {r w} (ref : ObjectRef) name,
    J.holds r w (fun w' => Ends p (T.value r w')) fun _ => Run.attempt (ref.members.read name)
  callObject : ∀ {r w} (ref : ObjectRef) name {args}, (∀ v ∈ args, T.value r w v) →
    J.holds r w (fun w' => Ends p (T.value r w')) fun _ =>
      Run.attempt (ref.members.call name args)
  writeObject : ∀ {r w v} (ref : ObjectRef) name, T.value r w v →
    J.holds r w (fun _ _ => True) fun _ => ref.members.write name v
  writeItem : ∀ {r w v} (ref : ObjectRef) {index}, (∀ v ∈ index, T.value r w v) →
    T.value r w v → J.holds r w (fun _ _ => True) fun _ => ref.members.writeItem index v
  entries : ∀ {r w} (ref : ObjectRef),
    J.holds r w (fun w' found => ∀ items, found = some items → ∀ v ∈ items, T.value r w' v)
      fun _ => ref.members.entries
  checkDeadline : ∀ {r w}, J.holds r w (fun _ _ => True) fun _ => Run.checkDeadline
  freshView : ∀ {r w}, J.holds r w (fun _ _ => True) fun _ => Run.onHeap (·.freshView)
  erase : ∀ {r w cell}, p.inPlace → T.value r w (.array cell) →
    J.holds r w (fun _ _ => True) fun _ => Run.modifyHeap (·.modifyArray cell (·.erase))
  resize : ∀ {r w cell} uppers, p.inPlace → T.value r w (.array cell) →
    J.holds r w (fun _ _ => True) fun _ => Interpreter.resizeArray cell uppers

/-- A walk that is closed under the steps of expressions. -/
structure ExprWalk (ι : Type) (T : ValueRealm p) extends Walk ι T where
  /-- What one reserve sets aside beyond another one is given back. -/
  delivers : {α : Type} → T.Reserve → T.Reserve → T.World → (ι → Run α) → Prop
  delivers_bind : ∀ {α β : Type} {r r' w} {Q : T.World → α → Prop} {x : ι → Run α}
    {f : ι → α → Run β}, T.Extends r r' → holds r' w Q x →
    (∀ w', w ≤ w' → ∀ a, Q w' a → delivers r r' w' fun i => f i a) →
    delivers r r' w fun i => x i >>= f i
  delivers_then : ∀ {α β : Type} {r r' w} {x : ι → Run α} {f : ι → α → Run β}, delivers r r' w x →
    (∀ w', w ≤ w' → ∀ a, holds r w' (fun _ _ => True) fun i => f i a) →
    delivers r r' w fun i => x i >>= f i
  delivers_of_holds : ∀ {α : Type} {r r' w} {x : ι → Run α}, T.Extends r r' →
    holds r w (fun _ _ => True) x → delivers r r' w x
  gives : ∀ {α : Type} {r r' w v} {x : ι → Run α}, T.Extends r r' → T.owned r r' w v →
    (∀ w', w ≤ w' → T.value r w' v → holds r w' (fun _ _ => True) x) → delivers r r' w x
  holds_of_delivers : ∀ {α : Type} {r w} {x : ι → Run α}, delivers r r w x →
    holds r w (fun _ _ => True) x
  /-- A copy is set aside until it is delivered. -/
  setsAside : ∀ {α : Type} {r w v} {f : ι → Value → Run α}, T.value r w v →
    (∀ r' w' u, w ≤ w' → T.Extends r r' → T.owned r r' w' u → delivers r r' w' fun i => f i u) →
    holds r w (fun _ _ => True) fun i => Run.deepCopy v >>= f i
  assign : ∀ {r w v} name, T.value r w v →
    holds r w (T.assigned r) fun _ => Run.assignWith fun scopes h => scopes.assign h name v
  guarded : ∀ {r w ref name} {x : ι → Run Value}, holds r w (T.value r) x →
    holds r w (T.value r) fun i => Interpreter.guardGetter ref name (x i)
  effects : toWalk.Effects delivers

/-- A walk that is closed under the steps that the different kinds of statements take. -/
structure StmtWalk (ι : Type) (T : ValueRealm p) extends Walk ι T where
  exprs : ExprWalk ι T
  /-- The names that may be declared. -/
  declares : Name → Prop
  /-- The error modes that may be chosen; errors are resumed or not. -/
  modes : Bool → Prop
  lift : ∀ {α : Type} {r w} {Q : T.World → α → Prop} {x : ι → Run α}, exprs.holds r w Q x →
    holds r w Q x
  define : ∀ {r w name v}, declares name → T.value r w v →
    holds r w (fun _ _ => True) fun _ => Run.modifyScopes (·.define name v)
  constant : ∀ {r w v} name, T.value r w v →
    holds r w (fun _ _ => True) fun _ => Run.modifyScopes (·.setConstant name v)
  extend : ∀ {r w v} name, T.value r w v → holds r w (fun _ _ => True) fun _ => Run.extend name v
  inside : ∀ {α : Type} {r w} {x : ι → Run α} {target : Value}, T.value r w target →
    holds r w (fun _ _ => True) x → holds r w (fun _ _ => True) fun i => Run.inside target (x i)
  errorMode : ∀ {r w resumeNext}, modes resumeNext →
    holds r w (fun _ _ => True) fun _ => Run.setErrorMode resumeNext
  compareMode : ∀ {r w} mode, holds r w (fun _ _ => True) fun _ => Run.setCompareMode mode

/-- A walk that is also closed under what a statement does with its errors. -/
structure BlockWalk (ι : Type) (T : ValueRealm p) extends StmtWalk ι T where
  settle : ∀ {α : Type} {r w} {x : ι → Run α} (range : Range), holds r w (fun _ _ => True) x →
    holds r w (fun _ _ => True) fun i => Interpreter.settle range (x i)

variable {ι : Type} {T : ValueRealm p}

namespace Walk

variable (J : Walk ι T) {r : T.Reserve} {w : T.World} {Q : T.World → α → Prop}
  {S : T.World → β → Prop} {x y : ι → Run α}

theorem pure {a : α} (result : ∀ w', w ≤ w' → Q w' a) : J.holds r w Q fun _ => Pure.pure a :=
  J.read (f := fun _ => a) (fun _ _ => rfl) fun _ w' le _ => result w' le

theorem done {a : α} : J.holds r w (fun _ _ => True) fun _ => (Pure.pure a : Run α) :=
  J.pure fun _ _ => trivial

theorem error (e : EvalError) : J.holds r w Q fun _ => Run.error e := J.throw nofun

theorem map {f : α → β} (holds : J.holds r w Q x)
    (results : ∀ w' a, Q w' a → ∀ w'', w' ≤ w'' → S w'' (f a)) :
    J.holds r w S fun i => x i >>= fun a => Pure.pure (f a) :=
  J.bind holds fun w' _ a result => J.pure (results w' a result)

theorem forget (holds : J.holds r w Q x) {f : α → β} :
    J.holds r w (fun _ _ => True) fun i => x i >>= fun a => Pure.pure (f a) :=
  J.map holds fun _ _ _ _ _ => trivial

theorem any (holds : J.holds r w Q x) : J.holds r w (fun _ _ => True) x := by
  simpa only [id, bind_pure] using J.forget holds (f := id)

theorem discard (holds : J.holds r w Q x) :
    J.holds r w (fun _ _ => True) fun i => (discard (x i) : Run PUnit) := by
  simp only [Run.discard_eq]
  exact J.forget holds

theorem ite {c : Prop} [Decidable c] (yes : c → J.holds r w Q x) (no : ¬c → J.holds r w Q y) :
    J.holds r w Q fun i => if c then x i else y i := by
  by_cases h : c
  · simpa only [if_pos h] using yes h
  · simpa only [if_neg h] using no h

theorem look {f : ι → Machine → Run β}
    (blind : ∀ m limit, (fun i => f i (m.withLimit limit)) = fun i => f i m)
    (next : ∀ m w', w ≤ w' → m.Supplies p (T.value r w') →
      J.holds r w' S fun i => f i m) :
    J.holds r w S fun i => get >>= f i :=
  J.bind (x := fun _ => Run.read fun m i => f i m) (Q := fun w' g => J.holds r w' S g)
    (J.read blind next) fun _ _ _ holds => holds

theorem ofExcept {e : Except EvalError α} (result : ∀ a, e = .ok a → ∀ w', w ≤ w' → Q w' a) :
    J.holds r w Q fun _ => Run.ofExcept e := by
  cases e with
  | ok a => exact J.pure (result a rfl)
  | error e => exact J.error e

theorem checked {e : Except EvalError α} :
    J.holds r w (fun _ _ => True) fun _ => Run.ofExcept e := J.ofExcept fun _ _ _ _ => trivial

theorem mapM {items : List γ} {f : ι → γ → Run α} {Q : T.World → γ → α → Prop}
    (lasts : ∀ c w' w'' a, w' ≤ w'' → Q w' c a → Q w'' c a)
    (each : ∀ c ∈ items, ∀ w', w ≤ w' → J.holds r w' (fun w'' a => Q w'' c a) fun i => f i c) :
    J.holds r w (fun w' results => List.Forall₂ (Q w') items results) fun i =>
      items.mapM (f i) := by
  induction items generalizing w with
  | nil =>
    simp only [List.mapM_nil]
    exact J.pure fun _ _ => .nil
  | cons c rest ih =>
    simp only [List.mapM_cons]
    refine J.bind (each c List.mem_cons_self w le_rfl) fun w₁ le₁ a first => ?_
    have others := ih fun d member w₂ le₂ =>
      each d (List.mem_cons_of_mem c member) w₂ (le_trans le₁ le₂)
    refine J.bind others fun w₂ le₂ results rest => J.pure fun w₃ le₃ => ?_
    exact .cons (lasts c w₁ w₃ a (le_trans le₂ le₃) first)
      (rest.imp fun d b result => lasts d w₂ w₃ b le₃ result)

theorem forM {items : List γ} {f : ι → γ → Run PUnit}
    (each : ∀ c ∈ items, ∀ w', w ≤ w' → J.holds r w' (fun _ _ => True) fun i => f i c) :
    J.holds r w (fun _ _ => True) fun i => items.forM (f i) := by
  induction items generalizing w with
  | nil => exact J.done
  | cons c rest ih =>
    refine J.bind (each c List.mem_cons_self w le_rfl) fun w' le _ _ => ?_
    exact ih fun d member w'' le' => each d (List.mem_cons_of_mem c member) w'' (le_trans le le')

end Walk
end ServerScript
