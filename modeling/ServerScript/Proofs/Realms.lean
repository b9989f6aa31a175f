import ServerScript.Proofs.RuleEnds
import Mathlib.Order.Defs.PartialOrder

/-! Computations in a realm. What a value may be used for depends on the state: an array or an
instance that one step makes can be used by the next one. A realm says which states fit and measures
their stores. Along a run the measure only grows, so that what holds in one world holds in every
later one. While a value is set aside for an assignment, the states that fit are those of a larger
reserve. A family of computations has two members here, which cannot be told apart. -/
namespace ServerScript

structure Realm where
  /-- What is set aside. -/
  Reserve : Type
  World : Type
  order : Preorder World
  Extends : Reserve → Reserve → Prop
  state : Reserve → Machine → Prop
  world : Heap → World

instance (K : Realm) : Preorder K.World := K.order

namespace Realm

variable (K : Realm)

/-- Two computations that end alike: in a state that fits, in a world that is no earlier, and with a
result that satisfies a condition there. -/
structure Kept (r : K.Reserve) (Q : K.World → α → Prop) (x y : Run α) (m : Machine) : Prop where
  same : x.exec m = y.exec m
  state : K.state r (y.exec m).2
  grows : K.world m.heap ≤ K.world (y.exec m).2.heap
  result : ∀ a, (y.exec m).1 = .ok a → Q (K.world (y.exec m).2.heap) a

def Keeps (r : K.Reserve) (w : K.World) (Q : K.World → α → Prop) (x : Bool → Run α) : Prop :=
  ∀ m : Machine, K.state r m → w ≤ K.world m.heap → K.Kept r Q (x false) (x true) m

/-- A computation that gives back what one reserve sets aside beyond another one. -/
def Delivers (r r' : K.Reserve) (w : K.World) (x : Bool → Run α) : Prop :=
  ∀ m : Machine, K.state r' m → w ≤ K.world m.heap →
    K.Kept r (fun _ _ => True) (x false) (x true) m

variable {K} {r r' : K.Reserve} {w : K.World} {Q : K.World → α → Prop} {S : K.World → β → Prop}
  {m : Machine}

namespace Kept

theorem bind {x y : Run α} {f g : α → Run β} (first : K.Kept r' Q x y m)
    (release : ∀ m : Machine, K.state r' m → K.state r m)
    (next : ∀ a m', K.state r' m' → K.world m.heap ≤ K.world m'.heap → Q (K.world m'.heap) a →
      K.Kept r S (f a) (g a) m') : K.Kept r S (x >>= f) (y >>= g) m := by
  cases done : (y.exec m).1 with
  | ok a =>
    have ends : y.exec m = (.ok a, (y.exec m).2) := Prod.ext done rfl
    have more := next a _ first.state first.grows (first.result a done)
    refine ⟨?_, ?_, ?_, ?_⟩
    · rw [Run.exec_bind_ok (first.same.trans ends), Run.exec_bind_ok ends, more.same]
    · rw [Run.exec_bind_ok ends]
      exact more.state
    · rw [Run.exec_bind_ok ends]
      exact le_trans first.grows more.grows
    · rw [Run.exec_bind_ok ends]
      exact more.result
  | error s =>
    have ends : y.exec m = (.error s, (y.exec m).2) := Prod.ext done rfl
    refine ⟨?_, ?_, ?_, ?_⟩
    · rw [Run.exec_bind_error (first.same.trans ends), Run.exec_bind_error ends]
    · rw [Run.exec_bind_error ends]
      exact release _ first.state
    · rw [Run.exec_bind_error ends]
      exact first.grows
    · rw [Run.exec_bind_error ends]
      exact nofun

theorem unchanged {e : Except Stop α} {x y : Run α} (first : x.exec m = (e, m))
    (second : y.exec m = (e, m)) (fits : K.state r m)
    (result : ∀ a, e = .ok a → Q (K.world m.heap) a) : K.Kept r Q x y m := by
  refine ⟨first.trans second.symm, ?_, ?_, ?_⟩ <;> rw [second]
  · exact fits
  · exact result

end Kept

namespace Keeps

variable {x y : Bool → Run α}

theorem bind {f : Bool → α → Run β} (first : K.Keeps r w Q x)
    (next : ∀ w', w ≤ w' → ∀ a, Q w' a → K.Keeps r w' S fun i => f i a) :
    K.Keeps r w S fun i => x i >>= f i := by
  intro m fits known
  refine (first m fits known).bind (fun _ => id) fun a m' fits' grows result => ?_
  exact next _ (le_trans known grows) a result m' fits' le_rfl

theorem pure {a : α} (result : ∀ w', w ≤ w' → Q w' a) : K.Keeps r w Q fun _ => Pure.pure a := by
  intro m fits known
  refine .unchanged rfl rfl fits fun b same => ?_
  exact Except.ok.inj same ▸ result _ known

theorem throw (s : Stop) : K.Keeps r w Q fun _ => (throw s : Run α) := by
  intro m fits known
  exact .unchanged rfl rfl fits nofun

theorem error (e : EvalError) : K.Keeps r w Q fun _ => (Run.error e : Run α) := throw _

theorem fault (f : Fault) : K.Keeps r w Q fun _ => (Run.fault f : Run α) := throw _

theorem weaken {Q' : K.World → α → Prop} (holds : K.Keeps r w Q x)
    (implies : ∀ w' a, Q w' a → Q' w' a) : K.Keeps r w Q' x := by
  intro m fits known
  have kept := holds m fits known
  exact ⟨kept.same, kept.state, kept.grows, fun a done => implies _ a (kept.result a done)⟩

theorem any (holds : K.Keeps r w Q x) : K.Keeps r w (fun _ _ => True) x :=
  holds.weaken fun _ _ _ => trivial

theorem ite {c : Prop} [Decidable c] (yes : c → K.Keeps r w Q x) (no : ¬c → K.Keeps r w Q y) :
    K.Keeps r w Q fun i => if c then x i else y i := by
  by_cases h : c
  · simpa only [if_pos h] using yes h
  · simpa only [if_neg h] using no h

theorem look {f : Bool → Machine → Run α}
    (next : ∀ m : Machine, K.state r m → w ≤ K.world m.heap →
      K.Keeps r (K.world m.heap) Q fun i => f i m) :
    K.Keeps r w Q fun i => get >>= f i := by
  intro m fits known
  have kept := next m fits known m fits le_rfl
  exact ⟨kept.same, kept.state, kept.grows, kept.result⟩

theorem lookAt {f : Machine → Run α}
    (next : ∀ m : Machine, K.state r m → w ≤ K.world m.heap →
      ∃ act, K.Keeps r (K.world m.heap) Q (fun _ => act) ∧
        ∀ limit, (f m).exec (m.withLimit limit) = act.exec (m.withLimit limit)) :
    K.Keeps r w Q fun _ => get >>= f := by
  intro m fits known
  obtain ⟨act, keeps, same⟩ := next m fits known
  have here : (get >>= f).exec m = act.exec m := (Run.exec_get_bind f m).trans (same m.callLimit)
  have kept := keeps m fits le_rfl
  refine ⟨rfl, ?_, ?_, ?_⟩ <;> dsimp only <;> rw [here]
  · exact kept.state
  · exact kept.grows
  · exact kept.result

theorem read {f : Machine → α}
    (result : ∀ m : Machine, K.state r m → w ≤ K.world m.heap → Q (K.world m.heap) (f m)) :
    K.Keeps r w Q fun _ => Run.read f := by
  intro m fits known
  refine .unchanged rfl rfl fits fun a same => ?_
  exact Except.ok.inj same ▸ result m fits known

theorem modify {f : Machine → Machine}
    (keeps : ∀ m : Machine, K.state r m → w ≤ K.world m.heap →
      K.state r (f m) ∧ K.world m.heap ≤ K.world (f m).heap) :
    K.Keeps r w (fun _ _ => True) fun _ => (modify f : Run PUnit) := by
  intro m fits known
  exact ⟨rfl, (keeps m fits known).1, (keeps m fits known).2, fun _ _ => trivial⟩

theorem onHeap {f : Heap → Heap × α}
    (keeps : ∀ m : Machine, K.state r m → w ≤ K.world m.heap →
      K.state r { m with heap := (f m.heap).1 } ∧ K.world m.heap ≤ K.world (f m.heap).1 ∧
        Q (K.world (f m.heap).1) (f m.heap).2) :
    K.Keeps r w Q fun _ => Run.onHeap f := by
  intro m fits known
  obtain ⟨state, grows, result⟩ := keeps m fits known
  refine ⟨rfl, state, grows, fun a same => ?_⟩
  exact Except.ok.inj same ▸ result

theorem modifyScopes {change : Scopes → Except EvalError Scopes}
    (keeps : ∀ (m : Machine) (s : Scopes), K.state r m → w ≤ K.world m.heap →
      change m.scopes = .ok s → K.state r { m with scopes := s }) :
    K.Keeps r w (fun _ _ => True) fun _ => Run.modifyScopes change := by
  intro m fits known
  cases done : change m.scopes with
  | ok s =>
    have ends := Interpreter.exec_modifyScopes done
    refine ⟨rfl, ?_, ?_, fun _ _ => trivial⟩ <;> dsimp only <;> rw [ends]
    · exact keeps m s fits known done
  | error e =>
    have ends : (Run.modifyScopes change).exec m = (.error (.error e), m) := by
      rw [Run.modifyScopes, Run.exec_get_bind, done]
      rfl
    exact .unchanged ends ends fits fun _ _ => trivial

theorem attempt (holds : K.Keeps r w Q x) :
    K.Keeps r w (fun w' e => ∀ a, e = .ok a → Q w' a) fun i => Run.attempt (x i) := by
  intro m fits known
  have kept := holds m fits known
  refine ⟨?_, kept.state, kept.grows, fun e same => ?_⟩
  · rw [Run.exec_attempt, Run.exec_attempt, kept.same]
  · exact Except.ok.inj same ▸ kept.result

theorem ends {p : Policy} (exhausts : p.exhausts) (holds : K.Keeps r w Q x) :
    K.Keeps r w (fun w' => Ends p (Q w')) fun i => Run.attempt (x i) := by
  refine holds.attempt.weaken fun w' e result => ?_
  cases e with
  | ok a => exact result a rfl
  | error s => exact fun _ => exhausts

theorem ofExcept {e : Except EvalError α} (result : ∀ a, e = .ok a → ∀ w', w ≤ w' → Q w' a) :
    K.Keeps r w Q fun _ => Run.ofExcept e := by
  cases e with
  | ok a => exact pure (result a rfl)
  | error e => exact error e

theorem guardGetter {ref : InstanceRef} {name : Name} {x : Bool → Run Value}
    {Q : K.World → Value → Prop} (empty : ∀ w', Q w' .empty)
    (lasts : ∀ w' w'' v, w' ≤ w'' → Q w' v → Q w'' v)
    (enters : ∀ m : Machine, K.state r m → K.state r (m.enterGetter ref.cell name) ∧
      K.world m.heap ≤ K.world (m.enterGetter ref.cell name).heap)
    (leaves : ∀ m : Machine, K.state r m → K.state r (m.leaveGetter ref.cell name) ∧
      K.world m.heap ≤ K.world (m.leaveGetter ref.cell name).heap)
    (holds : K.Keeps r w Q x) :
    K.Keeps r w Q fun i => Interpreter.guardGetter ref name (x i) := by
  intro m fits known
  cases starts : m.startsGetter ref.cell name with
  | false =>
    have ends (i : Bool) := Interpreter.exec_guardGetter_of_running starts (x i)
    refine .unchanged (ends false) (ends true) fits fun v done => ?_
    exact Except.ok.inj done ▸ empty _
  | true =>
    obtain ⟨inside, grows⟩ := enters m fits
    have kept := holds _ inside (le_trans known grows)
    obtain ⟨after, grows'⟩ := leaves _ kept.state
    refine ⟨?_, ?_, ?_, ?_⟩ <;> simp only [Interpreter.exec_guardGetter starts]
    · rw [kept.same]
    · exact after
    · exact le_trans grows (le_trans kept.grows grows')
    · exact fun v done => lasts _ _ v grows' (kept.result v done)

theorem inside {x : Bool → Run α} {target : Value}
    (enters : ∀ m : Machine, K.state r m → w ≤ K.world m.heap → K.state r (m.enterWith target))
    (leaves : ∀ m : Machine, K.state r m → K.state r m.leaveWith)
    (holds : K.Keeps r w (fun _ _ => True) x) :
    K.Keeps r w (fun _ _ => True) fun i => Run.inside target (x i) := by
  intro m fits known
  have kept := holds (m.enterWith target) (enters m fits known) known
  refine ⟨?_, ?_, ?_, fun _ _ => trivial⟩ <;> simp only [Interpreter.exec_inside]
  · rw [kept.same]
  · exact leaves _ kept.state
  · exact kept.grows

theorem settle {x : Bool → Run α} {range : Range}
    (errors : ∀ (m : Machine) resumeNext err errorRange, K.state r m →
      K.state r { m with resumeNext, err, errorRange })
    (holds : K.Keeps r w (fun _ _ => True) x) :
    K.Keeps r w (fun _ _ => True) fun i => Interpreter.settle range (x i) := by
  intro m fits known
  have kept := holds m fits known
  have state := kept.state
  have grows := kept.grows
  refine ⟨?_, ?_, ?_, fun _ _ => trivial⟩
  · rw [Interpreter.exec_settle, Interpreter.exec_settle, kept.same]
  all_goals
    rw [Interpreter.exec_settle]
    generalize (x true).exec m = ends at state grows
    rcases ends with ⟨⟨⟨e⟩ | ⟨f⟩ | _⟩ | a, m'⟩ <;> dsimp only
  · split
    · exact errors m' _ _ _ state
    · exact errors m' _ _ _ state
  · exact state
  · exact state
  · exact state
  · split
    · exact grows
    · exact grows
  · exact grows
  · exact grows
  · exact grows

theorem invoke {Q : K.World → Invocation → Prop} {ev : Bool → Interpreter} {decl : Procedure}
    {this : Option InstanceRef} {values : List Value}
    (enters : ∀ m : Machine, K.state r m → w ≤ K.world m.heap →
      K.state r (Interpreter.enter decl this m))
    (leaves : ∀ m m' : Machine, K.state r m → K.state r m' → K.world m.heap ≤ K.world m'.heap →
      K.state r (Interpreter.leave (.ofMachine m) m'))
    (body : K.Keeps r w Q fun i => Interpreter.runBody (ev i) decl values) :
    K.Keeps r w Q fun i => Interpreter.invokeProcedure (ev i) decl this values := by
  intro m fits known
  by_cases full : m.callLimit ≤ m.callDepth
  · have refused (i : Bool) : (Interpreter.invokeProcedure (ev i) decl this values).exec m =
        (.error (.error (.recursion m.callLimit)), m) := by
      rw [Interpreter.exec_invokeProcedure, if_pos full]
    exact .unchanged (refused false) (refused true) fits nofun
  · have kept := body (Interpreter.enter decl this m) (enters m fits known) known
    refine ⟨?_, ?_, ?_, ?_⟩ <;> simp only [Interpreter.exec_invokeProcedure, if_neg full]
    · rw [kept.same]
    · exact leaves m _ fits kept.state kept.grows
    · exact kept.grows
    · exact kept.result

end Keeps

namespace Delivers

variable {x y : Bool → Run α}

theorem toKeeps (delivers : K.Delivers r r w x) : K.Keeps r w (fun _ _ => True) x := delivers

/-- What was set aside is given back by the first computation. -/
theorem andThen {f : Bool → α → Run β} (first : K.Delivers r r' w x)
    (next : ∀ w', w ≤ w' → ∀ a, K.Keeps r w' (fun _ _ => True) fun i => f i a) :
    K.Delivers r r' w fun i => x i >>= f i := by
  intro m fits known
  refine (first m fits known).bind (fun _ => id) fun a m' fits' grows _ => ?_
  exact next _ (le_trans known grows) a m' fits' le_rfl

theorem bind {f : Bool → α → Run β} (release : ∀ m : Machine, K.state r' m → K.state r m)
    (first : K.Keeps r' w Q x)
    (next : ∀ w', w ≤ w' → ∀ a, Q w' a → K.Delivers r r' w' fun i => f i a) :
    K.Delivers r r' w fun i => x i >>= f i := by
  intro m fits known
  refine (first m fits known).bind release fun a m' fits' grows result => ?_
  exact next _ (le_trans known grows) a result m' fits' le_rfl

end Delivers

end Realm
end ServerScript
