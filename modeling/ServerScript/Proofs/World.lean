import ServerScript.Proofs.ApplicationLock
import ServerScript.Proofs.Store

/-! Computations that work on the store, the error record, the clock and the site, and leave the
rest of a state alone. None of them looks at the limit on calls. Members of built-in objects and
built-in functions are of this kind, and so is every step that only looks at the state. Nothing
that a script does takes back a stop, and its request changes the application by calls of its own
only. -/
namespace ServerScript

variable {p : Policy}

def Control.Continues (c c' : Control) : Prop :=
  ∀ reason, c.halt = some reason → c'.halt = some reason

def StoreCall.ofRequest (r : Nat) (actions : List StoreAction) : List StoreCall :=
  actions.map (⟨r, ·⟩)

/-- A request keeps its number, changes the application by its own calls, and does not change
whether its session is new. -/
structure Site.Continues (s s' : Site) : Prop where
  requestId : s'.requestId = s.requestId
  application : ∃ actions,
    s'.application = s.application.after (StoreCall.ofRequest s.requestId actions)
  session : s'.session.map (·.isNew) = s.session.map (·.isNew)

namespace Control.Continues

theorem refl (c : Control) : c.Continues c := fun _ => id

theorem trans {c c' c'' : Control} (first : c.Continues c') (second : c'.Continues c'') :
    c.Continues c'' := fun reason => second reason ∘ first reason

theorem requestHalt (c : Control) (reason : Halt) : c.Continues (c.requestHalt reason) := by
  intro first asked
  simp [Control.requestHalt, asked]

end Control.Continues

namespace Site.Continues

theorem of_same {s s' : Site} (requestId : s'.requestId = s.requestId)
    (application : s'.application = s.application)
    (session : s'.session.map (·.isNew) = s.session.map (·.isNew)) : s.Continues s' :=
  ⟨requestId, ⟨[], application⟩, session⟩

theorem refl (s : Site) : s.Continues s := of_same rfl rfl rfl

theorem trans {s s' s'' : Site} (first : s.Continues s') (second : s'.Continues s'') :
    s.Continues s'' := by
  obtain ⟨actions, changed⟩ := first.application
  obtain ⟨more, changed'⟩ := second.application
  refine ⟨second.requestId.trans first.requestId, ⟨actions ++ more, ?_⟩,
    second.session.trans first.session⟩
  rw [changed', changed, first.requestId]
  simp [StoreCall.ofRequest, ApplicationStore.after]

end Site.Continues

/-- A change of a state outside of its names, its calls and its `With` blocks. -/
structure Machine.Moves (p : Policy) (m m' : Machine) : Prop where
  frame : m' =
    { m with heap := m'.heap, err := m'.err, control := m'.control, site := m'.site }
  heap : m.heap.Advances p m'.heap
  control : m.control.Continues m'.control
  time : m.control.elapsed ≤ m'.control.elapsed
  site : m.site.Continues m'.site

namespace Machine

def withLimit (m : Machine) (limit : Nat) : Machine := { m with callLimit := limit }

namespace Moves

theorem refl (m : Machine) : m.Moves p m := ⟨rfl, .refl _, .refl _, Nat.le_refl _, .refl _⟩

theorem trans {m m' m'' : Machine} (first : m.Moves p m') (second : m'.Moves p m'') :
    m.Moves p m'' := by
  refine ⟨?_, first.heap.trans second.heap, first.control.trans second.control,
    Nat.le_trans first.time second.time, first.site.trans second.site⟩
  rw [second.frame, first.frame]

theorem ofHeap (m : Machine) {h : Heap} (moved : m.heap.Advances p h) :
    m.Moves p { m with heap := h } := ⟨rfl, moved, .refl _, Nat.le_refl _, .refl _⟩

theorem ofControl (m : Machine) {control : Control} (continues : m.control.Continues control)
    (time : m.control.elapsed ≤ control.elapsed) :
    m.Moves p { m with control } := ⟨rfl, .refl _, continues, time, .refl _⟩

theorem ofSite (m : Machine) {site : Site} (continues : m.site.Continues site) :
    m.Moves p { m with site } := ⟨rfl, .refl _, .refl _, Nat.le_refl _, continues⟩

variable {m m' : Machine}

theorem scopes (moved : m.Moves p m') : m'.scopes = m.scopes := by rw [moved.frame]

theorem withStack (moved : m.Moves p m') : m'.withStack = m.withStack := by rw [moved.frame]

theorem procedure (moved : m.Moves p m') : m'.procedure = m.procedure := by rw [moved.frame]

theorem callDepth (moved : m.Moves p m') : m'.callDepth = m.callDepth := by rw [moved.frame]

theorem callLimit (moved : m.Moves p m') : m'.callLimit = m.callLimit := by rw [moved.frame]

theorem resumeNext (moved : m.Moves p m') : m'.resumeNext = m.resumeNext := by rw [moved.frame]

theorem errorRange (moved : m.Moves p m') : m'.errorRange = m.errorRange := by rw [moved.frame]

theorem carries (moved : m.Moves p m') (carries : m.Carries p) : m'.Carries p := by
  have heap := moved.heap.carries carries.heap
  rw [moved.frame]
  exact ⟨carries.scopes, heap, carries.withStack, carries.procedure, carries.natives⟩

end Moves
end Machine

/-- The ends of a computation: a result that satisfies a condition, or a stop, which is not the
bound on the steps unless the policy allows that. -/
def Ends (p : Policy) (Q : α → Prop) : Except Stop α → Prop
  | .ok a => Q a
  | .error s => s = .exhausted → p.exhausts

theorem Ends.result {Q : α → Prop} {r : Except Stop α} {a : α} (ends : Ends p Q r)
    (done : r = .ok a) : Q a := by
  rw [done] at ends
  exact ends

theorem Policy.ends_native {f : Native} {args : List Value} (native : p.native f)
    (given : ∀ a ∈ args, p.value a) : Ends p p.value (f.run args) := by
  cases done : f.run args with
  | ok v => exact p.answer native given done
  | error s =>
    rintro rfl
    exact p.steady native done

def Run.perform (action : StoreAction) : Run Unit := do
  let m ← get
  onApplication (·.answer ⟨m.site.requestId, action⟩)

theorem Run.exec_perform (action : StoreAction) (m : Machine) :
    (perform action).exec m =
      if m.control.deadlineExists = false then (.error (.fault .instantOutOfRange), m)
      else
        match m.site.application.answer ⟨m.site.requestId, action⟩ with
        | .ok application => (.ok ⟨⟩, { m with site := { m.site with application } })
        | .error e => (.error (.error e), m) := by
  rw [perform, exec_get_bind, onApplication, exec_get_bind]
  cases m.control.deadlineExists with
  | false => rfl
  | true => cases m.site.application.answer ⟨m.site.requestId, action⟩ <;> rfl

/-- A computation on the store and the world outside. -/
structure Run.Worldly (p : Policy) (Q : α → Prop) (act : Run α) : Prop where
  moves : ∀ m : Machine, m.Carries p → m.Moves p (act.exec m).2
  ends : ∀ m : Machine, m.Carries p → Ends p Q (act.exec m).1
  blind : ∀ (m : Machine) (limit : Nat), m.Carries p →
    act.exec (m.withLimit limit) = ((act.exec m).1, (act.exec m).2.withLimit limit)

namespace Run.Worldly

variable {Q : α → Prop} {R : β → Prop}

theorem pure {a : α} (result : Q a) : Worldly p Q (pure a) :=
  ⟨fun m _ => .refl m, fun _ _ => result, fun _ _ _ => rfl⟩

theorem throw {s : Stop} (allowed : s = .exhausted → p.exhausts) :
    Worldly p Q (throw s : Run α) :=
  ⟨fun m _ => .refl m, fun _ _ => allowed, fun _ _ _ => rfl⟩

theorem error (e : EvalError) : Worldly p Q (error e) := throw nofun

theorem fault (f : Fault) : Worldly p Q (fault f) := throw nofun

theorem bind {x : Run α} {f : α → Run β} (first : Worldly p Q x)
    (next : ∀ a, Q a → Worldly p R (f a)) : Worldly p R (x >>= f) := by
  refine ⟨fun m carries => ?_, fun m carries => ?_, fun m limit carries => ?_⟩ <;>
    have moved := first.moves m carries <;>
    have ends := first.ends m carries
  · rw [exec_bind]
    split
    next a done =>
      rw [done] at ends
      exact moved.trans ((next a ends).moves _ (moved.carries carries))
    next => exact moved
  · rw [exec_bind]
    split
    next a done =>
      rw [done] at ends
      exact (next a ends).ends _ (moved.carries carries)
    next s done =>
      rw [done] at ends
      exact ends
  · rw [exec_bind, exec_bind, first.blind m limit carries]
    cases done : (x.exec m).1 with
    | ok a =>
      rw [done] at ends
      exact (next a ends).blind _ limit (moved.carries carries)
    | error s => rfl

/-- A look at the state. Whatever is done with the state, the limit on calls is not used, and what
follows need only be like some computation where it starts. -/
theorem get_bind_at {f : Machine → Run β} (blind : ∀ m limit, f (m.withLimit limit) = f m)
    (next : ∀ m, m.Carries p → ∃ act, Worldly p R act ∧
      ∀ limit, (f m).exec (m.withLimit limit) = act.exec (m.withLimit limit)) :
    Worldly p R (get >>= f) := by
  refine ⟨fun m carries => ?_, fun m carries => ?_, fun m limit carries => ?_⟩ <;>
    obtain ⟨act, worldly, same⟩ := next m carries <;>
    have here : (f m).exec m = act.exec m := same m.callLimit
  · rw [exec_get_bind, here]
    exact worldly.moves m carries
  · rw [exec_get_bind, here]
    exact worldly.ends m carries
  · rw [exec_get_bind, exec_get_bind, blind, same, here]
    exact worldly.blind m limit carries

theorem get_bind {f : Machine → Run β} (blind : ∀ m limit, f (m.withLimit limit) = f m)
    (next : ∀ m, m.Carries p → Worldly p R (f m)) : Worldly p R (get >>= f) := by
  refine get_bind_at blind fun m carries => ?_
  exact ⟨f m, next m carries, fun _ => rfl⟩

theorem read {f : Machine → α} (blind : ∀ m limit, f (m.withLimit limit) = f m)
    (result : ∀ m, m.Carries p → Q (f m)) : Worldly p Q (Run.read f) := by
  have blind' : ∀ m limit, Pure.pure (f (m.withLimit limit)) = (Pure.pure (f m) : Run α) := by
    intro m limit
    rw [blind]
  exact get_bind (f := fun m => Pure.pure (f m)) blind' fun m carries => pure (result m carries)

theorem attempt {x : Run α} (holds : Worldly p Q x) : Worldly p (Ends p Q) (attempt x) := by
  refine ⟨holds.moves, holds.ends, fun m limit carries => ?_⟩
  rw [exec_attempt, exec_attempt, holds.blind m limit carries]

theorem onHeap {f : Heap → Heap × α} (advances : ∀ h : Heap, h.Carries p → h.Advances p (f h).1)
    (result : ∀ h : Heap, h.Carries p → Q (f h).2) : Worldly p Q (onHeap f) := by
  refine ⟨fun m carries => ?_, fun m carries => ?_, fun _ _ _ => rfl⟩
  · exact .ofHeap m (advances m.heap carries.heap)
  · exact result m.heap carries.heap

theorem modifyHeap {f : Heap → Heap} (advances : ∀ h : Heap, h.Carries p → h.Advances p (f h)) :
    Worldly p (fun _ => True) (modifyHeap f) := by
  refine ⟨fun m carries => ?_, fun _ _ => trivial, fun _ _ _ => rfl⟩
  exact .ofHeap m (advances m.heap carries.heap)

theorem modifySite {f : Site → Site} (continues : ∀ s : Site, s.Continues (f s)) :
    Worldly p (fun _ => True) (modifySite f) := by
  refine ⟨fun m _ => ?_, fun _ _ => trivial, fun _ _ _ => rfl⟩
  exact .ofSite m (continues m.site)

theorem modifyResponse (f : Response → Response) :
    Worldly p (fun _ => True) (Members.modifyResponse f) :=
  modifySite fun _ => .of_same rfl rfl rfl

theorem modifyControl {f : Control → Control} (continues : ∀ c : Control, c.Continues (f c))
    (time : ∀ c : Control, c.elapsed ≤ (f c).elapsed) :
    Worldly p (fun _ => True) (modifyControl f) := by
  refine ⟨fun m _ => ?_, fun _ _ => trivial, fun _ _ _ => rfl⟩
  exact .ofControl m (continues m.control) (time m.control)

theorem modifyErr (f : ErrRecord → ErrRecord) :
    Worldly p (fun _ => True) (Members.modifyErr f) := by
  refine ⟨fun m _ => ?_, fun _ _ => trivial, fun _ _ _ => rfl⟩
  exact ⟨rfl, .refl _, .refl _, Nat.le_refl _, .refl _⟩

theorem ite {c : Prop} [Decidable c] {x y : Run α} (yes : c → Worldly p Q x)
    (no : ¬c → Worldly p Q y) : Worldly p Q (if c then x else y) := by
  split
  next holds => exact yes holds
  next fails => exact no fails

theorem newArray {items : List Value} (values : ∀ v ∈ items, p.value v) :
    Worldly p p.value (newArray items) := by
  have content : ArrayCell.Carries p ⟨0, items.toArray⟩ := fun v member =>
    values v (List.mem_toArray.mp member)
  exact bind (onHeap (Q := fun _ => True) (fun h _ => h.advances_allocArray content)
    fun _ _ => trivial) fun _ _ => pure trivial

theorem newDimensions (uppers : List Int64) : Worldly p p.value (newDimensions uppers) := by
  refine get_bind (fun _ _ => rfl) fun m _ =>
    ite (fun _ => bind (Q := fun _ => False) (fault _) nofun) fun _ =>
      onHeap (fun h _ => ?_) fun _ _ => trivial
  obtain ⟨moved, content⟩ := h.advances_withDimensions (p := p) m.scopes.optionBase uppers
  exact moved.trans (Heap.advances_allocArray _ content)

theorem deepCopy {v : Value} (value : p.value v) : Worldly p p.value (deepCopy v) := by
  refine onHeap (fun h carries => ?_) fun h carries => ?_
  · exact (h.advances_deepCopy v value carries).1
  · exact (h.advances_deepCopy v value carries).2

theorem checkDeadline : Worldly p (fun _ => True) checkDeadline := by
  refine bind (modifyControl (fun _ _ => id) fun c => Nat.le_succ c.elapsed) fun _ _ => ?_
  exact get_bind (fun _ _ => rfl) fun m carries => ite (fun late => error _) fun _ => pure trivial

theorem perform (action : StoreAction) : Worldly p (fun _ => True) (perform action) := by
  refine ⟨fun m _ => ?_, fun m _ => ?_, fun m limit _ => ?_⟩
  · rw [exec_perform]
    split
    · exact .refl m
    · cases done : m.site.application.answer ⟨m.site.requestId, action⟩ with
      | error e => exact .refl m
      | ok application =>
        refine .ofSite m ⟨rfl, ⟨[action], ?_⟩, rfl⟩
        rw [StoreCall.ofRequest, List.map_singleton, ApplicationStore.after, List.foldl_cons,
          ApplicationStore.next, done]
        rfl
  · rw [exec_perform]
    split
    · rintro ⟨⟩
    · cases m.site.application.answer ⟨m.site.requestId, action⟩ with
      | error e => rintro ⟨⟩
      | ok application => trivial
  · simp only [exec_perform, Machine.withLimit]
    cases m.control.deadlineExists <;>
      cases m.site.application.answer ⟨m.site.requestId, action⟩ <;> rfl

end Run.Worldly
end ServerScript
