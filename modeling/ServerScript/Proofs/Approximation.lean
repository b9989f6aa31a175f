import ServerScript.Proofs.Criteria

/-! A task that ends within a bound on its steps ends in the same way within every larger bound,
as long as there are no loops. A task that is answered by a stop at one state shows only where it
is issued, and it is not issued within a bound that is too small for it. -/
namespace ServerScript

/-- Two ends are the same, unless the first one may be and is that of a computation which is
exhausted. -/
structure Approximates (lax : Prop) (P : Machine → Prop) (Q : α → Prop)
    (first second : Except Stop α × Machine) : Prop where
  less : (lax ∧ first.1 = .error .exhausted) ∨ second = first
  state : P second.2
  result : ∀ a, second.1 = .ok a → Q a

namespace Approximates

variable {lax : Prop} {P P' : Machine → Prop} {Q : α → Prop} {R : β → Prop} {m : Machine}

theorem bind {x y : Run α} {f g : α → Run β} (first : Approximates lax P Q (x.exec m) (y.exec m))
    (next : ∀ a m', Q a → P m' → Approximates lax P R ((f a).exec m') ((g a).exec m')) :
    Approximates lax P R ((x >>= f).exec m) ((y >>= g).exec m) := by
  have exhausted : lax ∧ (x.exec m).1 = .error .exhausted →
      lax ∧ ((x >>= f).exec m).1 = .error .exhausted := fun ⟨allowed, less⟩ =>
    ⟨allowed, by rw [Run.exec_bind, less]⟩
  cases done : (y.exec m).1 with
  | ok a =>
    have ends : y.exec m = (.ok a, (y.exec m).2) := Prod.ext done rfl
    have more := next a _ (first.result a done) first.state
    rw [Run.exec_bind_ok ends]
    refine ⟨?_, more.state, more.result⟩
    rcases first.less with less | same
    · exact .inl (exhausted less)
    · rw [Run.exec_bind_ok (same.symm.trans ends)]
      exact more.less
  | error s =>
    have ends : y.exec m = (.error s, (y.exec m).2) := Prod.ext done rfl
    rw [Run.exec_bind_error ends]
    refine ⟨?_, first.state, nofun⟩
    rcases first.less with less | same
    · exact .inl (exhausted less)
    · exact .inr (Run.exec_bind_error (same.symm.trans ends)).symm

theorem pass {Q' : β → Prop} {first second : Except Stop α × Machine}
    {change : Except Stop α × Machine → Except Stop β × Machine}
    (approximates : Approximates lax P Q first second) (passes : Passes P P' Q Q' change) :
    Approximates lax P' Q' (change first) (change second) := by
  refine ⟨?_, passes.state _ _ approximates.state, passes.result _ _ approximates.result⟩
  refine approximates.less.imp (fun ⟨allowed, less⟩ => ⟨allowed, ?_⟩) (congrArg change)
  have ends : first = (.error .exhausted, first.2) := Prod.ext less rfl
  rw [ends]
  exact passes.stops _ _ nofun

end Approximates

def Criterion.approximation (lax : Prop) (p : Policy) : Criterion Bool p where
  meets P Q e := Approximates lax P Q (e false) (e true)
  same ends state := ⟨.inr rfl, state, fun _ => ends.result⟩
  bind := .bind
  pass := .pass

namespace Interpreter

variable {accepts : ClassDecl → Bool} {limit depth n k : Nat} {task : Task} {m : Machine}

theorem approximates_within (le : n ≤ k) (free : task.LoopFree accepts)
    (level : m.Level (.loopFree accepts) limit depth) :
    Approximates True (Machine.Level (.loopFree accepts) limit depth)
      (task.Gives (.loopFree accepts))
      (((within n).run task).exec m) (((within k).run task).exec m) := by
  induction k generalizing n limit depth task m with
  | zero =>
    obtain rfl := Nat.le_zero.mp le
    cases task <;> exact ⟨.inr rfl, level, nofun⟩
  | succ k ih =>
    -- The rules on any two bounds that are smaller.
    have rules : ∀ {n}, n ≤ k → (Criterion.approximation True _).Holds limit depth
        (task.Gives (.loopFree accepts)) fun i => (bif i then within k else within n).rules task :=
      fun le => Criterion.holds_rules free fun _ _ free' _ level' => ih le free' level'
    rw [run_within_succ]
    cases n with
    | zero =>
      have safe := rules (Nat.le_refl k) m level
      refine ⟨.inl ⟨trivial, ?_⟩, safe.state, safe.result⟩
      cases task <;> rfl
    | succ n =>
      rw [run_within_succ]
      exact rules (Nat.le_of_succ_le_succ le) m level

theorem exec_refusing {ev : Interpreter} {other : Task} {state : Machine} {stop : Stop}
    (differs : ¬(other = task ∧ m = state)) :
    ((ev.refusing other state stop).run task).exec m = (ev.run task).exec m := by
  cases task <;> exact Run.exec_stopAt_of_not differs _ stop

theorem exec_refusing_self (ev : Interpreter) (task : Task) (m : Machine) (stop : Stop) :
    ((ev.refusing task m stop).run task).exec m = (.error stop, m) := by
  cases task <;> exact Run.exec_stopAt ⟨rfl, rfl⟩ _ stop

theorem Issues.loopFree {task' : Task} {m' : Machine} (issues : (within k).Issues task m task' m')
    (free : task.LoopFree accepts) (carries : m.Carries (.loopFree accepts)) :
    task'.LoopFree accepts ∧ m'.Carries (.loopFree accepts) := by
  obtain ⟨stop, differs⟩ := issues
  by_contra other
  have refused : (Criterion.approximation False (.loopFree accepts)).Holds m.callLimit m.callDepth
      (task.Gives (.loopFree accepts)) fun i =>
        (bif i then (within k).refusing task' m' stop else within k).rules task := by
    refine Criterion.holds_rules free fun task _ free' s level => ?_
    have safe := approximates_within (Nat.le_refl k) free' level
    have same : (((within k).refusing task' m' stop).run task).exec s =
        ((within k).run task).exec s := by
      refine exec_refusing ?_
      rintro ⟨rfl, rfl⟩
      exact other ⟨free', level.carries⟩
    refine ⟨.inr same, ?_, ?_⟩ <;> dsimp only [cond_true] <;> rw [same]
    · exact safe.state
    · exact safe.result
  rcases (refused m ⟨carries, rfl, rfl⟩).less with ⟨⟨⟩, -⟩ | same
  exact differs same

theorem Issues.exhausted {task' : Task} {m' : Machine} (le : n ≤ k)
    (issues : (within k).Issues task m task' m') (free : task.LoopFree accepts)
    (carries : m.Carries (.loopFree accepts))
    (less : (((within n).run task').exec m').1 = .error .exhausted) :
    (((within (n + 1)).run task).exec m).1 = .error .exhausted := by
  obtain ⟨stop, differs⟩ := issues
  have level : m.Level (.loopFree accepts) m.callLimit m.callDepth := ⟨carries, rfl, rfl⟩
  have plain := approximates_within (Nat.succ_le_succ le) free level
  have refused : (Criterion.approximation True (.loopFree accepts)).Holds m.callLimit m.callDepth
      (task.Gives (.loopFree accepts)) fun i =>
        (bif i then (within k).refusing task' m' stop else within n).rules task := by
    refine Criterion.holds_rules free fun other _ free' s level' => ?_
    by_cases here : task' = other ∧ s = m'
    · obtain ⟨rfl, rfl⟩ := here
      refine ⟨.inl ⟨trivial, less⟩, ?_, ?_⟩ <;> dsimp only [cond_true] <;> rw [exec_refusing_self]
      · exact level'
      · exact nofun
    · have same := approximates_within le free' level'
      refine ⟨?_, ?_, ?_⟩ <;> dsimp only [cond_true, cond_false] <;> rw [exec_refusing here]
      · exact same.less
      · exact same.state
      · exact same.result
  rw [run_within_succ] at plain ⊢
  rw [run_within_succ] at plain
  rcases plain.less with ⟨-, less⟩ | same
  · exact less
  · rcases (refused m level).less with ⟨-, less⟩ | same'
    · exact less
    · exact absurd (same'.trans same.symm) differs

end Interpreter
end ServerScript
