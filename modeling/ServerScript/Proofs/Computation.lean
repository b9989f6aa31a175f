import Mathlib.Tactic.Common
import ServerScript.Eval.Run

/-! Equations of computations on the state of a script. `exec` runs a computation from a state; a
computation is determined by its runs. -/
namespace ServerScript

theorem exists_of_bind_eq_ok {x : Except ε α} {f : α → Except ε β} {b : β}
    (ends : (x >>= f) = .ok b) : ∃ a, x = .ok a ∧ f a = .ok b := by
  cases x with
  | error e => cases ends
  | ok a => exact ⟨a, rfl, ends⟩

theorem foldlM_keeps {f : σ → α → Except ε σ} {I : σ → Prop} {items : List α} {s s' : σ}
    (step : ∀ s a s', a ∈ items → I s → f s a = .ok s' → I s') (start : I s)
    (done : items.foldlM f s = .ok s') : I s' := by
  induction items generalizing s with
  | nil => exact Except.ok.inj done ▸ start
  | cons a rest ih =>
    rw [List.foldlM_cons] at done
    obtain ⟨t, first, done⟩ := exists_of_bind_eq_ok done
    exact ih (fun s b s' member => step s b s' (List.mem_cons_of_mem a member))
      (step s a t List.mem_cons_self start first) done

namespace Run

def read (f : Machine → α) : Run α := fun m => (.ok (f m), m)

theorem ext {x y : Run α} (same : ∀ m, x.exec m = y.exec m) : x = y := funext same

@[simp] theorem exec_pure (a : α) (m : Machine) : (pure a : Run α).exec m = (.ok a, m) := rfl

@[simp] theorem exec_read (f : Machine → α) (m : Machine) : (read f).exec m = (.ok (f m), m) := rfl

@[simp] theorem exec_attempt (x : Run α) (m : Machine) :
    (attempt x).exec m = (.ok (x.exec m).1, (x.exec m).2) := rfl

@[simp] theorem exec_onHeap (f : Heap → Heap × α) (m : Machine) :
    (onHeap f).exec m = (.ok (f m.heap).2, { m with heap := (f m.heap).1 }) := rfl

@[simp] theorem exec_ofStop (r : Except Stop α) (m : Machine) : (ofStop r).exec m = (r, m) := by
  cases r <;> rfl

theorem exec_bind (x : Run α) (f : α → Run β) (m : Machine) :
    (x >>= f).exec m =
      match (x.exec m).1 with
      | .ok a => (f a).exec (x.exec m).2
      | .error s => (.error s, (x.exec m).2) := by
  change (ExceptT.bindCont f (x m).1 (x m).2 : Except Stop β × Machine) = _
  cases h : (x m).1 <;> simp only [exec, h] <;> rfl

theorem exec_bind_ok {x : Run α} {f : α → Run β} {m m' : Machine} {a : α}
    (ends : x.exec m = (.ok a, m')) : (x >>= f).exec m = (f a).exec m' := by
  rw [exec_bind, ends]

theorem exec_bind_error {x : Run α} {f : α → Run β} {m m' : Machine} {s : Stop}
    (ends : x.exec m = (.error s, m')) : (x >>= f).exec m = (.error s, m') := by
  rw [exec_bind, ends]

theorem exists_of_exec_bind_eq_ok {x : Run α} {f : α → Run β} {m m' : Machine} {b : β}
    (ends : (x >>= f).exec m = (.ok b, m')) :
    ∃ a m₁, x.exec m = (.ok a, m₁) ∧ (f a).exec m₁ = (.ok b, m') := by
  rw [exec_bind] at ends
  split at ends
  · rename_i a done
    exact ⟨a, (x.exec m).2, Prod.ext done rfl, ends⟩
  · cases ends

theorem exec_bind_congr {x : Run α} {f g : α → Run β} {m : Machine}
    (same : ∀ a m', x.exec m = (.ok a, m') → (f a).exec m' = (g a).exec m') :
    (x >>= f).exec m = (x >>= g).exec m := by
  rw [exec_bind, exec_bind]
  split
  · rename_i a done
    exact same a _ (Prod.ext done rfl)
  · rfl

@[simp] theorem exec_get_bind (f : Machine → Run β) (m : Machine) :
    (get >>= f).exec m = (f m).exec m := rfl

@[simp] theorem exec_modify_bind (g : Machine → Machine) (f : PUnit → Run β) (m : Machine) :
    (modify g >>= f).exec m = (f ⟨⟩).exec (g m) := rfl

theorem discard_eq (x : Run α) : discard x = x >>= fun _ => pure ⟨⟩ := by
  rw [Functor.discard, map_const, Function.comp_apply, map_eq_pure_bind]

end Run
end ServerScript
