import Mathlib.Data.List.Induction
import Mathlib.Tactic.Common
import ServerScript.Host.Application

/-! The lock of the application under any interleaving of requests. A request that has to wait for
its turn gives up. While a request holds the lock, nobody else changes anything, and the hold ends
with the unlock that matches its outermost lock, or when the request ends. -/
namespace ServerScript

inductive StoreAction where
  | lock
  | unlock
  | release
  | set (key : String) (value : SharedValue)
  | remove (key : String)
  | clear

def StoreAction.waits : StoreAction → Bool
  | unlock | release => false
  | _ => true

structure StoreCall where
  request : Nat
  action : StoreAction

namespace StoreCall

def isLock (r : Nat) : StoreCall → Bool
  | ⟨q, .lock⟩ => q == r
  | _ => false

def isUnlock (r : Nat) : StoreCall → Bool
  | ⟨q, .unlock⟩ => q == r
  | _ => false

/-- The locks that a request takes in a sequence of calls. -/
def locks (r : Nat) (calls : List StoreCall) : Nat := calls.countP (isLock r)

/-- The locks that a request gives back one by one. -/
def unlocks (r : Nat) (calls : List StoreCall) : Nat := calls.countP (isUnlock r)

end StoreCall

def StoreCall.effect (c : StoreCall) (s : ApplicationStore) : ApplicationStore :=
  match c.action with
  | .lock => { s with holder := some c.request, depth := s.depth + 1 }
  | .unlock => s.unlock c.request
  | .release => s.release c.request
  | .set key value => { s with contents := s.contents.insert key value }
  | .remove key => { s with contents := s.contents.remove key }
  | .clear => { s with contents := s.contents.clear }

namespace ApplicationStore

open StoreCall

/-- The answer to a call: the store after it, or an error. -/
def answer (s : ApplicationStore) (c : StoreCall) : Except EvalError ApplicationStore :=
  match c.action with
  | .lock => s.lock c.request
  | .unlock => .ok (s.unlock c.request)
  | .release => .ok (s.release c.request)
  | .set key value => s.set c.request key value
  | .remove key => s.remove c.request key
  | .clear => s.clear c.request

/-- The store after a call, which is the same store if the call fails. -/
def next (s : ApplicationStore) (c : StoreCall) : ApplicationStore :=
  match s.answer c with
  | .ok s' => s'
  | .error _ => s

def after (s : ApplicationStore) (calls : List StoreCall) : ApplicationStore := calls.foldl next s

@[simp] theorem after_nil (s : ApplicationStore) : s.after [] = s := rfl

@[simp] theorem after_concat (s : ApplicationStore) (calls : List StoreCall) (c : StoreCall) :
    s.after (calls ++ [c]) = (s.after calls).next c := by
  simp [after]

variable {s : ApplicationStore} {c : StoreCall} {r : Nat}

theorem allows_iff : s.allows r = true ↔ ∀ q, s.holder = some q → q = r := by
  cases held : s.holder <;> simp [allows, held]

theorem allows_of_holder (held : s.holder = some r) : s.allows r = true := by
  simp [allows, held]

theorem onTurn_of_allowed (allowed : s.allows r = true)
    (change : ApplicationStore → ApplicationStore) : s.onTurn r change = .ok (change s) :=
  if_pos allowed

theorem onTurn_of_refused (refused : ¬s.allows r = true)
    (change : ApplicationStore → ApplicationStore) : s.onTurn r change = .error .timeout :=
  if_neg refused

theorem answer_eq (s : ApplicationStore) (c : StoreCall) :
    s.answer c = if c.action.waits then s.onTurn c.request c.effect else .ok (c.effect s) := by
  obtain ⟨request, action⟩ := c
  cases action <;> rfl

theorem answer_eq_error_iff {e : EvalError} :
    s.answer c = .error e ↔
      e = .timeout ∧ c.action.waits = true ∧ ∃ q, s.holder = some q ∧ q ≠ c.request := by
  rw [answer_eq]
  by_cases waits : c.action.waits = true
  · rw [if_pos waits]
    by_cases allowed : s.allows c.request = true
    · rw [onTurn_of_allowed allowed]
      rw [allows_iff] at allowed
      exact ⟨nofun, fun ⟨_, _, q, held, other⟩ => absurd (allowed q held) other⟩
    · rw [onTurn_of_refused allowed]
      rw [allows_iff] at allowed
      push Not at allowed
      simp [allowed, waits, eq_comm]
  · simp [waits]

theorem next_of_error {e : EvalError} (failed : s.answer c = .error e) : s.next c = s := by
  rw [next, failed]

theorem next_of_foreign (held : s.holder = some r) (foreign : c.request ≠ r) : s.next c = s := by
  have other : s.holder ≠ some c.request := fun same =>
    foreign (Option.some.inj (same.symm.trans held))
  obtain ⟨request, action⟩ := c
  cases action with
  | unlock => exact s.unlock_of_not_holder request other
  | release => exact s.release_of_not_holder request other
  | _ => exact next_of_error (answer_eq_error_iff.mpr ⟨rfl, rfl, r, held, foreign.symm⟩)

theorem next_of_stray (other : s.holder ≠ some c.request) (stray : c.action.waits = false) :
    s.next c = s := by
  obtain ⟨request, action⟩ := c
  cases action with
  | unlock => exact s.unlock_of_not_holder request other
  | release => exact s.release_of_not_holder request other
  | _ => cases stray

theorem next_of_allowed (allowed : s.allows c.request = true) : s.next c = c.effect s := by
  have done : s.answer c = .ok (c.effect s) := by
    rw [answer_eq, onTurn_of_allowed allowed, ite_self]
  rw [next, done]

def Balanced (s : ApplicationStore) : Prop := s.holder.isSome = true ↔ 0 < s.depth

theorem Balanced.next (balanced : s.Balanced) (c : StoreCall) : (s.next c).Balanced := by
  by_cases allowed : s.allows c.request = true
  · rw [next_of_allowed allowed]
    obtain ⟨request, action⟩ := c
    cases action with
    | lock => simp [Balanced, effect]
    | unlock =>
      by_cases own : s.holder = some request
      · simp only [effect, unlock, if_pos own]
        split
        · simp [Balanced]
        · simp only [Balanced, own, Option.isSome_some, true_iff]
          omega
      · simpa only [effect, unlock, if_neg own] using balanced
    | release =>
      by_cases own : s.holder = some request
      · simp [effect, release, own, Balanced]
      · simpa only [effect, release, if_neg own] using balanced
    | _ => exact balanced
  · rw [allows_iff] at allowed
    push Not at allowed
    obtain ⟨q, held, other⟩ := allowed
    rw [next_of_foreign held (Ne.symm other)]
    exact balanced

theorem balanced_after (balanced : s.Balanced) (calls : List StoreCall) :
    (s.after calls).Balanced := by
  induction calls generalizing s with
  | nil => exact balanced
  | cons c rest ih => exact ih (balanced.next c)

theorem ends_hold_iff (held : s.holder = some r) :
    (s.next c).holder ≠ some r ↔
      c = ⟨r, .release⟩ ∨ (c = ⟨r, .unlock⟩ ∧ s.depth ≤ 1) := by
  by_cases own : c.request = r
  · rw [next_of_allowed (allows_of_holder (own ▸ held))]
    obtain ⟨request, action⟩ := c
    obtain rfl : request = r := own
    cases action with
    | unlock =>
      simp only [effect, unlock, if_pos held]
      split
      · simpa using ‹s.depth ≤ 1›
      · simpa [held] using Nat.lt_of_not_le ‹¬s.depth ≤ 1›
    | release => simp [effect, release, held]
    | _ => simp [effect, held]
  · rw [next_of_foreign held own]
    refine ⟨fun gone => absurd held gone, ?_⟩
    rintro (rfl | ⟨rfl, -⟩)
    · exact absurd rfl own
    · exact absurd rfl own

theorem holder_next_of_held (held : s.holder = some r) :
    (s.next c).holder = some r ∨ (s.next c).holder = none := by
  by_cases keeps : (s.next c).holder = some r
  · exact .inl keeps
  · obtain rfl | ⟨rfl, last⟩ := (ends_hold_iff held).mp keeps
    · exact .inr (by simp [next, answer, release, held])
    · exact .inr (by simp [next, answer, unlock, held, last])

theorem depth_next (held : s.holder = some r) (balanced : s.Balanced)
    (keeps : (s.next c).holder = some r) :
    (s.next c).depth + unlocks r [c] = s.depth + locks r [c] := by
  have positive : 0 < s.depth := balanced.mp (by rw [held]; rfl)
  by_cases own : c.request = r
  · have lasts := mt (ends_hold_iff (c := c) held).mpr (not_not.mpr keeps)
    rw [next_of_allowed (allows_of_holder (own ▸ held))]
    obtain ⟨request, action⟩ := c
    obtain rfl : request = r := own
    cases action with
    | lock => simp [effect, locks, unlocks, isLock, isUnlock]
    | unlock =>
      have more : ¬s.depth ≤ 1 := fun last => lasts (.inr ⟨rfl, last⟩)
      simp only [effect, unlock, if_pos held, if_neg more]
      simp [locks, unlocks, isLock, isUnlock]
      omega
    | release => exact absurd (.inl rfl) lasts
    | _ => simp [effect, locks, unlocks, isLock, isUnlock]
  · rw [next_of_foreign held own]
    obtain ⟨request, action⟩ := c
    cases action <;> simp [locks, unlocks, isLock, isUnlock, own]

/-- A hold: the outermost lock was taken while the store was free, the request has been the holder
ever since, and it has never given back more locks than it took after that one. -/
structure Hold (s : ApplicationStore) (r : Nat) (before since : List StoreCall) : Prop where
  free : (s.after before).holder = none
  lasts : ∀ part, part <+: since → (s.after (before ++ ⟨r, .lock⟩ :: part)).holder = some r
  nested : ∀ part, part <+: since → unlocks r part ≤ locks r part

/-- The nesting counts the outermost lock and those after it that were not given back. -/
def Hold.Counts (s : ApplicationStore) (r : Nat) (before since : List StoreCall) : Prop :=
  (s.after (before ++ ⟨r, .lock⟩ :: since)).depth + unlocks r since = locks r since + 1

theorem locks_append (r : Nat) (calls more : List StoreCall) :
    locks r (calls ++ more) = locks r calls + locks r more := List.countP_append

theorem unlocks_append (r : Nat) (calls more : List StoreCall) :
    unlocks r (calls ++ more) = unlocks r calls + unlocks r more := List.countP_append

theorem lock_of_free (free : s.holder = none) (taken : (s.next c).holder = some r) :
    c = ⟨r, .lock⟩ := by
  have allowed : s.allows c.request = true := by simp [allows, free]
  rw [next_of_allowed allowed] at taken
  obtain ⟨request, action⟩ := c
  cases action with
  | lock => simpa [effect] using taken
  | unlock => simp [effect, unlock, free] at taken
  | release => simp [effect, release, free] at taken
  | _ => simp [effect, free] at taken

theorem exists_hold (balanced : s.Balanced) (free : s.holder = none) (calls : List StoreCall)
    (held : (s.after calls).holder = some r) :
    ∃ before since, calls = before ++ ⟨r, .lock⟩ :: since ∧ s.Hold r before since ∧
      Hold.Counts s r before since := by
  -- The induction follows the sequence to its last call, which starts a hold or continues it.
  induction calls using List.reverseRecOn generalizing r with
  | nil => rw [after_nil, free] at held; cases held
  | append_singleton calls c ih =>
    rw [after_concat] at held
    have sound := balanced_after balanced calls
    cases owner : (s.after calls).holder with
    | none =>
      obtain rfl := lock_of_free owner held
      have empty : (s.after calls).depth = 0 := by
        rw [Balanced, owner] at sound
        simpa using sound
      refine ⟨calls, [], rfl, ⟨owner, fun part inside => ?_, fun part inside => ?_⟩, ?_⟩
      · obtain rfl := List.prefix_nil.mp inside
        rw [after_concat]
        exact held
      · obtain rfl := List.prefix_nil.mp inside
        exact Nat.le_refl _
      · have allowed : (s.after calls).allows r = true := by simp [allows, owner]
        rw [Hold.Counts, after_concat, next_of_allowed allowed]
        simp [effect, empty, locks, unlocks]
    | some q =>
      obtain rfl : q = r := by
        rcases holder_next_of_held (c := c) owner with same | none
        · exact Option.some.inj (same.symm.trans held)
        · cases none.symm.trans held
      obtain ⟨before, since, rfl, hold, counts⟩ := ih owner
      have step := depth_next owner sound held
      have same : before ++ ⟨q, .lock⟩ :: (since ++ [c]) =
          (before ++ ⟨q, .lock⟩ :: since) ++ [c] := by simp
      refine ⟨before, since ++ [c], same.symm, ⟨hold.free, fun part inside => ?_,
        fun part inside => ?_⟩, ?_⟩
      · rcases List.prefix_concat_iff.mp inside with rfl | inside
        · rw [same, after_concat]
          exact held
        · exact hold.lasts part inside
      · rcases List.prefix_concat_iff.mp inside with rfl | inside
        · have positive := (sound.next c).mp (by rw [held]; rfl)
          rw [Hold.Counts] at counts
          rw [locks_append, unlocks_append]
          omega
        · exact hold.nested part inside
      · rw [Hold.Counts] at counts ⊢
        rw [same, after_concat, locks_append, unlocks_append]
        omega

end ApplicationStore

open ApplicationStore StoreCall

/-- The lock of the application is safe under all interleavings of calls: there is a holder exactly
while locks are to be given back; the holder is the only one whose calls have an effect; its hold
goes back to a lock that it took when the store was free, and it ends with the release of the
holder or with the unlock that matches that lock, and with nothing else; stray calls and calls that
give up change nothing. -/
theorem application_lock_safe (contents : Contents) (calls : List StoreCall) :
    let start : ApplicationStore := { contents }
    let s := start.after calls
    (s.holder.isSome = true ↔ 0 < s.depth) ∧
    (∀ r c, s.holder = some r → c.request ≠ r → s.next c = s) ∧
    (∀ r, s.holder = some r → ∃ before since,
      calls = before ++ ⟨r, .lock⟩ :: since ∧ start.Hold r before since ∧
      ∀ c, (s.next c).holder ≠ some r ↔
        c = ⟨r, .release⟩ ∨ (c = ⟨r, .unlock⟩ ∧ unlocks r since = locks r since)) ∧
    (∀ c, c.action.waits = false → s.holder ≠ some c.request → s.next c = s) ∧
    ∀ c e, s.answer c = .error e ↔ s.next c = s ∧
      e = .timeout ∧ c.action.waits = true ∧ ∃ q, s.holder = some q ∧ q ≠ c.request := by
  intro start s
  have fresh : start.Balanced := by simp [start, ApplicationStore.Balanced]
  have sound : s.Balanced := balanced_after fresh calls
  refine ⟨sound, fun r c => next_of_foreign, fun r held => ?_,
    fun c stray other => next_of_stray other stray, fun c e => ?_⟩
  · obtain ⟨before, since, rfl, hold, counts⟩ :=
      exists_hold fresh rfl calls held
    refine ⟨before, since, rfl, hold, fun c => ?_⟩
    have positive : 0 < s.depth := sound.mp (by rw [held]; rfl)
    have nested := hold.nested since (List.prefix_refl since)
    have last : s.depth ≤ 1 ↔ unlocks r since = locks r since := by
      rw [Hold.Counts] at counts
      change s.depth + unlocks r since = locks r since + 1 at counts
      omega
    rw [ends_hold_iff held, last]
  · exact ⟨fun failed => ⟨next_of_error failed, answer_eq_error_iff.mp failed⟩,
      fun gaveUp => answer_eq_error_iff.mpr gaveUp.2⟩

/-- Request 1 locks twice and unlocks once while request 2 tries to write and to unlock. -/
def StoreCall.contended : List StoreCall :=
  [⟨1, .lock⟩, ⟨1, .lock⟩, ⟨2, .set "visits" .empty⟩, ⟨2, .unlock⟩, ⟨1, .unlock⟩]

theorem contended_lock_safe :
    let s := ({} : ApplicationStore).after contended
    s.holder = some 1 ∧ s.next ⟨2, .clear⟩ = s ∧ (s.next ⟨1, .unlock⟩).holder ≠ some 1 ∧
      ∃ before since, contended = before ++ ⟨1, .lock⟩ :: since ∧
        ApplicationStore.Hold {} 1 before since ∧ unlocks 1 since = locks 1 since := by
  intro s
  have held : s.holder = some 1 := rfl
  obtain ⟨-, foreign, hold, -, -⟩ := application_lock_safe {} contended
  obtain ⟨before, since, split, hold, ends⟩ := hold 1 held
  have ended : (s.next ⟨1, .unlock⟩).holder ≠ some 1 := nofun
  refine ⟨held, foreign 1 ⟨2, .clear⟩ held (by decide), ended, before, since, split, hold, ?_⟩
  rcases (ends ⟨1, .unlock⟩).mp ended with other | ⟨-, matched⟩
  · cases other
  · exact matched

end ServerScript
