import ServerScript.Proofs.Slots
import ServerScript.Proofs.WordDouble

/-! Counting loops over whole numbers. The counter is a double that is written as a word and read
back after every turn, so a loop runs through the doubles that are nearest to its numbers. It is
exact as long as all of its numbers are doubles, as they are up to 53 bits. -/
namespace ServerScript

open Number (nearest)

def Beyond (stop step n : Int) : Prop := 0 < step ∧ stop < n ∨ step < 0 ∧ n < stop

instance (stop step n : Int) : Decidable (Beyond stop step n) :=
  inferInstanceAs (Decidable (_ ∨ _))

/-- The number of terms that are not beyond the end. -/
def turns (start stop step : Int) : Nat := ((stop - start).fdiv step + 1).toNat

def term (start step : Int) (k : Nat) : Int := start + k * step

theorem term_add (start step : Int) (k : Nat) :
    term start step k + step = term start step (k + 1) := by
  rw [term, term]
  push_cast
  ring

theorem lt_turns_iff {start stop step : Int} (nonzero : step ≠ 0) (k : Nat) :
    k < turns start stop step ↔ ¬Beyond stop step (term start step k) := by
  rw [turns, term, Beyond]
  rcases Int.lt_or_gt_of_ne nonzero with down | up
  · have steps : (k : Int) ≤ (stop - start).fdiv step ↔ stop ≤ start + k * step := by
      have positive : 0 < -step := by omega
      rw [← Int.neg_fdiv_neg, Int.fdiv_eq_ediv_of_nonneg _ positive.le,
        Int.le_ediv_iff_mul_le positive, mul_neg]
      omega
    omega
  · have steps : (k : Int) ≤ (stop - start).fdiv step ↔ start + k * step ≤ stop := by
      rw [Int.fdiv_eq_ediv_of_nonneg _ up.le, Int.le_ediv_iff_mul_le up]
      omega
    omega

theorem term_mem {start stop step : Int} {k : Nat} (inside : ¬Beyond stop step (term start step k))
    (nonzero : step ≠ 0) :
    0 < step ∧ start ≤ term start step k ∧ term start step k ≤ stop ∨
      step < 0 ∧ stop ≤ term start step k ∧ term start step k ≤ start := by
  rw [Beyond] at inside
  have away : term start step k - start = k * step := by
    rw [term]
    ring
  rcases Int.lt_or_gt_of_ne nonzero with down | up
  · have := Int.mul_nonpos_of_nonneg_of_nonpos (Int.natCast_nonneg k) down.le
    omega
  · have := Int.mul_nonneg (Int.natCast_nonneg k) up.le
    omega

/-- The numbers that a counter runs through: the doubles nearest to its sums. -/
def counted (start step : Int) : Nat → Int
  | 0 => nearest start
  | k + 1 => nearest (counted start step k + nearest step)

structure ExactLoop (start stop step : Int) : Prop where
  terms : ∀ k ≤ turns start stop step, nearest (term start step k) = term start step k
  stop : nearest stop = stop
  step : nearest step = step

theorem ExactLoop.counted_eq {start stop step : Int} (exact : ExactLoop start stop step) {k : Nat}
    (le : k ≤ turns start stop step) : counted start step k = term start step k := by
  induction k with
  | zero => simpa [counted, term] using exact.terms 0 le
  | succ k ih =>
    rw [counted, ih (Nat.le_of_succ_le le), exact.step, term_add, exact.terms _ le]

theorem exactLoop_of_le {start stop step : Int} (nonzero : step ≠ 0) (first : start.natAbs ≤ 2 ^ 53)
    (last : stop.natAbs + step.natAbs ≤ 2 ^ 53) : ExactLoop start stop step where
  terms k le := by
    apply Number.nearest_of_le
    cases k with
    | zero => simpa [term] using first
    | succ k =>
      have before := term_mem ((lt_turns_iff nonzero k).mp le) nonzero
      have := term_add start step k
      omega
  stop := Number.nearest_of_le (by omega)
  step := Number.nearest_of_le (by omega)

open Number (Denotes)

theorem passed_iff {step stop current : Float} {s b n : Int} (steps : Denotes step (nearest s))
    (stops : Denotes stop (nearest b)) (currents : Denotes current n) :
    Interpreter.passed step stop current = true ↔ Beyond (nearest b) s n := by
  rw [Interpreter.passed, Beyond, Bool.or_eq_true, Bool.and_eq_true, Bool.and_eq_true,
    decide_eq_true_iff, decide_eq_true_iff, decide_eq_true_iff, decide_eq_true_iff,
    Number.denotes_zero.lt_iff steps, stops.lt_iff currents, steps.lt_iff Number.denotes_zero,
    currents.lt_iff stops, Number.zero_lt_nearest_iff, Number.nearest_lt_zero_iff]

section

variable {a b s : Int} {k : Nat}

theorem nearest_counted (a s : Int) (k : Nat) : nearest (counted a s k) = counted a s k := by
  cases k <;> exact Number.nearest_nearest _

theorem counted_neg (a s : Int) (k : Nat) : counted (-a) (-s) k = -counted a s k := by
  induction k with
  | zero => exact Number.nearest_neg a
  | succ k ih => rw [counted, counted, ih, Number.nearest_neg, ← neg_add, Number.nearest_neg]

theorem nearest_le_counted (up : 0 < s) (k : Nat) : nearest a ≤ counted a s k := by
  have step := Number.zero_lt_nearest_iff.mpr up
  induction k with
  | zero => exact Int.le_refl _
  | succ k ih =>
    calc nearest a ≤ counted a s k := ih
      _ = nearest (counted a s k) := (nearest_counted a s k).symm
      _ ≤ nearest (counted a s k + nearest s) := Number.nearest_mono (by omega)

theorem counted_le_nearest (down : s < 0) (k : Nat) : counted a s k ≤ nearest a := by
  have mirrored := nearest_le_counted (a := -a) (s := -s) (by omega) k
  rw [Number.nearest_neg, counted_neg] at mirrored
  omega

end

theorem counted_mem {a b s : Int64} {k : Nat} (nonzero : s.toInt ≠ 0)
    (goesOn : ¬Beyond (nearest b.toInt) s.toInt (counted a.toInt s.toInt k)) :
    -2 ^ 63 ≤ counted a.toInt s.toInt k ∧ counted a.toInt s.toInt k ≤ 2 ^ 63 := by
  have first := Number.nearest_word a
  have last := Number.nearest_word b
  rw [Beyond] at goesOn
  rcases Int.lt_or_gt_of_ne nonzero with down | up
  · have := counted_le_nearest (a := a.toInt) down k
    omega
  · have := nearest_le_counted (a := a.toInt) up k
    omega

def Machine.read (m : Machine) (name : Name) : Option Value := m.scopes.lookup m.heap name

namespace Interpreter

/-- The start of a turn: the clock is looked at and the counter is written. -/
def beginTurn (ev : Interpreter) (counter : Name) (n : Int64) : Run Unit := do
  Run.checkDeadline
  assignName ev counter (.integer n) false

/-- Turns of a counting loop in which the counter reads as the given numbers, one after the other,
and the body ends normally without changing it. -/
inductive RunsFor (ev : Interpreter) (counter : Name) (body : Block) :
    List Int64 → Machine → Machine → Prop
  | none (m) : RunsFor ev counter body [] m m
  | turn {n rest m m₁ m₂ m'} (begun : (ev.beginTurn counter n).exec m = (.ok ⟨⟩, m₁))
    (reads : m₁.read counter = some (.integer n))
    (ran : (ev.block body).exec m₁ = (.ok .normal, m₂))
    (kept : m₂.read counter = some (.integer n)) (others : RunsFor ev counter body rest m₂ m') :
    RunsFor ev counter body (n :: rest) m m'

/-- A loop that nothing disturbs for a number of turns. A turn finds the counter to be a variable
and its time not used up; the body ends normally, without changing the counter, in a state from
which the next turn may start. -/
structure Undisturbed (ev : Interpreter) (counter : Name) (body : Block) (count : Nat)
    (number : Nat → Int64) (ready : Nat → Machine → Prop) : Prop where
  assignable : ∀ {k m}, k ≤ count → ready k m → (m.slot? counter).isSome
  inTime : ∀ {k m}, k ≤ count → ready k m → m.control.tick.isExpired = false
  body : ∀ {k m m₁}, k < count → ready k m →
    (ev.beginTurn counter (number k)).exec m = (.ok ⟨⟩, m₁) →
    ∃ m₂, (ev.block body).exec m₁ = (.ok .normal, m₂) ∧ m₂.read counter = m₁.read counter ∧
      ready (k + 1) m₂

section

variable {ev : Interpreter} {counter : Name} {body : Block} {m : Machine}

variable (ev) in
theorem exec_beginTurn (assignable : (m.slot? counter).isSome)
    (inTime : m.control.tick.isExpired = false) (n : Int64) :
    ∃ m₁, (ev.beginTurn counter n).exec m = (.ok ⟨⟩, m₁) ∧
      m₁.read counter = some (.integer n) := by
  obtain ⟨slot, denotes⟩ := Option.isSome_iff_exists.mp assignable
  have looked : Run.checkDeadline.exec m = (.ok ⟨⟩, { m with control := m.control.tick }) := by
    rw [Run.checkDeadline, Run.modifyControl, Run.exec_modify_bind, Run.exec_get_bind]
    dsimp only
    rw [inTime]
    rfl
  have denotes : Machine.slot? { m with control := m.control.tick } counter = some slot := denotes
  refine ⟨Machine.put { m with control := m.control.tick } counter (.integer n) slot, ?_, ?_⟩
  · rw [beginTurn, Run.exec_bind_ok looked]
    exact exec_assignName ev denotes (.integer n) false
  · rw [Machine.read, Machine.lookup_eq_stored ((Machine.slot?_put denotes _ _).trans denotes)]
    exact Machine.stored_put denotes (.integer n)

theorem countTurns_succ (step stop current : Float) (fuel : Nat) :
    countTurns ev counter true step stop body (fuel + 1) current =
      ev.beginTurn counter (Number.saturate current) >>= fun _ =>
        if passed step stop current then pure .normal
        else ev.block body >>= fun flow =>
          match Turn.ofFlow .forLoop flow with
          | .again => Run.lookup counter >>= fun reached =>
            countTurns ev counter true step stop body fuel ((reached.getD .empty).toFloat + step)
          | .done => pure .normal
          | .leave flow => pure flow := by
  rw [countTurns, beginTurn, bind_assoc]
  rfl

theorem exec_countTurns_turn (fuel : Nat) {step stop current : Float} {n : Int64}
    {m₁ m₂ : Machine} (word : Number.saturate current = n)
    (inside : passed step stop current = false)
    (begun : (ev.beginTurn counter n).exec m = (.ok ⟨⟩, m₁))
    (ran : (ev.block body).exec m₁ = (.ok .normal, m₂))
    (kept : m₂.read counter = some (.integer n)) :
    (countTurns ev counter true step stop body (fuel + 1) current).exec m =
      (countTurns ev counter true step stop body fuel (Number.ofWord n + step)).exec m₂ := by
  have reads : (Run.lookup counter).exec m₂ = (.ok (some (.integer n)), m₂) := by
    rw [← kept]
    rfl
  rw [countTurns_succ, word, Run.exec_bind_ok begun, inside, if_neg Bool.false_ne_true,
    Run.exec_bind_ok ran]
  change (Run.lookup counter >>= fun reached =>
    countTurns ev counter true step stop body fuel ((reached.getD .empty).toFloat + step)).exec m₂ =
    _
  rw [Run.exec_bind_ok reads, Option.getD_some]
  congr 3

theorem exec_countTurns_end {step stop current : Float} {n : Int64} {fuel : Nat} {m₁ : Machine}
    (word : Number.saturate current = n) (outside : passed step stop current = true)
    (begun : (ev.beginTurn counter n).exec m = (.ok ⟨⟩, m₁)) :
    (countTurns ev counter true step stop body (fuel + 1) current).exec m = (.ok .normal, m₁) := by
  rw [countTurns_succ, word, Run.exec_bind_ok begun, outside, if_pos rfl]
  rfl

variable {a b s : Int64} {count : Nat} {ready : Nat → Machine → Prop}

/-- The run of the turns that are left, by induction on their number. -/
theorem exec_countTurns (nonzero : s.toInt ≠ 0)
    (inside : ∀ k < count, ¬Beyond (nearest b.toInt) s.toInt (counted a.toInt s.toInt k))
    (outside : Beyond (nearest b.toInt) s.toInt (counted a.toInt s.toInt count))
    (steady : Undisturbed ev counter body count
      (fun k => Number.clampWord (counted a.toInt s.toInt k)) ready)
    {k left fuel : Nat} {current : Float} (total : k + left = count) (enough : left < fuel)
    (here : ready k m) (currents : Denotes current (counted a.toInt s.toInt k)) :
    ∃ m₁ m', RunsFor ev counter body
        ((List.range' k left).map fun j => Number.clampWord (counted a.toInt s.toInt j)) m m₁ ∧
      (ev.beginTurn counter (Number.clampWord (counted a.toInt s.toInt count))).exec m₁ =
        (.ok ⟨⟩, m') ∧
      m'.read counter = some (.integer (Number.clampWord (counted a.toInt s.toInt count))) ∧
      (countTurns ev counter true (Number.ofWord s) (Number.ofWord b) body fuel current).exec m =
        (.ok .normal, m') := by
  have isOver {current : Float} {n : Int} (currents : Denotes current n) :=
    passed_iff (Number.denotes_ofWord s) (Number.denotes_ofWord b) currents
  induction left generalizing k fuel m current with
  | zero =>
    obtain rfl : k = count := total
    obtain ⟨fuel, rfl⟩ := Nat.exists_eq_succ_of_ne_zero (Nat.ne_of_gt enough)
    obtain ⟨m', begun, reads⟩ := exec_beginTurn ev (steady.assignable (Nat.le_refl k) here)
      (steady.inTime (Nat.le_refl k) here) (Number.clampWord (counted a.toInt s.toInt k))
    exact ⟨m, m', .none m, begun, reads,
      exec_countTurns_end currents.saturate_eq ((isOver currents).mpr outside) begun⟩
  | succ left ih =>
    have before : k < count := by omega
    obtain ⟨fuel, rfl⟩ := Nat.exists_eq_succ_of_ne_zero (Nat.ne_of_gt (Nat.zero_lt_of_lt enough))
    obtain ⟨m₁, begun, reads⟩ := exec_beginTurn ev (steady.assignable before.le here)
      (steady.inTime before.le here) (Number.clampWord (counted a.toInt s.toInt k))
    obtain ⟨m₂, ran, kept, ready⟩ := steady.body before here begun
    rw [reads] at kept
    have goesOn : passed (Number.ofWord s) (Number.ofWord b) current = false :=
      Bool.eq_false_iff.mpr fun ended => inside k before ((isOver currents).mp ended)
    have turn := exec_countTurns_turn fuel currents.saturate_eq goesOn begun ran kept
    have next : Denotes (Number.ofWord (Number.clampWord (counted a.toInt s.toInt k)) +
        Number.ofWord s) (counted a.toInt s.toInt (k + 1)) := by
      obtain ⟨low, high⟩ := counted_mem nonzero (inside k before)
      have reached := Number.denotes_ofWord (Number.clampWord (counted a.toInt s.toInt k))
      rw [Number.nearest_clampWord (nearest_counted _ _ k) low high] at reached
      refine reached.add (Number.denotes_ofWord s) (Number.natAbs_nearest_lt ?_)
      have := Number.nearest_word s
      omega
    have shorter : k + 1 + left = count := by omega
    have enough : left < fuel := Nat.lt_of_succ_lt_succ enough
    obtain ⟨m₃, m', others, last, reached, ends⟩ := ih shorter enough ready next
    exact ⟨m₃, m', .turn begun reads ran kept others, last, reached, turn.trans ends⟩

end

/-- What the start, the end and the step of a loop give. A loop goes in steps of one if no step is
written. -/
def bounds (ev : Interpreter) (start stop : Expr) (step : Option Expr) :
    Run (Value × Value × Value) := do
  let start ← ev.expr start
  let stop ← ev.expr stop
  let step ← match step with
    | some step => ev.expr step
    | none => pure (.integer 1)
  return (start, stop, step)

theorem execFor_eq (ev : Interpreter) (counter : Name) (start stop : Expr) (step : Option Expr)
    (body : Block) :
    execFor ev counter start stop step body =
        ev.bounds start stop step >>= fun (first, last, step) =>
      if step.toFloat == 0.0 then pure .normal
      else countTurns ev counter (first.toNumeric.isInt && step.toNumeric.isInt) step.toFloat
        last.toFloat body ev.fuel first.toFloat := by
  rw [execFor, bounds]
  cases step <;> simp only [bind_assoc, pure_bind]

theorem exec_execFor {ev : Interpreter} {counter : Name} {start stop : Expr} {step : Option Expr}
    {body : Block} {a b s : Int64} {m m₀ : Machine}
    (bounds : (ev.bounds start stop step).exec m =
      (.ok (.integer a, .integer b, .integer s), m₀)) (nonzero : s.toInt ≠ 0) :
    (execFor ev counter start stop step body).exec m =
      (countTurns ev counter true (Number.ofWord s) (Number.ofWord b) body ev.fuel
        (Number.ofWord a)).exec m₀ := by
  have moves : (Number.ofWord s == 0.0) = false := by
    rw [Bool.eq_false_iff, ne_eq, (Number.denotes_ofWord s).beq_iff Number.denotes_zero]
    have up := Number.zero_lt_nearest_iff (n := s.toInt)
    have down := Number.nearest_lt_zero_iff (n := s.toInt)
    omega
  have moves : ((Value.integer s).toFloat == 0.0) = false := moves
  rw [execFor_eq, Run.exec_bind_ok bounds]
  dsimp only
  rw [moves, if_neg Bool.false_ne_true]
  rfl

theorem Undisturbed.congr {ev : Interpreter} {counter : Name} {body : Block} {count : Nat}
    {number number' : Nat → Int64} {ready : Nat → Machine → Prop}
    (steady : Undisturbed ev counter body count number ready)
    (same : ∀ k < count, number k = number' k) :
    Undisturbed ev counter body count number' ready where
  assignable := steady.assignable
  inTime := steady.inTime
  body lt here begun := steady.body lt here (same _ lt ▸ begun)

end Interpreter

def termWord (a s : Int64) (k : Nat) : Int64 := Int64.ofInt (term a.toInt s.toInt k)

theorem toInt_termWord {a b s : Int64} {k : Nat} (nonzero : s.toInt ≠ 0)
    (inside : ¬Beyond b.toInt s.toInt (term a.toInt s.toInt k)) :
    (termWord a s k).toInt = term a.toInt s.toInt k := by
  have between := term_mem inside nonzero
  have := a.le_toInt
  have := a.toInt_lt
  have := b.le_toInt
  have := b.toInt_lt
  apply Number.toInt_ofInt_of_fits
  · rw [Number.wordMin]
    omega
  · rw [Number.wordMax]
    omega

open Interpreter in
/-- A loop over whole numbers runs its body once for each term that is not beyond the end, in order,
and leaves the counter at the first term that is. -/
theorem integer_loop_exact {ev : Interpreter} {counter : Name} {start stop : Expr}
    {step : Option Expr} {body : Block} {a b s : Int64} {m m₀ : Machine}
    {ready : Nat → Machine → Prop}
    (given : (ev.bounds start stop step).exec m = (.ok (.integer a, .integer b, .integer s), m₀))
    (nonzero : s ≠ 0) (exact : ExactLoop a.toInt b.toInt s.toInt)
    (enough : turns a.toInt b.toInt s.toInt < ev.fuel)
    (steady : Undisturbed ev counter body (turns a.toInt b.toInt s.toInt) (termWord a s) ready)
    (here : ready 0 m₀) :
    (∀ k, k < turns a.toInt b.toInt s.toInt ↔ ¬Beyond b.toInt s.toInt (term a.toInt s.toInt k)) ∧
      (∀ k < turns a.toInt b.toInt s.toInt, (termWord a s k).toInt = term a.toInt s.toInt k) ∧
      ∃ m₁ m', RunsFor ev counter body
          ((List.range (turns a.toInt b.toInt s.toInt)).map (termWord a s)) m₀ m₁ ∧
        (ev.beginTurn counter
          (Number.clampWord (term a.toInt s.toInt (turns a.toInt b.toInt s.toInt)))).exec m₁ =
          (.ok ⟨⟩, m') ∧
        (execFor ev counter start stop step body).exec m = (.ok .normal, m') ∧
        ∀ w : Int64, w.toInt = term a.toInt s.toInt (turns a.toInt b.toInt s.toInt) →
          m'.read counter = some (.integer w) := by
  have nonzero : s.toInt ≠ 0 := fun zero => nonzero (Int64.toInt_inj.mp zero)
  have inside : ∀ k, k < turns a.toInt b.toInt s.toInt ↔
      ¬Beyond b.toInt s.toInt (term a.toInt s.toInt k) := lt_turns_iff nonzero
  have words : ∀ k < turns a.toInt b.toInt s.toInt,
      (termWord a s k).toInt = term a.toInt s.toInt k := fun k lt =>
    toInt_termWord nonzero ((inside k).mp lt)
  have counts : ∀ k < turns a.toInt b.toInt s.toInt,
      termWord a s k = Number.clampWord (counted a.toInt s.toInt k) := fun k lt => by
    rw [exact.counted_eq lt.le]
    exact (Number.clampWord_eq_ofInt (words k lt)).symm
  have goesOn : ∀ k < turns a.toInt b.toInt s.toInt,
      ¬Beyond (nearest b.toInt) s.toInt (counted a.toInt s.toInt k) := fun k lt => by
    rw [exact.stop, exact.counted_eq lt.le]
    exact (inside k).mp lt
  have after : Beyond (nearest b.toInt) s.toInt
      (counted a.toInt s.toInt (turns a.toInt b.toInt s.toInt)) := by
    rw [exact.stop, exact.counted_eq (Nat.le_refl _)]
    exact not_not.mp (mt (inside _).mpr (Nat.lt_irrefl _))
  obtain ⟨m₁, m', passes, last, reached, ends⟩ := exec_countTurns nonzero goesOn after
    (steady.congr counts) (Nat.zero_add _) enough here (Number.denotes_ofWord a)
  rw [exact.counted_eq (Nat.le_refl _)] at last reached
  have whole := (exec_execFor given nonzero).trans ends
  refine ⟨inside, words, m₁, m', ?_, last, whole, fun w same => ?_⟩
  · rw [List.range_eq_range']
    convert passes using 1
    exact List.map_congr_left fun k among => counts k (by simpa using among)
  · rw [reached, ← same]
    congr 2
    rw [Number.clampWord_eq_ofInt (by rw [Int64.ofInt_toInt]), Int64.ofInt_toInt]

theorem Run.eq_ok_of_toOption {ends : Except Stop α × Machine} {a : α}
    (ok : ends.1.toOption = some a) : ends = (.ok a, ends.2) := by
  obtain ⟨⟨e⟩ | a', m⟩ := ends
  · cases ok
  · cases ok
    rfl

namespace Tallying

def i : Name := ⟨"i"⟩

def total : Name := ⟨"total"⟩

/-- `total = total + i` -/
def body : Block := [⟨.assign (.ident total) (.binary .add (.ident total) (.ident i)) false, {}⟩]

/-- `For i = 1 To 3` -/
def loop : Run Flow :=
  (Interpreter.within 6).execFor i (.literal (.integer 1)) (.literal (.integer 3)) none body

def begun (k : Nat) (m : Machine) : Machine :=
  (((Interpreter.within 6).beginTurn i (termWord 1 1 k)).exec m).2

def states : Nat → Machine
  | 0 => { scopes := { globals := [(total, .integer 0)], constants := [] } }
  | k + 1 => (((Interpreter.within 6).block body).exec (begun k (states k))).2

/-- `For i = 9007199254740993 To 9007199254740993 Step 2` -/
def odd : Run Flow :=
  (Interpreter.within 6).execFor i (.literal (.integer 9007199254740993))
    (.literal (.integer 9007199254740993)) (some (.literal (.integer 2))) body

theorem undisturbed : Interpreter.Undisturbed (.within 6) i body (turns 1 3 1) (termWord 1 1)
    fun k m => m = states k where
  assignable {k m} le here := by
    subst here
    have all : ∀ k ≤ 3, ((states k).slot? i).isSome := by decide +kernel
    exact all k le
  inTime {k m} le here := by
    subst here
    have all : ∀ k ≤ 3, (states k).control.tick.isExpired = false := by decide +kernel
    exact all k le
  body {k m m₁} lt here wrote := by
    subst here
    obtain rfl : begun k (states k) = m₁ := congrArg Prod.snd wrote
    have ends : ∀ k < 3,
        (((Interpreter.within 6).block body).exec (begun k (states k))).1.toOption =
          some .normal := by decide +kernel
    have first : ∀ k < 3, ((begun k (states k)).read i).any (Value.isWord (termWord 1 1 k)) := by
      decide +kernel
    have last : ∀ k < 3, ((states (k + 1)).read i).any (Value.isWord (termWord 1 1 k)) := by
      decide +kernel
    refine ⟨states (k + 1), Run.eq_ok_of_toOption (ends k lt), ?_, rfl⟩
    rw [Value.eq_some_of_isWord (first k lt), Value.eq_some_of_isWord (last k lt)]

end Tallying

open Tallying Interpreter in
theorem three_turns_counted :
    turns 1 3 1 = 3 ∧ ExactLoop 1 3 1 ∧
      ∃ m₁ m', RunsFor (within 6) i body [1, 2, 3] (states 0) m₁ ∧
        loop.exec (states 0) = (.ok .normal, m') ∧ m'.read i = some (.integer 4) := by
  have exact : ExactLoop 1 3 1 := exactLoop_of_le (by decide) (by decide) (by decide)
  obtain ⟨-, -, m₁, m', passes, -, ends, reads⟩ :=
    @integer_loop_exact (within 6) i (.literal (.integer 1)) (.literal (.integer 3)) none body
      1 3 1 (states 0) (states 0) _ rfl (by decide) exact (by decide) undisturbed rfl
  exact ⟨by decide, exact, m₁, m', passes, ends, reads 4 (by decide)⟩

open Tallying in
/-- Two to the 53rd and one is not a double: the only turn has the number before it. -/
theorem counter_misses_its_number :
    turns 9007199254740993 9007199254740993 2 = 1 ∧
      (odd.exec (states 0)).1.toOption = some .normal ∧
      (odd.exec (states 0)).2.read total = some (.integer 9007199254740992) ∧
      (odd.exec (states 0)).2.read i = some (.integer 9007199254740994) :=
  ⟨by decide +kernel, by decide +kernel, Value.eq_some_of_isWord (by decide +kernel),
    Value.eq_some_of_isWord (by decide +kernel)⟩

end ServerScript
