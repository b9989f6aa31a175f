import Mathlib.Tactic.Common
import ServerScript.Function.Table
import ServerScript.Member.Application
import ServerScript.Member.Request
import ServerScript.Proofs.Computation

/-! Words that are counted from one. A position is found by taking one away from a word, and so are
a month and a day of a serial; the smallest word has none to take away, which ends the request
instead of the script's call. All other words have a result or an error of the script. -/
namespace ServerScript

variable {α β : Type} {key : Value} {args : List Value} {m : Machine}

def Visible : Except Stop α → Prop
  | .ok _ | .error (.error _) => True
  | .error (.fault _) | .error .exhausted => False

/-- A computation has a fault under a condition, and otherwise ends as a script can see. -/
structure FaultsIf (bad : Prop) (act : Run α) (m : Machine) : Prop where
  faults : bad → act.exec m = (.error (.fault .subtractOverflow), m)
  visible : ¬bad → Visible (act.exec m).1

/-- A computation looks an item up. If the key is counted from one, the smallest word is a fault, a
word between one and the number of items is that item, and any other word is empty. -/
structure LooksUp (counted : Prop) (w : Int64) (items : List (Run Value)) (act : Run Value)
    (m : Machine) : Prop extends FaultsIf (counted ∧ w = .minValue) act m where
  inside : counted → ∀ (i : Nat) (bound : i < items.length), w.toInt = i + 1 →
    act.exec m = items[i].exec m
  outside : counted → w ≠ .minValue → w.toInt < 1 ∨ items.length < w.toInt →
    act.exec m = (.ok .empty, m)

theorem LooksUp.congr {counted : Prop} {w : Int64} {items : List (Run Value)} {act other : Run Value}
    (looks : LooksUp counted w items act m) (same : other.exec m = act.exec m) :
    LooksUp counted w items other m := by
  obtain ⟨⟨faults, visible⟩, inside, outside⟩ := looks
  rw [← same] at faults visible inside outside
  exact ⟨⟨faults, visible⟩, inside, outside⟩

/-! ### Positions -/

theorem Number.word?_pred_eq_none_iff {w : Int64} : word? (w.toInt - 1) = none ↔ w = .minValue := by
  obtain ⟨least, most⟩ := toInt_mem w
  have value : Int64.minValue.toInt = wordMin := by decide
  rw [← Int64.toInt_inj, value, word?]
  split <;> simp only [reduceCtorEq, false_iff, true_iff] <;> omega

theorem Number.exists_word?_pred {w : Int64} (other : w ≠ .minValue) :
    ∃ v, word? (w.toInt - 1) = some v := by
  apply Option.ne_none_iff_exists'.mp
  exact mt word?_pred_eq_none_iff.mp other

theorem Value.position_of_least (least : key.toWord = .minValue) :
    key.position = .error .subtractOverflow := by
  rw [position, Number.word?_pred_eq_none_iff.mpr least]

theorem Value.exists_position (other : key.toWord ≠ .minValue) :
    ∃ position, key.position = .ok position := by
  obtain ⟨w, found⟩ := Number.exists_word?_pred other
  rw [position, found]
  exact ⟨_, rfl⟩

theorem Value.position_of_low (other : key.toWord ≠ .minValue) (low : key.toWord.toInt < 1) :
    key.position = .ok none := by
  obtain ⟨w, found⟩ := Number.exists_word?_pred other
  have value := Number.toInt_of_word? found
  rw [position, found]
  dsimp only
  rw [if_neg (by omega)]

/-! ### Items by their position -/

/-- The item at a position, and what looking for the position ended with if there is none. -/
def readAt (items : List (Run Value)) : Except Fault (Option Nat) → Run Value
  | .ok position => (position.bind fun i => items[i]?).getD (pure .empty)
  | .error f => Run.fault f

theorem looksUp_of_position {counted : Prop} {items : List (Run Value)} {act : Run Value}
    (entries : ∀ item ∈ items, Visible (item.exec m).1)
    (counts : counted → act.exec m = (readAt items key.position).exec m)
    (named : ¬counted → Visible (act.exec m).1) : LooksUp counted key.toWord items act m := by
  refine ⟨⟨?_, ?_⟩, ?_, ?_⟩
  · rintro ⟨isCounted, least⟩
    rw [counts isCounted, Value.position_of_least least]
    rfl
  · intro harmless
    by_cases isCounted : counted
    · have other : key.toWord ≠ .minValue := fun least => harmless ⟨isCounted, least⟩
      rw [counts isCounted]
      rcases Int.lt_or_le key.toWord.toInt 1 with low | high
      · rw [Value.position_of_low other low]
        trivial
      · rw [Value.position_of_pos high, readAt, Option.bind_some]
        cases found : items[key.toWord.toInt.toNat - 1]? with
        | none => trivial
        | some item => exact entries item (List.mem_of_getElem? found)
    · exact named isCounted
  · intro isCounted i bound place
    have index : key.toWord.toInt.toNat - 1 = i := by omega
    rw [counts isCounted, Value.position_of_pos (by omega), readAt, Option.bind_some, index,
      List.getElem?_eq_getElem bound, Option.getD_some]
  · intro isCounted other outside
    rw [counts isCounted]
    rcases Int.lt_or_le key.toWord.toInt 1 with low | high
    · rw [Value.position_of_low other low]
      rfl
    · rw [Value.position_of_pos high, readAt, Option.bind_some,
        List.getElem?_eq_none (by omega), Option.getD_none]
      rfl

/-- The items of shared contents, as a script reads them. -/
def Contents.items (c : Contents) : List (Run Value) :=
  c.entries.map fun e => Run.onHeap (e.2.toValue ·)

theorem looksUp_sharedItem (c : Contents) (key : Value) (m : Machine) :
    LooksUp key.isPosition key.toWord c.items (Members.sharedItem c key) m := by
  refine looksUp_of_position (fun item member => ?_) (fun counted => ?_) (fun named => ?_)
  · obtain ⟨e, -, rfl⟩ := List.mem_map.mp member
    trivial
  · rw [Members.sharedItem, Contents.lookup, if_pos counted]
    rcases key.position with f | _ | i
    · rfl
    · rfl
    · rw [readAt, Option.bind_some, Contents.items, List.getElem?_map]
      cases found : c.entries[i]? <;> simp [Except.map, found, Run.ofFault]
  · rw [Members.sharedItem, Contents.lookup, if_neg named]
    cases c.get? key.toText <;> trivial

def textItems (texts : List String) : List (Run Value) := texts.map fun text => pure (.string text)

theorem looksUp_text {counted : Prop} {texts : List String} {found : Except Fault Value}
    (counts : counted → found =
      key.position.map fun position => (position.bind fun i => texts[i]?).elim .empty .string)
    (named : ¬counted → ∃ v, found = .ok v) (m : Machine) :
    LooksUp counted key.toWord (textItems texts) (Run.ofFault found) m := by
  refine looksUp_of_position (fun item member => ?_) (fun counted => ?_) (fun isNamed => ?_)
  · obtain ⟨text, -, rfl⟩ := List.mem_map.mp member
    trivial
  · rw [counts counted]
    rcases key.position with f | _ | i
    · rfl
    · rfl
    · rw [readAt, Option.bind_some, textItems, List.getElem?_map]
      cases place : texts[i]? <;> simp [Except.map, place, Run.ofFault]
  · obtain ⟨v, rfl⟩ := named isNamed
    trivial

namespace Collection

def texts (c : Collection) : List String := c.entries.map (joined ·.2)

def keys (c : Collection) : List String := c.entries.map (·.1)

theorem looksUp_item (c : Collection) (key : Value) (m : Machine) :
    LooksUp key.isPosition key.toWord (textItems c.texts) (Run.ofFault (c.item key)) m := by
  refine looksUp_text (fun counted => ?_) (fun named => ?_) m
  · rw [item, if_pos counted]
    cases key.position <;> simp [Except.map, texts]
  · rw [item, if_neg named]
    exact ⟨_, rfl⟩

theorem looksUp_keyAt (c : Collection) (key : Value) (m : Machine) :
    LooksUp True key.toWord (textItems c.keys) (Run.ofFault (c.keyAt key)) m := by
  refine looksUp_text (fun _ => ?_) (absurd trivial) m
  rw [keyAt, keys]
  simp

end Collection

namespace Members

def AsksForItem (name : String) (args : List Value) : Prop :=
  name = "item" ∨ name = "" ∨ name = "contents" ∧ args ≠ []

theorem looksUp_of_asks {c : Contents} {call : String → List Value → Run Value} {name : String}
    (asks : AsksForItem name args)
    (item : ∀ args, (call "item" args).exec m = (sharedItem c (Value.arg args 0)).exec m)
    (unnamed : ∀ args, (call "" args).exec m = (sharedItem c (Value.arg args 0)).exec m)
    (contents : ∀ key rest, (call "contents" (key :: rest)).exec m = (sharedItem c key).exec m) :
    LooksUp (Value.arg args 0).isPosition (Value.arg args 0).toWord c.items (call name args) m := by
  refine (looksUp_sharedItem c (Value.arg args 0) m).congr ?_
  rcases asks with rfl | rfl | ⟨rfl, some⟩
  · exact item args
  · exact unnamed args
  · cases args with
    | nil => exact absurd rfl some
    | cons key rest => exact contents key rest

theorem looksUp_session {name : String} (asks : AsksForItem name args) (m : Machine) :
    LooksUp (Value.arg args 0).isPosition (Value.arg args 0).toWord
      (m.site.session.getD { id := "" }).contents.items (session.call name args) m :=
  looksUp_of_asks asks (fun _ => rfl) (fun _ => rfl) fun _ _ => rfl

theorem looksUp_application {name : String} (asks : AsksForItem name args) (m : Machine) :
    LooksUp (Value.arg args 0).isPosition (Value.arg args 0).toWord
      m.site.application.contents.items (application.call name args) m :=
  looksUp_of_asks asks (fun _ => rfl) (fun _ => rfl) fun _ _ => rfl

end Members

/-! ### Serials -/

namespace Calendar

open Number

/-- A serial takes one away from the smallest word: from the month if the year has a number of
months, and from the day if the month that is reached is supported. -/
inductive Underflows (year month day : Int64) : Prop
  | month (months : wordMin ≤ year.toInt * 12 ∧ year.toInt * 12 ≤ wordMax)
      (least : month = .minValue)
  | day (months : wordMin ≤ year.toInt * 12 ∧ year.toInt * 12 ≤ wordMax)
      (other : month ≠ .minValue)
      (supported : minYear ≤ (year.toInt * 12 + (month.toInt - 1)) / 12 ∧
        (year.toInt * 12 + (month.toInt - 1)) / 12 ≤ maxYear)
      (least : day = .minValue)

variable {year month day : Int64}

theorem dateSerial_of_underflows (under : Underflows year month day) :
    dateSerial year month day = .error .subtractOverflow := by
  cases under with
  | month months least =>
    obtain ⟨counted, found⟩ := exists_word?_iff.mpr months
    rw [dateSerial, found]
    dsimp only
    rw [word?_pred_eq_none_iff.mpr least]
  | day months other supported least =>
    obtain ⟨counted, found⟩ := exists_word?_iff.mpr months
    obtain ⟨monthsOn, foundOn⟩ := exists_word?_pred other
    obtain ⟨index, foundIndex⟩ :
        ∃ w, word? (year.toInt * 12 + (month.toInt - 1)) = some w := by
      refine exists_word?_iff.mpr ?_
      unfold minYear maxYear wordMin wordMax at *
      omega
    simp only [dateSerial, found, foundOn, toInt_of_word? found, toInt_of_word? foundOn,
      foundIndex, toInt_of_word? foundIndex, word?_pred_eq_none_iff.mpr least]
    rw [if_pos supported]

theorem exists_dateSerial (other : ¬Underflows year month day) :
    ∃ t, dateSerial year month day = .ok t := by
  -- All steps but the two that take one away refuse a number that is no word.
  unfold dateSerial
  cases found : word? (year.toInt * 12) with
  | none => exact ⟨_, rfl⟩
  | some counted =>
    have months := exists_word?_iff.mp ⟨_, found⟩
    obtain ⟨monthsOn, foundOn⟩ := exists_word?_pred fun least => other (.month months least)
    dsimp only
    rw [foundOn]
    dsimp only
    rw [toInt_of_word? found, toInt_of_word? foundOn]
    cases foundIndex : word? (year.toInt * 12 + (month.toInt - 1)) with
    | none => exact ⟨_, rfl⟩
    | some index =>
      dsimp only
      rw [toInt_of_word? foundIndex]
      split
      · rename_i supported
        obtain ⟨daysOn, foundDays⟩ := exists_word?_pred fun least => other
          (.day months (fun least => other (.month months least)) supported least)
        rw [foundDays]
        exact ⟨_, rfl⟩
      · exact ⟨_, rfl⟩

end Calendar

/-! ### Functions -/

namespace Visible

theorem refuse (e : EvalError) : Visible (Function.refuse e : Except Stop α) := trivial

theorem bind {x : Except Stop α} {f : α → Except Stop β} (first : Visible x)
    (next : ∀ a, Visible (f a)) : Visible (x >>= f) := by
  rcases x with (e | f | _) | a
  · trivial
  · exact first
  · exact first
  · exact next a

theorem map {x : Except Stop α} (visible : Visible x) (f : α → β) : Visible (x.map f) := by
  rcases x with (e | f | _) | a
  · trivial
  · exact visible
  · exact visible
  · trivial

theorem ite {c : Prop} [Decidable c] {x y : Except Stop α} (yes : Visible x) (no : Visible y) :
    Visible (if c then x else y) := by
  split
  · exact yes
  · exact no

theorem passNull {f : List Value → Function.Answer} (answers : ∀ args, Visible (f args))
    (args : List Value) : Visible (Function.passNull f args) := ite trivial (answers args)

theorem count (n : Int64) (name : String) : Visible (Function.count n name) :=
  ite (refuse _) trivial

theorem positionFrom (n : Int64) (name : String) : Visible (Function.positionFrom n name) :=
  ite (refuse _) trivial

end Visible

namespace Function

theorem visible_dateArg (args : List Value) (index : Nat) (name : String) :
    Visible (dateArg args index name) := by
  rw [dateArg]
  cases Calendar.Moment.ofText? (textArg args index) with
  | none => exact .refuse _
  | some t => trivial

theorem visible_ofMoment? (t : Option Calendar.Moment) (name : String) :
    Visible (ofMoment? t name) := by
  cases t with
  | none => exact .refuse _
  | some t => trivial

theorem visible_weekdayName (args : List Value) : Visible (weekdayName args) :=
  .ite trivial (.refuse _)

theorem visible_timeSerial (args : List Value) : Visible (timeSerial args) := visible_ofMoment? _ _

theorem visible_dateAdd (args : List Value) : Visible (dateAdd args) := by
  refine .bind (.ite (.refuse _) trivial) fun interval => ?_
  exact .bind (visible_dateArg args 2 _) fun moment => visible_ofMoment? _ _

theorem visible_mid : ∀ args, Visible (mid args) := by
  refine Visible.passNull fun args => .bind (.positionFrom _ _) fun start => ?_
  exact .ite trivial (.bind (.count _ _) fun length => trivial)

theorem visible_inStr (args : List Value) : Visible (inStr args) :=
  .ite trivial (.bind (.positionFrom _ _) fun _ => trivial)

theorem visible_inStrRev (args : List Value) : Visible (inStrRev args) := by
  refine .ite trivial (.bind (.ite trivial (.ite (.refuse _) trivial)) fun stop =>
    .ite trivial ?_)
  split <;> trivial

theorem visible_replace : ∀ args, Visible (replace args) :=
  Visible.passNull fun _ => .bind (.positionFrom _ _) fun _ => trivial

/-- The calls that take one away from the smallest word. Only two functions take one away from an
argument without a look at it. -/
def Underflows (name : String) (args : List Value) : Prop :=
  name = "monthname" ∧ (Arity.between 1 2).admits args.length ∧
      (Value.arg args 0).toWord = .minValue ∨
    name = "dateserial" ∧ (Arity.exactly 3).admits args.length ∧
      Calendar.Underflows (Value.arg args 0).toWord (Value.arg args 1).toWord (Value.arg args 2).toWord

theorem underflows_monthName_iff : Underflows "monthname" args ↔
    (Arity.between 1 2).admits args.length ∧ (Value.arg args 0).toWord = .minValue := by
  simp [Underflows]

theorem underflows_dateSerial_iff : Underflows "dateserial" args ↔
    (Arity.exactly 3).admits args.length ∧ Calendar.Underflows (Value.arg args 0).toWord
      (Value.arg args 1).toWord (Value.arg args 2).toWord := by
  simp [Underflows]

theorem faultsIf_of_answer {name : String} {arity : Arity} {f : List Value → Answer} {bad : Prop}
    (found : builtin? name = some (.ofAnswer name arity f))
    (faults : bad → arity.admits args.length ∧ f args = .error (.fault .subtractOverflow))
    (visible : ¬bad → arity.admits args.length → Visible (f args)) (m : Machine) :
    FaultsIf bad (call? name args) m := by
  have run : (call? name args).exec m =
      if arity.admits args.length then ((f args).map some, m)
      else (.error (.error (.invalidNumberOfArguments name)), m) := by
    rw [call?, found]
    dsimp only [Builtin.ofAnswer]
    split
    · rw [Run.exec_bind, Run.exec_ofStop]
      cases f args <;> rfl
    · rfl
  constructor
  · intro isBad
    obtain ⟨admitted, fault⟩ := faults isBad
    rw [run, if_pos admitted, fault]
    rfl
  · intro other
    rw [run]
    split
    · rename_i admitted
      exact (visible other admitted).map some
    · trivial

theorem faultsIf_monthName (args : List Value) (m : Machine) :
    FaultsIf (Underflows "monthname" args) (call? "monthname" args) m := by
  refine faultsIf_of_answer rfl (fun under => ?_) (fun other admitted => ?_) m
  · obtain ⟨admitted, least⟩ := underflows_monthName_iff.mp under
    refine ⟨admitted, ?_⟩
    rw [monthName, Value.position_of_least least]
    rfl
  · have other : (Value.arg args 0).toWord ≠ .minValue := fun least =>
      other (underflows_monthName_iff.mpr ⟨admitted, least⟩)
    obtain ⟨p, position⟩ := Value.exists_position other
    rw [monthName, position]
    refine .bind trivial fun index => ?_
    split
    · trivial
    · exact .refuse _

theorem faultsIf_dateSerial (args : List Value) (m : Machine) :
    FaultsIf (Underflows "dateserial" args) (call? "dateserial" args) m := by
  refine faultsIf_of_answer rfl (fun under => ?_) (fun other admitted => ?_) m
  · obtain ⟨admitted, under⟩ := underflows_dateSerial_iff.mp under
    refine ⟨admitted, ?_⟩
    rw [dateSerial, Calendar.dateSerial_of_underflows under]
    rfl
  · obtain ⟨t, serial⟩ := Calendar.exists_dateSerial fun under =>
      other (underflows_dateSerial_iff.mpr ⟨admitted, under⟩)
    rw [dateSerial, serial]
    exact visible_ofMoment? _ _

theorem faultsIf_of_visible {name : String} {arity : Arity} {f : List Value → Answer}
    (found : builtin? name = some (.ofAnswer name arity f)) (visible : ∀ args, Visible (f args))
    (other : name ≠ "monthname" ∧ name ≠ "dateserial") (args : List Value) (m : Machine) :
    FaultsIf (Underflows name args) (call? name args) m := by
  have never : Underflows name args → False := by simp [Underflows, other]
  exact faultsIf_of_answer found (fun under => (never under).elim) (fun _ _ => visible args) m

theorem faultsIf_split (args : List Value) (m : Machine) :
    FaultsIf (Underflows "split" args) (call? "split" args) m := by
  have found : builtin? "split" = some ⟨"split", .between 1 4, split⟩ := rfl
  refine ⟨fun under => absurd under (by simp [Underflows]), fun _ => ?_⟩
  rw [call?, found]
  dsimp only
  split <;> trivial

/-- The functions that count in whole numbers a script gives them. -/
def countingFunctions : List String :=
  ["dateserial", "timeserial", "dateadd", "monthname", "weekdayname", "mid", "instr", "instrrev",
    "replace", "split"]

theorem faultsIf_countingFunctions (args : List Value) (m : Machine) :
    ∀ name ∈ countingFunctions, FaultsIf (Underflows name args) (call? name args) m := by
  rw [countingFunctions]
  simp only [List.forall_mem_cons]
  exact ⟨faultsIf_dateSerial args m, faultsIf_of_visible rfl visible_timeSerial (by decide) args m,
    faultsIf_of_visible rfl visible_dateAdd (by decide) args m, faultsIf_monthName args m,
    faultsIf_of_visible rfl visible_weekdayName (by decide) args m,
    faultsIf_of_visible rfl visible_mid (by decide) args m,
    faultsIf_of_visible rfl visible_inStr (by decide) args m,
    faultsIf_of_visible rfl visible_inStrRev (by decide) args m,
    faultsIf_of_visible rfl visible_replace (by decide) args m, faultsIf_split args m,
    List.forall_mem_nil _⟩

end Function

/-- A word that is counted from one is a fault only if it is the smallest one: as the position of an
item or of a key, as the month whose name is asked for, or as the month or the day of a serial that
gets as far as that. Any other call has a result or an error of the script, and at a position that
no item has there is the empty value. -/
theorem faults_only_at_smallest_word (args : List Value) (m : Machine) :
    (∀ name ∈ Function.countingFunctions,
      FaultsIf (Function.Underflows name args) (Function.call? name args) m) ∧
    (∀ name, Members.AsksForItem name args →
      LooksUp (Value.arg args 0).isPosition (Value.arg args 0).toWord
        (m.site.session.getD { id := "" }).contents.items (Members.session.call name args) m ∧
      LooksUp (Value.arg args 0).isPosition (Value.arg args 0).toWord
        m.site.application.contents.items (Members.application.call name args) m) ∧
    ∀ c : Collection,
      (∀ name ∈ ["item", ""], LooksUp (Value.arg args 0).isPosition (Value.arg args 0).toWord
        (textItems c.texts) ((Members.collection c).call name args) m) ∧
      LooksUp True (Value.arg args 0).toWord (textItems c.keys)
        ((Members.collection c).call "key" args) m := by
  refine ⟨Function.faultsIf_countingFunctions args m, fun name asks =>
    ⟨Members.looksUp_session asks m, Members.looksUp_application asks m⟩, fun c => ⟨?_, ?_⟩⟩
  · exact List.forall_mem_cons.mpr ⟨c.looksUp_item _ m, List.forall_mem_singleton.mpr
      (c.looksUp_item _ m)⟩
  · exact c.looksUp_keyAt _ m

def visitedOnce : Machine :=
  { site := { session := some { id := "s", contents := ⟨[("visits", .integer 1)]⟩ } } }

theorem first_visit_read :
    Members.AsksForItem "item" [.integer 1] ∧
      (Members.session.call "item" [.integer 1]).exec visitedOnce = (.ok (.integer 1), visitedOnce) := by
  have asks : Members.AsksForItem "item" [.integer 1] := .inl rfl
  have looks := ((faults_only_at_smallest_word [.integer 1] visitedOnce).2.1 "item" asks).1
  exact ⟨asks, looks.inside rfl 0 (by decide) rfl⟩

/-- The smallest word lies at no position, but it is not empty. -/
theorem smallest_word_is_not_empty :
    (Members.session.call "item" [.integer .minValue]).exec visitedOnce =
        (.error (.fault .subtractOverflow), visitedOnce) ∧
      (Members.session.call "item" [.integer (.minValue + 1)]).exec visitedOnce =
        (.ok .empty, visitedOnce) := ⟨rfl, rfl⟩

end ServerScript
