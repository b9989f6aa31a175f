import ServerScript.Member.Application
import ServerScript.Proofs.ArrayBuilding
import ServerScript.Proofs.Computation

/-! Values that are kept between requests. A shared value describes a value of a store: the same
scalars, and arrays with the same bounds whose elements are described in their order. Every value
whose arrays come to an end is described by one shared value, unless there is something in it that
cannot be shared; what is read back from a shared value is described by it again. -/
namespace ServerScript

open Relation

/-- No request can leave an object, a declaration or the missing object to another one. -/
def Value.Unshareable : Value → Prop
  | .nothing | .object _ | .inst .. | .callable .. => True
  | _ => False

theorem mapM_cases {f : α → Except ε β} {e : ε} {P : β → α → Prop} {Q : α → Prop}
    {items : List α}
    (one : ∀ a ∈ items, (∃ b, f a = .ok b ∧ P b a) ∨ f a = .error e ∧ Q a) :
    (∃ results, items.mapM f = .ok results ∧ List.Forall₂ P results items) ∨
      items.mapM f = .error e ∧ ∃ a ∈ items, Q a := by
  induction items with
  | nil => exact .inl ⟨[], rfl, .nil⟩
  | cons a rest ih =>
    rw [List.mapM_cons]
    rcases one a List.mem_cons_self with ⟨b, first, holds⟩ | ⟨first, fails⟩
    · rw [first]
      rcases ih fun b member => one b (List.mem_cons_of_mem a member) with
        ⟨results, others, all⟩ | ⟨others, culprit, member, fails⟩
      · rw [others]
        exact .inl ⟨b :: results, rfl, .cons holds all⟩
      · rw [others]
        exact .inr ⟨rfl, culprit, List.mem_cons_of_mem a member, fails⟩
    · rw [first]
      exact .inr ⟨rfl, a, List.mem_cons_self, fails⟩

namespace Heap

/-- A value and what is inside of it, at any depth of nested arrays. -/
inductive Contains (h : Heap) : Value → Value → Prop where
  | self (v) : Contains h v v
  | element {c a w x} (found : h.array? c = some a) (member : w ∈ a.items)
      (inner : Contains h w x) : Contains h (.array c) x

/-- A value whose arrays exist and do not contain themselves: it unfolds to a finite tree. -/
inductive Unfolds (h : Heap) : Value → Prop where
  | array {c a} (found : h.array? c = some a) (items : ∀ v ∈ a.items, Unfolds h v) :
      Unfolds h (.array c)
  | other {v} (none : ∀ c, v ≠ .array c) : Unfolds h v

variable {h g g' : Heap} {v w : Value} {c d : Nat}

theorem Acyclic.unfolds (acyclic : h.Acyclic) (closed : h.Closed)
    (valid : v.Within 0 h.arrays.size) : h.Unfolds v := by
  have cells : ∀ c, c < h.arrays.size → h.Unfolds (.array c) := by
    intro c
    induction c using (acyclic.founded closed).induction with
    | _ c ih =>
      intro bound
      obtain ⟨a, found⟩ := exists_array? bound
      refine .array found fun v member => ?_
      cases v with
      | array d => exact ih d ⟨a, found, member⟩ (closed c d ⟨a, found, member⟩)
      | _ => exact .other nofun
  cases v with
  | array c => exact cells c valid.2
  | _ => exact .other nofun

namespace Unfolds

theorem reaches (unfolds : h.Unfolds (.array c)) (path : ReflTransGen h.Element c d) :
    h.Unfolds (.array d) := by
  induction path with
  | refl => exact unfolds
  | tail _ element ih =>
    obtain ⟨a, found, member⟩ := element
    cases ih with
    | array known items =>
      obtain rfl := Option.some.inj (found.symm.trans known)
      exact items _ member
    | other none => exact absurd rfl (none _)

theorem not_inside_itself (unfolds : h.Unfolds (.array c)) : ¬TransGen h.Element c c := by
  generalize same : Value.array c = v at unfolds
  induction unfolds generalizing c with
  | array found items ih =>
    obtain rfl := Value.array.inj same
    intro cycle
    obtain ⟨d, ⟨a, known, member⟩, back⟩ := TransGen.head'_iff.mp cycle
    obtain rfl := Option.some.inj (found.symm.trans known)
    exact ih _ member rfl (TransGen.tail' back ⟨_, found, member⟩)
  | other none => exact absurd same.symm (none c)

theorem nestsWithin (unfolds : h.Unfolds v) : h.NestsWithin h.arrays.size v := by
  by_contra deep
  obtain ⟨c, rest, rfl, length, chain, bounded⟩ := exists_path _ deep
  have later : (c :: rest).Pairwise (TransGen h.Element) :=
    List.isChain_iff_pairwise.mp (chain.imp fun _ _ => TransGen.single)
  have few := length_le_of_isChain chain bounded fun d member => by
    rcases List.mem_cons.mp member with rfl | member
    · exact unfolds.not_inside_itself
    · have path := List.rel_of_pairwise_cons later member
      exact (unfolds.reaches path.to_reflTransGen).not_inside_itself
  rw [List.length_cons, length] at few
  omega

end Unfolds

theorem Builds.contains_new (builds : h.Builds g) (within : v.Within h.arrays.size g.arrays.size)
    (contains : g.Contains v (.array c)) : h.arrays.size ≤ c := by
  generalize same : Value.array c = x at contains
  induction contains with
  | self v =>
    rw [← same] at within
    exact within.1
  | @element outer a w x found member inner ih =>
    refine ih ?_ same
    cases w with
    | array d =>
      have element : g.Element outer d := ⟨a, found, member⟩
      obtain ⟨low, high⟩ := builds.new outer d within.1 element
      exact ⟨low, Nat.lt_trans high within.2⟩
    | _ => trivial

end Heap

namespace SharedValue

/-- A shared value says what a value of a store is. -/
inductive Describes (h : Heap) : SharedValue → Value → Prop where
  | empty : Describes h .empty .empty
  | null : Describes h .null .null
  | bool (b) : Describes h (.bool b) (.bool b)
  | integer (n) : Describes h (.integer n) (.integer n)
  | float (x) : Describes h (.float x) (.float x)
  | string (s) : Describes h (.string s) (.string s)
  | array {c a items} (found : h.array? c = some a) (size : items.length = a.items.size)
      (each : ∀ (i : Nat) s v, items[i]? = some s → a.items[i]? = some v → Describes h s v) :
      Describes h (.array a.lower items) (.array c)

variable {h g : Heap} {s t : SharedValue} {v w : Value} {depth : Nat}

namespace Describes

theorem of_forall₂ {c : Nat} {a : ArrayCell} {items : List SharedValue}
    (found : h.array? c = some a) (all : List.Forall₂ (Describes h) items a.items.toList) :
    Describes h (.array a.lower items) (.array c) := by
  refine .array found (by rw [all.length_eq, Array.length_toList]) fun i s v first second => ?_
  rw [← Array.getElem?_toList] at second
  exact Heap.getElem?_of_forall₂ all first second

theorem keeps (describes : Describes h s v) (keeps : h.Keeps g) : Describes g s v := by
  induction describes with
  | array found size _ ih => exact .array (keeps.array? found) size ih
  | _ => constructor

theorem unfolds (describes : Describes h s v) : h.Unfolds v := by
  induction describes with
  | @array c a items found size each ih =>
    refine .array found fun v member => ?_
    obtain ⟨i, bound, rfl⟩ := Array.getElem_of_mem member
    have described := List.getElem?_eq_getElem (size ▸ bound)
    exact ih i items[i] _ described (Array.getElem?_eq_getElem bound)
  | _ => exact .other nofun

theorem unique (first : Describes h s v) (second : Describes h t v) : s = t := by
  induction first generalizing t with
  | @array c a items found size each ih =>
    cases second with
    | @array _ a' items' found' size' each' =>
      obtain rfl := Option.some.inj (found.symm.trans found')
      congr 1
      refine List.ext_getElem (size.trans size'.symm) fun i bound bound' => ?_
      have element := Array.getElem?_eq_getElem (size ▸ bound)
      exact ih i _ _ (List.getElem?_eq_getElem bound) element
        (each' i _ _ (List.getElem?_eq_getElem bound') element)
  | _ => cases second; rfl

theorem shareable (describes : Describes h s v) (contains : h.Contains v w) :
    ¬w.Unshareable := by
  induction describes generalizing w with
  | @array c a items found size each ih =>
    cases contains with
    | self => exact id
    | element found' member inner =>
      obtain rfl := Option.some.inj (found.symm.trans found')
      obtain ⟨i, bound, rfl⟩ := Array.getElem_of_mem member
      exact ih i items[i] _ (List.getElem?_eq_getElem (size ▸ bound))
        (Array.getElem?_eq_getElem bound) inner
  | _ => cases contains; exact id

theorem mirrors (first : Describes h s v) (second : Describes g s w) : h.Mirrors g v w := by
  induction first generalizing w with
  | @array c a items found size each ih =>
    generalize same : a.lower = lower at second
    cases second with
    | array found' size' each' =>
      refine .array found found' same.symm (size'.symm.trans size) fun i v v' there there' => ?_
      have bound : i < items.length := size ▸ (Array.getElem?_eq_some_iff.mp there).1
      have element := List.getElem?_eq_getElem bound
      exact ih i _ _ element there (each' i _ _ element there')
  | _ => cases second; exact .other nofun

end Describes

mutual

theorem describes_toValue (h : Heap) : ∀ s : SharedValue,
    Describes (toValue h s).1 s (toValue h s).2
  | .empty | .null | .bool _ | .integer _ | .float _ | .string _ => by
    simp only [toValue]
    constructor
  | .array lower items => by
    simp only [toValue]
    obtain ⟨values, same, -, all⟩ := describes_toValues h items #[]
    have keeps := Heap.keeps_allocArray (toValues h items #[]).1 ⟨lower, (toValues h items #[]).2⟩
    have elements : (toValues h items #[]).2.toList = values := by simp [same]
    refine .of_forall₂ ((Heap.array?_allocArray _ _ _).trans (if_pos rfl)) ?_
    rw [elements]
    exact all.imp fun _ _ describes => describes.keeps keeps

theorem describes_toValues (h : Heap) : ∀ (items : List SharedValue) (acc : Array Value),
    ∃ values : List Value, (toValues h items acc).2 = acc ++ values ∧
      h.Keeps (toValues h items acc).1 ∧
      List.Forall₂ (Describes (toValues h items acc).1) items values
  | [], acc => ⟨[], by simp [toValues], .refl h, .nil⟩
  | item :: rest, acc => by
    simp only [toValues]
    obtain ⟨values, same, keeps, all⟩ := describes_toValues (toValue h item).1 rest
      (acc.push (toValue h item).2)
    exact ⟨(toValue h item).2 :: values, by simp [same],
      (Heap.builds_toValue h item).1.toKeeps.trans keeps,
      .cons ((describes_toValue h item).keeps keeps) all⟩

end

/-- To a depth that is enough, a value has a shared form that describes it, or there is something
in it that cannot be shared. -/
theorem ofValueDeep_cases (unfolds : h.Unfolds v) (nests : h.NestsWithin depth v) :
    (∃ s, ofValueDeep h (depth + 1) v = .ok s ∧ Describes h s v) ∨
      ofValueDeep h (depth + 1) v = .error .notShareable ∧
        ∃ w, h.Contains v w ∧ w.Unshareable := by
  induction unfolds generalizing depth with
  | @array c a found items ih =>
    cases depth with
    | zero =>
      rw [nests c rfl] at found
      cases found
    | succ depth =>
      have one : ∀ v ∈ a.items.toList, _ := fun v member =>
        have member := Array.mem_toList_iff.mp member
        ih v member (nests c a rfl found v member)
      rw [ofValueDeep, found, Option.getD_some]
      rcases mapM_cases one with ⟨results, done, all⟩ | ⟨failed, v, member, w, contains, refused⟩
      · rw [done]
        exact .inl ⟨_, rfl, .of_forall₂ found all⟩
      · rw [failed]
        exact .inr ⟨rfl, w, .element found (Array.mem_toList_iff.mp member) contains, refused⟩
  | @other v none =>
    cases v with
    | array c => exact absurd rfl (none c)
    | nothing | object _ | inst _ _ | callable _ _ => exact .inr ⟨rfl, _, .self _, trivial⟩
    | _ => exact .inl ⟨_, rfl, by constructor⟩

theorem ofValue_cases (unfolds : h.Unfolds v) :
    (∃ s, ofValue h v = .ok s ∧ Describes h s v) ∨
      ofValue h v = .error .notShareable ∧ ∃ w, h.Contains v w ∧ w.Unshareable :=
  ofValueDeep_cases unfolds unfolds.nestsWithin

theorem ofValue_eq_ok_iff (unfolds : h.Unfolds v) : ofValue h v = .ok s ↔ Describes h s v := by
  rcases ofValue_cases unfolds with ⟨t, done, describes⟩ | ⟨failed, w, contains, refused⟩
  · rw [done]
    refine ⟨fun same => Except.ok.inj same ▸ describes, fun other => ?_⟩
    rw [describes.unique other]
  · rw [failed]
    exact ⟨nofun, fun describes => absurd refused (describes.shareable contains)⟩

theorem ofValue_eq_error_iff (unfolds : h.Unfolds v) :
    ofValue h v = .error .notShareable ↔ ∃ w, h.Contains v w ∧ w.Unshareable := by
  rcases ofValue_cases unfolds with ⟨t, done, describes⟩ | ⟨failed, culprit⟩
  · rw [done]
    exact ⟨nofun, fun ⟨w, contains, refused⟩ => absurd refused (describes.shareable contains)⟩
  · exact ⟨fun _ => culprit, fun _ => failed⟩

/-- What was stored as a value of one store is read into another one: the same scalars, bounds and
elements at every depth, in cells that were not there before, which leave those that were there as
they are. -/
structure ReadsAs (s : SharedValue) (h : Heap) (v : Value) (g : Heap) : Prop where
  mirrors : h.Mirrors (s.toValue g).1 v (s.toValue g).2
  keeps : g.Keeps (s.toValue g).1
  fresh : ∀ c, (s.toValue g).1.Contains (s.toValue g).2 (.array c) → g.arrays.size ≤ c

theorem Describes.readsAs (describes : Describes h s v) (g : Heap) : s.ReadsAs h v g := by
  obtain ⟨builds, within⟩ := Heap.builds_toValue g s
  exact ⟨describes.mirrors (describes_toValue g s), builds.toKeeps, fun c =>
    builds.contains_new within⟩

theorem ofValue_toValue (h : Heap) (s : SharedValue) :
    ofValue (s.toValue h).1 (s.toValue h).2 = .ok s := by
  have describes := describes_toValue h s
  exact (ofValue_eq_ok_iff describes.unfolds).mpr describes

end SharedValue

namespace Members

theorem exec_toShared (v : Value) (m : Machine) :
    (toShared v).exec m = ((SharedValue.ofValue m.heap v).mapError .error, m) := by
  rw [toShared, Run.exec_get_bind]
  cases SharedValue.ofValue m.heap v <;> rfl

theorem exec_toShared_bind_iff {keep : SharedValue → Run Unit}
    (keeps : ∀ s m, ((keep s).exec m).1 ≠ .error (.error .notShareable)) (v : Value)
    (m m' : Machine) :
    (toShared v >>= keep).exec m = (.error (.error .notShareable), m') ↔
      SharedValue.ofValue m.heap v = .error .notShareable ∧ m' = m := by
  have shared := exec_toShared v m
  cases found : SharedValue.ofValue m.heap v with
  | ok s =>
    rw [found] at shared
    rw [Run.exec_bind_ok shared]
    exact ⟨fun failed => absurd (congrArg Prod.fst failed) (keeps s m), nofun⟩
  | error e =>
    rw [found] at shared
    rw [Run.exec_bind_error shared, Prod.mk.injEq, eq_comm (b := m')]
    simp

theorem exec_onApplication_ne {change : ApplicationStore → Except EvalError ApplicationStore}
    (reasons : ∀ s, change s ≠ .error .notShareable) (m : Machine) :
    ((Run.onApplication change).exec m).1 ≠ .error (.error .notShareable) := by
  rw [Run.onApplication, Run.exec_get_bind]
  cases m.control.deadlineExists with
  | false => exact nofun
  | true =>
    have reason := reasons m.site.application
    simp only [Bool.not_true, Bool.false_eq_true, if_false]
    cases ends : change m.site.application with
    | ok s => exact nofun
    | error e =>
      rw [ends] at reason
      exact fun same => reason (congrArg Except.error (Stop.error.inj (Except.error.inj same)))

theorem exec_writeItem_iff {store : Members} (member : store ∈ [session, application])
    (args : List Value) (v : Value) (m m' : Machine) :
    (store.writeItem args v).exec m = (.error (.error .notShareable), m') ↔
      SharedValue.ofValue m.heap v = .error .notShareable ∧ m' = m := by
  rcases List.mem_pair.mp member with rfl | rfl
  · refine exec_toShared_bind_iff (fun s m => ?_) v m m'
    exact nofun
  · refine exec_toShared_bind_iff (fun s m => ?_) v m m'
    rw [Run.exec_get_bind]
    refine exec_onApplication_ne (fun application => ?_) m
    rw [ApplicationStore.set, ApplicationStore.onTurn]
    split <;> exact nofun

end Members

/-- Shared values lose nothing, refuse exactly what cannot be shared, and a store that refuses a
value is left as it was. -/
theorem shared_values_round_trip :
    (∀ (h : Heap) (s : SharedValue), SharedValue.ofValue (s.toValue h).1 (s.toValue h).2 = .ok s) ∧
    (∀ (h : Heap) (v : Value), h.Unfolds v →
      (SharedValue.ofValue h v = .error .notShareable ↔ ∃ w, h.Contains v w ∧ w.Unshareable) ∧
      (SharedValue.ofValue h v ≠ .error .notShareable → ∃ s, SharedValue.ofValue h v = .ok s ∧
        ∀ g : Heap, s.ReadsAs h v g)) ∧
    ∀ store ∈ [Members.session, Members.application], ∀ args v m m',
      (store.writeItem args v).exec m = (.error (.error .notShareable), m') ↔
        SharedValue.ofValue m.heap v = .error .notShareable ∧ m' = m := by
  refine ⟨SharedValue.ofValue_toValue, fun h v unfolds =>
    ⟨SharedValue.ofValue_eq_error_iff unfolds, fun accepted => ?_⟩,
    fun store member => Members.exec_writeItem_iff member⟩
  rcases SharedValue.ofValue_cases unfolds with ⟨s, done, describes⟩ | ⟨failed, -⟩
  · exact ⟨s, done, describes.readsAs⟩
  · exact absurd failed accepted

/-- An array with a text, in one array beside a number and in another one beside the missing
object. -/
def Heap.nested : Heap where
  arrays := #[⟨1, #[.string "x"]⟩, ⟨0, #[.array 0, .integer 5]⟩, ⟨0, #[.array 0, .nothing]⟩]

theorem Heap.unfolds_nested : nested.Unfolds (.array 1) ∧ nested.Unfolds (.array 2) := by
  have inner : nested.Unfolds (.array 0) := .array (a := ⟨1, #[.string "x"]⟩) rfl fun v member => by
    obtain rfl := List.mem_singleton.mp (Array.mem_toList_iff.mpr member)
    exact .other nofun
  have outer : ∀ (c : Nat) (last : Value), nested.array? c = some ⟨0, #[.array 0, last]⟩ →
      (∀ c, last ≠ .array c) → nested.Unfolds (.array c) := by
    refine fun c last found none => .array found fun v member => ?_
    rcases List.mem_pair.mp (Array.mem_toList_iff.mpr member) with rfl | rfl
    · exact inner
    · exact .other none
  exact ⟨outer 1 (.integer 5) rfl nofun, outer 2 .nothing rfl nofun⟩

theorem shared_values_round_trip_nested :
    SharedValue.ofValue Heap.nested (.array 1) =
        .ok (.array 0 [.array 1 [.string "x"], .integer 5]) ∧
    (∃ s, SharedValue.ofValue Heap.nested (.array 1) = .ok s ∧
      ∀ g : Heap, s.ReadsAs Heap.nested (.array 1) g) ∧
    SharedValue.ofValue Heap.nested (.array 2) = .error .notShareable ∧
    (Members.session.writeItem [.string "k"] (.array 2)).exec { heap := Heap.nested } =
      (.error (.error .notShareable), { heap := Heap.nested }) := by
  obtain ⟨-, values, stores⟩ := shared_values_round_trip
  obtain ⟨good, bad⟩ := Heap.unfolds_nested
  have accepted : SharedValue.ofValue Heap.nested (.array 1) =
      .ok (.array 0 [.array 1 [.string "x"], .integer 5]) := by rfl
  have culprit : ∃ w, Heap.nested.Contains (.array 2) w ∧ w.Unshareable :=
    ⟨.nothing, .element rfl (Array.mem_of_getElem? (i := 1) rfl) (.self _), trivial⟩
  have refused := (values Heap.nested (.array 2) bad).1.mpr culprit
  refine ⟨accepted, (values _ _ good).2 (by rw [accepted]; exact nofun), refused, ?_⟩
  exact (stores _ List.mem_cons_self _ _ _ _).mpr ⟨refused, rfl⟩

end ServerScript
