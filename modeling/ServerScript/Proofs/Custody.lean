import ServerScript.Proofs.ArraySharing
import ServerScript.Proofs.Answers
import ServerScript.Proofs.Names

/-! Arrays in custody. An assignment copies an array before it evaluates its target, and while it
does so the copy belongs to nobody: no variable, field, constant or dictionary leads to it. Such
cells are set aside together with their contents. A state secures them if everything else that it
holds keeps clear of them; its arrays are then free of cycles, and what is set aside can be put
into any array of the state without closing a cycle. Pairs of arrays may be kept apart besides:
they do not come to share, since what an array gets is set aside, new or inside of it anyway. -/
namespace ServerScript

open Relation

/-- The cells that are set aside, with their contents, while certain arrays are kept apart. -/
def Reserve (_ : Nat → Nat → Prop) : Type := Nat → Option ArrayCell

def Reserve.nothing (A : Nat → Nat → Prop) : Reserve A := fun _ => none

section

variable {A : Nat → Nat → Prop}

/-- A value that may be used: an array that exists and is not set aside, or no array. -/
def Value.Usable (R : Reserve A) (n : Nat) : Value → Prop
  | .array c => c < n ∧ R c = none
  | _ => True

/-- A cell that is set aside by one reserve and not by another. -/
def Reserve.Adds (R R' : Reserve A) (c : Nat) : Prop := R c = none ∧ R' c ≠ none

def Value.Owned (R R' : Reserve A) : Value → Prop
  | .array c => R.Adds R' c
  | _ => True

/-- A reserve with more cells. Those that were added have only each other as elements, and those
from before have none of them; nor were they kept apart from others. -/
structure Reserve.Extends (R R' : Reserve A) : Prop where
  keeps : ∀ c a, R c = some a → R' c = some a
  closed : ∀ c a, R c = none → R' c = some a → ∀ v ∈ a.items, v.Owned R R'
  clear : ∀ c a d, R c = some a → .array d ∈ a.items → ¬R.Adds R' d
  other : ∀ a b, A a b → ¬R.Adds R' a ∧ ¬R.Adds R' b

end

variable {A : Nat → Nat → Prop} {R R' : Reserve A} {n k : Nat} {v : Value}

theorem Reserve.Extends.refl (R : Reserve A) : R.Extends R := by
  refine ⟨fun _ _ => id, fun c d absent there => ?_, fun _ _ _ _ _ added => added.2 added.1,
    fun _ _ _ => ⟨fun added => added.2 added.1, fun added => added.2 added.1⟩⟩
  exact absurd (absent.symm.trans there) nofun

theorem Reserve.Extends.absent (more : R.Extends R') {c : Nat} (absent : R' c = none) :
    R c = none := by
  cases there : R c with
  | none => rfl
  | some a => rw [more.keeps c a there] at absent; cases absent

namespace Value

theorem Usable.mono (usable : v.Usable R n) (le : n ≤ k) : v.Usable R k := by
  cases v with
  | array c => exact ⟨Nat.lt_of_lt_of_le usable.1 le, usable.2⟩
  | _ => trivial

theorem Usable.release (usable : v.Usable R' n) (more : R.Extends R') : v.Usable R n := by
  cases v with
  | array c => exact ⟨usable.1, more.absent usable.2⟩
  | _ => trivial

theorem Simple.within {low high : Nat} (simple : v.Simple) : v.Within low high := by
  cases v with
  | array c => exact simple.elim
  | _ => trivial

theorem Simple.usable (simple : v.Simple) : v.Usable R n := by
  cases v with
  | array c => exact simple.elim
  | _ => trivial

theorem owned_of_isObject (object : v.isObject) : v.Owned R R' := by
  cases v with
  | array c => cases object
  | _ => trivial

end Value

/-- All fields of instances, and all keys and items of dictionaries, which find their entries. -/
structure Heap.AllObjects (P : Value → Prop) (h : Heap) : Prop where
  fields : ∀ c content, h.instance? c = some content → Frame.All P content.fields
  dictionaries : ∀ (c : Nat) (d : Dictionary), h.dictionaries[c]? = some d → d.All P ∧ d.Indexed

def Heap.KeepsApart (h : Heap) (apart : Nat → Nat → Prop) : Prop :=
  ∀ a b, apart a b → a < h.arrays.size ∧ b < h.arrays.size ∧ ¬h.Shares a b

structure Heap.Secures (R : Reserve A) (h : Heap) : Prop where
  kept : ∀ c a, R c = some a → h.array? c = some a
  items : ∀ c a, h.array? c = some a → R c = none → ∀ v ∈ a.items, v.Usable R h.arrays.size
  closed : h.Closed
  founded : h.Founded
  apart : h.KeepsApart A
  objects : h.AllObjects (Value.Usable R h.arrays.size)

/-- A function that makes up no array: one that it answers with was among its arguments. -/
def Native.Honest (f : Native) : Prop :=
  ∀ args c, f.run args = .ok (.array c) → .array c ∈ args

structure Machine.Secures (R : Reserve A) (m : Machine) : Prop where
  heap : m.heap.Secures R
  scopes : m.scopes.All (Value.Usable R m.heap.arrays.size)
  withStack : ∀ v ∈ m.withStack, v.Usable R m.heap.arrays.size
  natives : ∀ f ∈ m.natives, f.Honest

section

variable {P P' : Value → Prop}

namespace Heap.AllObjects

variable {h : Heap}

theorem imp (all : h.AllObjects P) (implies : ∀ v, P v → P' v) : h.AllObjects P' := by
  refine ⟨fun c content found => (all.fields c content found).imp implies, fun c d found => ?_⟩
  refine (all.dictionaries c d found).imp_left fun items e member => ?_
  exact (items e member).imp (implies _) (implies _)

theorem field {cell : Nat} {name : Name} (all : h.AllObjects P)
    (found : h.field? cell name = some v) : P v := by
  obtain ⟨content, known, found⟩ := Option.bind_eq_some_iff.mp found
  exact (all.fields cell content known).lookup found

theorem dictionary (all : h.AllObjects P) (cell : Nat) :
    (h.dictionary cell).All P ∧ (h.dictionary cell).Indexed := by
  rw [Heap.dictionary]
  cases found : h.dictionaries[cell]? with
  | none => exact ⟨Dictionary.all_clear {}, Dictionary.indexed_clear {}⟩
  | some d => exact all.dictionaries cell d found

theorem modifyInstance (all : h.AllObjects P) (cell : Nat) {change : InstanceCell → InstanceCell}
    (keeps : ∀ c, Frame.All P c.fields → Frame.All P (change c).fields) :
    (h.modifyInstance cell change).AllObjects P := by
  refine ⟨fun other c found => ?_, all.dictionaries⟩
  simp only [instance?, Heap.modifyInstance, Array.getElem?_modify] at found
  split at found
  · obtain ⟨c, known, rfl⟩ := Option.map_eq_some_iff.mp found
    exact keeps c (all.fields _ c known)
  · exact all.fields other c found

theorem setField (all : h.AllObjects P) (cell : Nat) (name : Name) (value : P v) :
    (h.setField cell name v).AllObjects P := by
  rw [Heap.setField]
  split
  · exact all.modifyInstance cell fun _ fields => fields.put value
  · exact all

theorem allocInstance (all : h.AllObjects P) {content : InstanceCell}
    (fields : Frame.All P content.fields) : (h.allocInstance content).1.AllObjects P := by
  refine ⟨fun cell c found => ?_, all.dictionaries⟩
  simp only [instance?, Heap.allocInstance, Array.getElem?_push] at found
  split at found
  · exact Option.some.inj found ▸ fields
  · exact all.fields cell c found

theorem allocDictionary (all : h.AllObjects P) : h.allocDictionary.1.AllObjects P := by
  refine ⟨all.fields, fun cell d found => ?_⟩
  simp only [Heap.allocDictionary, Array.getElem?_push] at found
  split at found
  · obtain rfl := Option.some.inj found
    exact ⟨Dictionary.all_clear {}, Dictionary.indexed_clear {}⟩
  · exact all.dictionaries cell d found

theorem modifyDictionary (all : h.AllObjects P) (cell : Nat) {change : Dictionary → Dictionary}
    (keeps : ∀ d, d.All P → (change d).All P) (indexes : ∀ d, d.Indexed → (change d).Indexed) :
    (h.modifyDictionary cell change).AllObjects P := by
  refine ⟨all.fields, fun other d found => ?_⟩
  simp only [Heap.modifyDictionary, Array.getElem?_modify] at found
  split at found
  · obtain ⟨d, known, rfl⟩ := Option.map_eq_some_iff.mp found
    exact (all.dictionaries _ d known).imp (keeps d) (indexes d)
  · exact all.dictionaries other d found

end Heap.AllObjects

end

namespace Heap

variable {h h' : Heap}

theorem Secures.free (secures : h.Secures R) {c : Nat} (large : h.arrays.size ≤ c) :
    R c = none := by
  cases there : R c with
  | none => rfl
  | some a => exact absurd (lt_size_of_array? (secures.kept c a there)) (Nat.not_lt_of_le large)

theorem Secures.usable_of_within (secures : h.Secures R) (within : v.Within h.arrays.size n) :
    v.Usable R n := by
  cases v with
  | array c => exact ⟨within.2, secures.free within.1⟩
  | _ => trivial

theorem KeepsApart.evolves {S : Nat → Prop} {apart : Nat → Nat → Prop} (keeps : h.KeepsApart apart)
    (evolves : h.Evolves S h') (other : ∀ a b, apart a b → ¬S a ∧ ¬S b) : h'.KeepsApart apart := by
  intro a b pair
  obtain ⟨small, small', alone⟩ := keeps a b pair
  obtain ⟨out, out'⟩ := other a b pair
  exact ⟨Nat.lt_of_lt_of_le small evolves.size, Nat.lt_of_lt_of_le small' evolves.size,
    fun shares => alone (evolves.shares a b small small' out out' shares)⟩

theorem KeepsApart.stays {apart : Nat → Nat → Prop} (keeps : h.KeepsApart apart)
    (evolves : h.Evolves (fun _ => False) h') : h'.KeepsApart apart :=
  keeps.evolves evolves fun _ _ _ => ⟨id, id⟩

theorem Secures.ofObjects (secures : h.Secures R) (same : h'.arrays = h.arrays)
    (objects : h'.AllObjects (Value.Usable R h.arrays.size)) : h'.Secures R := by
  have arrays : h'.array? = h.array? := by
    funext c
    rw [Heap.array?, same, Heap.array?]
  have element : h'.Element = h.Element := by
    funext c d
    rw [Element, arrays, Element]
  refine ⟨?_, ?_, ?_, ?_, ?_, same ▸ objects⟩
  · rw [arrays]
    exact secures.kept
  · rw [arrays, same]
    exact secures.items
  · rw [Closed, element, same]
    exact secures.closed
  · rw [Founded, element]
    exact secures.founded
  · exact secures.apart.stays (.ofArrays same)

theorem Secures.release (secures : h.Secures R') (more : R.Extends R') : h.Secures R := by
  refine ⟨fun c a there => secures.kept c a (more.keeps c a there), fun c a found absent => ?_,
    secures.closed, secures.founded, secures.apart,
    secures.objects.imp fun v usable => usable.release more⟩
  intro v member
  cases there : R' c with
  | none => exact (secures.items c a found there v member).release more
  | some b =>
    obtain rfl : a = b := Option.some.inj (found.symm.trans (secures.kept c b there))
    have owned := more.closed c a absent there v member
    cases v with
    | array d => exact ⟨secures.closed c d ⟨a, found, member⟩, owned.1⟩
    | _ => trivial

theorem Secures.usable_of_owned (secures : h.Secures R') (owned : v.Owned R R') :
    v.Usable R h.arrays.size := by
  cases v with
  | array c =>
    obtain ⟨a, there⟩ := Option.ne_none_iff_exists'.mp owned.2
    exact ⟨lt_size_of_array? (secures.kept c a there), owned.1⟩
  | _ => trivial

theorem Secures.keeps (secures : h.Secures R) (keeps : h.Keeps h') (founded : h'.Founded)
    (new : ∀ c a, h.arrays.size ≤ c → h'.array? c = some a → ∀ v ∈ a.items,
      v.Usable R h'.arrays.size) : h'.Secures R := by
  have items : ∀ c a, h'.array? c = some a → R c = none → ∀ v ∈ a.items,
      v.Usable R h'.arrays.size := by
    intro c a found absent v member
    by_cases small : c < h.arrays.size
    · rw [keeps.old c small] at found
      exact (secures.items c a found absent v member).mono keeps.size
    · exact new c a (Nat.le_of_not_lt small) found v member
  refine ⟨fun c a there => keeps.array? (secures.kept c a there), items, fun c d element => ?_,
    founded, ?_, ?_⟩
  · by_cases small : c < h.arrays.size
    · exact Nat.lt_of_lt_of_le (secures.closed c d (keeps.element_of_lt small element)) keeps.size
    · obtain ⟨a, found, member⟩ := element
      exact (new c a (Nat.le_of_not_lt small) found _ member).1
  · exact secures.apart.stays (evolves_of_old keeps.size keeps.old secures.closed)
  · have objects := secures.objects.imp fun v (usable : v.Usable R _) => usable.mono keeps.size
    rw [keeps.rest]
    exact ⟨objects.fields, objects.dictionaries⟩

theorem Secures.builds (secures : h.Secures R) (builds : h.Builds h') : h'.Secures R := by
  refine secures.keeps builds.toKeeps (builds.founded secures.founded secures.closed)
    fun c a large found v member => ?_
  cases v with
  | array d =>
    obtain ⟨low, high⟩ := builds.new c d large ⟨a, found, member⟩
    exact ⟨Nat.lt_trans high (lt_size_of_array? found), secures.free low⟩
  | _ => trivial

theorem Secures.allocArray (secures : h.Secures R) {a : ArrayCell}
    (items : ∀ v ∈ a.items, v.Usable R h.arrays.size) : (h.allocArray a).1.Secures R := by
  have keeps := keeps_allocArray h a
  refine secures.keeps keeps ?_ fun c b large found v member => ?_
  · refine secures.founded.extend h.arrays.size
      (fun _ _ small => keeps.element_of_lt small) (fun c d large element => ?_) secures.closed
    rcases element_allocArray element with element | ⟨rfl, member⟩
    · exact absurd element.lt_size (Nat.not_lt_of_le large)
    · exact (items _ member).1
  · rw [array?_allocArray] at found
    split at found
    · exact (items v (Option.some.inj found ▸ member)).mono keeps.size
    · exact absurd (lt_size_of_array? found) (Nat.not_lt_of_le large)

theorem Secures.setArray (secures : h.Secures R) {target : Nat} {a : ArrayCell}
    (absent : R target = none) (items : ∀ v ∈ a.items, v.Usable R h.arrays.size)
    (founded : (h.setArray target a).Founded) (apart : (h.setArray target a).KeepsApart A) :
    (h.setArray target a).Secures R := by
  have kept : ∀ c, R c ≠ none → c ≠ target := by
    rintro c there rfl
    exact there absent
  refine ⟨fun c b there => ?_, fun c b found free v member => ?_, fun c d element => ?_, founded,
    apart, ?_⟩
  · rw [array?_setArray_of_ne _ _ (kept c (there ▸ nofun))]
    exact secures.kept c b there
  · rw [size_setArray]
    by_cases same : c = target
    · subst same
      have bound := lt_size_of_array? found
      rw [size_setArray] at bound
      rw [array?_setArray_self _ _ bound] at found
      exact items v (Option.some.inj found ▸ member)
    · rw [array?_setArray_of_ne _ _ same] at found
      exact secures.items c b found free v member
  · rw [size_setArray]
    rcases element_setArray element with ⟨-, element⟩ | ⟨-, member⟩
    · exact secures.closed c d element
    · exact (items _ member).1
  · rw [size_setArray]
    exact ⟨secures.objects.fields, secures.objects.dictionaries⟩

theorem Secures.usable_of_reaches (secures : h.Secures R) {c d : Nat} (usable : R c = none)
    (reaches : ReflTransGen h.Element c d) : R d = none := by
  induction reaches with
  | refl => exact usable
  | tail _ element ih =>
    obtain ⟨a, found, member⟩ := element
    exact (secures.items _ a found ih _ member).2

/-- The cells that are set aside beyond a smaller reserve have only each other as elements. -/
theorem Secures.adds_closed (secures : h.Secures R') (more : R.Extends R') (c d : Nat)
    (added : R.Adds R' c) (element : h.Element c d) : R.Adds R' d := by
  obtain ⟨b, there⟩ := Option.ne_none_iff_exists'.mp added.2
  obtain ⟨b', known, member⟩ := element
  obtain rfl : b' = b := Option.some.inj (known.symm.trans (secures.kept c b there))
  exact more.closed c b' added.1 there _ member

theorem Secures.adds_clear (secures : h.Secures R') (more : R.Extends R') (c d : Nat)
    (other : ¬R.Adds R' c) (element : h.Element c d) : ¬R.Adds R' d := by
  obtain ⟨b, known, member⟩ := element
  cases there : R c with
  | some a =>
    obtain rfl : a = b :=
      Option.some.inj ((secures.kept c a (more.keeps c a there)).symm.trans known)
    exact more.clear c a d there member
  | none =>
    have free : R' c = none := by
      by_contra set
      exact other ⟨there, set⟩
    exact fun added => added.2 (secures.items c b known free _ member).2

theorem Secures.not_shares (secures : h.Secures R') (more : R.Extends R') {c d : Nat}
    (other : ¬R.Adds R' c) (added : R.Adds R' d) : ¬h.Shares c d := by
  rintro ⟨x, first, second⟩
  exact mem_of_reaches (S := fun c => ¬R.Adds R' c) (secures.adds_clear more) other first
    (mem_of_reaches (secures.adds_closed more) added second)

/-- An array that was set aside is written into one that was not, which closes no cycle. -/
theorem Secures.setPath (secures : h.Secures R') (more : R.Extends R') {cell : Nat}
    (usable : R' cell = none) (path : List Int64) (owned : v.Owned R R') :
    (h.setPath cell path v).1.Secures R := by
  obtain done | ⟨target, a, i, reaches, found, -, done⟩ := h.setPath_cases cell path v
  · rw [done]
    exact secures.release more
  · rw [done]
    have absent := secures.usable_of_reaches usable reaches
    have before := secures.release more
    have apart : ¬R.Adds R' target := fun added => added.2 absent
    have edges : ∀ c d, (h.setArray target (a.put i v)).Element c d →
        h.Element c d ∨ c = target ∧ R.Adds R' d := fun c d element =>
      (element_put found element).imp_right fun ⟨same, new⟩ => ⟨same, by rwa [← new] at owned⟩
    refine before.setArray (more.absent absent) (fun w member => ?_) ?_ ?_
    · rcases mem_put member with member | rfl
      · exact before.items target a found (more.absent absent) w member
      · exact secures.usable_of_owned owned
    · exact before.founded.insert target (R.Adds R') (secures.adds_closed more) apart edges
    · exact before.apart.evolves (evolves_of_insert (size_setArray h target _)
        (secures.adds_closed more) (secures.adds_clear more) apart edges) more.other

theorem Secures.reaches_of_shares (secures : h.Secures R') (more : R.Extends R') {cell c d : Nat}
    (usable : R' cell = none) (path : List Int64) (other : ¬R.Adds R' c) (added : R.Adds R' d)
    (shares : (h.setPath cell path (.array d)).1.Shares c d) :
    ReflTransGen (h.setPath cell path (.array d)).1.Element c d := by
  obtain done | ⟨target, a, i, reaches, found, inside, done⟩ := h.setPath_cases cell path (.array d)
  · rw [done] at shares
    exact absurd shares (secures.not_shares more other added)
  · rw [done] at shares ⊢
    have absent := secures.usable_of_reaches usable reaches
    have apart : ¬R.Adds R' target := fun added => added.2 absent
    have edges : ∀ c x, (h.setArray target (a.put i (.array d))).Element c x →
        h.Element c x ∨ c = target ∧ R.Adds R' x := fun c x element =>
      (element_put found element).imp_right fun ⟨same, new⟩ => ⟨same, Value.array.inj new ▸ added⟩
    obtain ⟨x, first, second⟩ := shares
    have member : R.Adds R' x := by
      refine mem_of_reaches (fun c x inner element => ?_) added second
      rcases edges c x element with element | ⟨-, inner⟩
      · exact secures.adds_closed more c x inner element
      · exact inner
    obtain ⟨outside, -⟩ | ⟨-, before⟩ := reaches_of_insert (secures.adds_closed more)
      (secures.adds_clear more) apart edges other first
    · exact absurd member outside
    · have last : (h.setArray target (a.put i (.array d))).Element target d :=
        ⟨_, array?_setArray_self h _ (lt_size_of_array? found),
          Array.mem_of_getElem? (Array.getElem?_setIfInBounds_self_of_lt inside)⟩
      exact .tail (reaches_setArray _ before) last

theorem Secures.erase (secures : h.Secures R) {cell : Nat} (small : cell < h.arrays.size)
    (absent : R cell = none) : (h.modifyArray cell (·.erase)).Secures R := by
  obtain ⟨a, found⟩ := exists_array? small
  rw [modifyArray_eq found]
  have fewer : ∀ c d, (h.setArray cell a.erase).Element c d → h.Element c d := by
    intro c d element
    rcases element_setArray element with ⟨-, element⟩ | ⟨-, member⟩
    · exact element
    · exact absurd member (Array.not_mem_empty _)
  exact secures.setArray absent (fun v member => absurd member (Array.not_mem_empty v))
    (secures.founded.mono fewer)
    (secures.apart.stays (.ofFewer (size_setArray h cell _) fewer))

theorem Secures.resize (secures : h.Secures R) {cell depth : Nat} {uppers : List Int64}
    {result : Heap × ArrayCell} (small : cell < h.arrays.size) (absent : R cell = none)
    (resized : resizePreserve depth h ((h.array? cell).getD {}) uppers = .ok result) :
    (result.1.setArray cell result.2).Secures R ∧
      h.arrays.size ≤ (result.1.setArray cell result.2).arrays.size := by
  obtain ⟨a, found⟩ := exists_array? small
  rw [found] at resized
  have closed := secures.closed
  have below : ∀ d, TransGen h.Element cell d → d < h.arrays.size := fun _ => closed.lt_of_inside
  obtain ⟨reshapes, items⟩ := resizes_resizePreserve _ depth uppers secures.founded closed below
    (fun _ _ inside element => inside.tail element)
    (fun d member => .single ⟨a, found, member⟩) resized
  have usable : ∀ d, TransGen h.Element cell d ∨ h.arrays.size ≤ d ∧ d < result.1.arrays.size →
      (Value.array d).Usable R result.1.arrays.size := by
    rintro d (inside | ⟨low, high⟩)
    · exact ⟨Nat.lt_of_lt_of_le (below d inside) reshapes.size,
        secures.usable_of_reaches absent inside.to_reflTransGen⟩
    · exact ⟨high, secures.free low⟩
  have grown : result.1.Secures R := by
    refine secures.keeps reshapes.toKeeps reshapes.founded fun c b large known v member => ?_
    cases v with
    | array d => exact usable d (reshapes.new c d large ⟨b, known, member⟩)
    | _ => trivial
  have evolves : h.Evolves (fun _ => False) (result.1.setArray cell result.2) :=
    reshapes.evolves_inPlace closed small items
  refine ⟨grown.setArray absent (fun v member => ?_) ?_ (secures.apart.stays evolves), evolves.size⟩
  · cases v with
    | array d => exact usable d (items d member)
    | _ => trivial
  · exact reshapes.founded_inPlace closed secures.founded.acyclic small items

def reserve (R : Reserve A) (h h' : Heap) : Reserve A := fun c =>
  if h.arrays.size ≤ c then h'.array? c else R c

end Heap

theorem Value.Usable.reserve {h h' : Heap} (usable : v.Usable R h.arrays.size)
    (grows : h.arrays.size ≤ h'.arrays.size) :
    v.Usable (Heap.reserve R h h') h'.arrays.size := by
  cases v with
  | array c =>
    exact ⟨Nat.lt_of_lt_of_le usable.1 grows, (if_neg (Nat.not_le_of_lt usable.1)).trans usable.2⟩
  | _ => trivial

namespace Heap

variable {h h' : Heap}

theorem within_of_usable (usable : v.Usable R n) : v.Within 0 n := by
  cases v with
  | array c => exact ⟨Nat.zero_le c, usable.1⟩
  | _ => trivial

section

variable (secures : h.Secures R) (builds : h.Builds h')

theorem reserve_of_lt {c : Nat} (small : c < h.arrays.size) : reserve R h h' c = R c :=
  if_neg (Nat.not_le_of_lt small)

theorem reserve_of_le {c : Nat} (large : h.arrays.size ≤ c) : reserve R h h' c = h'.array? c :=
  if_pos large

include secures in
theorem Secures.owned_reserve (within : v.Within h.arrays.size h'.arrays.size) :
    v.Owned R (reserve R h h') := by
  cases v with
  | array c =>
    obtain ⟨a, found⟩ := exists_array? within.2
    refine ⟨secures.free within.1, ?_⟩
    rw [reserve_of_le within.1, found]
    exact nofun
  | _ => trivial

include secures builds

theorem Secures.extends_reserve : R.Extends (reserve R h h') := by
  have old : ∀ {c}, c < h.arrays.size → ¬R.Adds (reserve R h h') c := by
    intro c small added
    rw [Reserve.Adds, reserve_of_lt small] at added
    exact added.2 added.1
  refine ⟨fun c a there => ?_, fun c a absent there u member => ?_,
    fun c a d there member => ?_, fun a b pair => ?_⟩
  · rw [reserve_of_lt (lt_size_of_array? (secures.kept c a there))]
    exact there
  · by_cases small : c < h.arrays.size
    · rw [reserve_of_lt small, absent] at there
      cases there
    · rw [reserve_of_le (Nat.le_of_not_lt small)] at there
      refine secures.owned_reserve ?_
      cases u with
      | array d =>
        obtain ⟨low, high⟩ := builds.new c d (Nat.le_of_not_lt small) ⟨a, there, member⟩
        exact ⟨low, Nat.lt_trans high (lt_size_of_array? there)⟩
      | _ => trivial
  · exact old (secures.closed c d ⟨a, secures.kept c a there, member⟩)
  · obtain ⟨small, small', -⟩ := secures.apart a b pair
    exact ⟨old small, old small'⟩

theorem Secures.reserve : h'.Secures (reserve R h h') := by
  have still : ∀ w : Value, w.Usable R h.arrays.size →
      w.Usable (Heap.reserve R h h') h'.arrays.size := fun _ usable => usable.reserve builds.size
  have after := secures.builds builds
  refine ⟨fun c a there => ?_, fun c a found absent u member => ?_, after.closed, after.founded,
    after.apart, ?_⟩
  · by_cases small : c < h.arrays.size
    · rw [reserve_of_lt small] at there
      exact after.kept c a there
    · rwa [reserve_of_le (Nat.le_of_not_lt small)] at there
  · by_cases small : c < h.arrays.size
    · rw [reserve_of_lt small] at absent
      rw [builds.old c small] at found
      exact still u (secures.items c a found absent u member)
    · rw [reserve_of_le (Nat.le_of_not_lt small), found] at absent
      cases absent
  · have objects := secures.objects.imp still
    generalize Value.Usable (Heap.reserve R h h') h'.arrays.size = P at objects ⊢
    rw [builds.rest]
    exact ⟨objects.fields, objects.dictionaries⟩

end

theorem Secures.copied (secures : h.Secures R) (usable : v.Usable R h.arrays.size) :
    h.Copied h (h.deepCopy v).1 v (h.deepCopy v).2 :=
  copied_deepCopy secures.closed secures.founded.acyclic (.refl h) (within_of_usable usable)

end Heap
end ServerScript
