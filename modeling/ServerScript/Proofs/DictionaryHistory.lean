import Mathlib.Data.List.Induction
import ServerScript.Member.Dictionary
import ServerScript.Proofs.Computation
import ServerScript.Proofs.KeyedEntries

/-! Dictionaries as lists of entries. A dictionary keeps an index of positions beside its entries;
whatever a script does to it, the index leads from the key of each entry to its position and from
nothing else to anywhere. What the dictionary answers is then what the list of its entries says. -/
namespace ServerScript

open Keyed

/-- Entries in the order in which their keys were added, and the comparison of keys. -/
structure EntryList where
  entries : List (Value × Value) := []
  mode : CompareMode := .binary

inductive DictionaryCall where
  | add (key item : Value)
  | assign (key item : Value)
  | remove (key : Value)
  | removeAll
  | compare (mode : Value)

def DictionaryCall.run (cell : Nat) : DictionaryCall → Run Value
  | .add key item => (Members.dictionary cell).call "add" [key, item]
  | .assign key item => Members.answerEmpty ((Members.dictionary cell).writeItem [key] item)
  | .remove key => (Members.dictionary cell).call "remove" [key]
  | .removeAll => (Members.dictionary cell).call "removeall" []
  | .compare mode => Members.answerEmpty ((Members.dictionary cell).write "comparemode" mode)

def DictionaryCall.change : DictionaryCall → Dictionary → Dictionary
  | .add key item => (·.push key item)
  | .assign key item => (·.insert key item)
  | .remove key => (·.remove key)
  | .removeAll => (·.clear)
  | .compare mode => fun d => { d with mode := .ofValue mode }

def DictionaryCall.error? (d : Dictionary) : DictionaryCall → Option EvalError
  | .add key _ => d.addError? key
  | .remove key => d.removeError? key
  | .compare _ => if d.size = 0 then none else some (.invalidArgument "CompareMode")
  | .assign .. | .removeAll => none

theorem DictionaryCall.exec_run (cell : Nat) (call : DictionaryCall) (m : Machine) :
    (call.run cell).exec m =
      match call.error? (m.heap.dictionary cell) with
      | some e => (.error (.error e), m)
      | none => (.ok .empty, { m with heap := m.heap.modifyDictionary cell call.change }) := by
  have changes : (call.run cell).exec m = (Members.answerEmpty (Members.changeDictionary cell
      (call.error? (m.heap.dictionary cell)) call.change)).exec m := by
    -- The keys of these two are looked up at once, so their members are opened first.
    cases call with
    | add key item =>
      rw [run, Members.dictionary, Run.exec_get_bind]
      rfl
    | remove key =>
      rw [run, Members.dictionary, Run.exec_get_bind]
      rfl
    | _ => rfl
  rw [changes]
  cases call.error? (m.heap.dictionary cell) <;> rfl

/-- The state after a sequence of calls. A call that fails leaves the state that it ends in. -/
def DictionaryCall.after (cell : Nat) (calls : List DictionaryCall) (m : Machine) : Machine :=
  calls.foldl (fun m call => ((call.run cell).exec m).2) m

namespace EntryList

def item? (l : EntryList) (key : Value) : Option Value :=
  get? (Dictionary.keyOf l.mode) key l.entries

def keys (l : EntryList) : List Value := l.entries.map (·.1)

def items (l : EntryList) : List Value := l.entries.map (·.2)

def refusal? (l : EntryList) : DictionaryCall → Option EvalError
  | .add key _ => if (l.item? key).isSome then some (.duplicateKey key.toText) else none
  | .remove key =>
    if (l.item? key).isSome then none
    else some (.invalidArgument ("key '" ++ key.toText ++ "' not found"))
  | .compare _ => if l.entries.isEmpty then none else some (.invalidArgument "CompareMode")
  | .assign .. | .removeAll => none

def effect (l : EntryList) : DictionaryCall → EntryList
  | .add key item => { l with entries := l.entries ++ [(key, item)] }
  | .assign key item =>
    { l with entries := put (Dictionary.keyOf l.mode) key (fun _ => item) l.entries }
  | .remove key => { l with entries := drop (Dictionary.keyOf l.mode) key l.entries }
  | .removeAll => { l with entries := [] }
  | .compare mode => { l with mode := .ofValue mode }

def next (l : EntryList) (call : DictionaryCall) : EntryList :=
  if (l.refusal? call).isSome then l else l.effect call

def after (calls : List DictionaryCall) : EntryList := calls.foldl next {}

end EntryList

theorem getElem?_concat_iff {all : List α} {a b : α} {i : Nat} :
    (all ++ [a])[i]? = some b ↔ all[i]? = some b ∨ i = all.length ∧ a = b := by
  rcases Nat.lt_or_ge i all.length with less | more
  · simp [List.getElem?_append_left less, Nat.ne_of_lt less]
  · rw [List.getElem?_append_right more, List.getElem?_eq_none more]
    rcases Nat.eq_or_lt_of_le more with same | less
    · simp [same]
    · simp [List.getElem?_eq_none (show [a].length ≤ i - all.length by simp; omega),
        Nat.ne_of_gt less]

namespace Dictionary

/-- An index leads from each key of a list to its position, and from nothing else to anywhere. -/
def Numbers (index : Std.HashMap DictionaryKey Nat) (forms : List DictionaryKey) : Prop :=
  ∀ (form : DictionaryKey) (i : Nat), index[form]? = some i ↔ forms[i]? = some form

theorem numbers_nil : Numbers {} [] := fun form i => by simp

namespace Numbers

variable {index : Std.HashMap DictionaryKey Nat} {all : List DictionaryKey}
  (numbers : Numbers index all)

include numbers

theorem nodup : all.Nodup := by
  refine List.nodup_iff_getElem?_ne_getElem?.mpr fun i j less bound same => ?_
  have known := List.getElem?_eq_getElem bound
  have first := (numbers _ i).mpr (same.trans known)
  have second := (numbers _ j).mpr known
  exact Nat.ne_of_lt less (Option.some.inj (first.symm.trans second))

theorem concat {form : DictionaryKey} (new : form ∉ all) :
    Numbers (index.insert form all.length) (all ++ [form]) := by
  intro other i
  rw [Std.HashMap.getElem?_insert, getElem?_concat_iff, ← numbers other i]
  by_cases same : form = other
  · have absent : index[other]? ≠ some i := fun found =>
      new (same ▸ List.mem_of_getElem? ((numbers other i).mp found))
    simp [same, absent, eq_comm]
  · simp [same]

end Numbers

theorem numbers_numbered (mode : CompareMode) (front : List (Value × Value))
    {rest : List (Value × Value)} {index : Std.HashMap DictionaryKey Nat}
    (numbers : Numbers index (forms (keyOf mode) front))
    (distinct : Distinct (keyOf mode) (front ++ rest)) :
    Numbers (rest.foldl (fun (state : Std.HashMap DictionaryKey Nat × Nat) e =>
      (state.1.insert (keyOf mode e.1) state.2, state.2 + 1)) (index, front.length)).1
      (forms (keyOf mode) (front ++ rest)) := by
  induction rest generalizing front index with
  | nil => rwa [List.append_nil]
  | cons e rest ih =>
    have next := numbers.concat distinct.new_of_append
    rw [forms, List.length_map, ← forms] at next
    rw [List.append_cons] at distinct ⊢
    have grown := ih (front ++ [e]) (forms_append front [e] ▸ next) distinct
    rwa [List.length_append, List.length_singleton] at grown

theorem numbers_indexOf {mode : CompareMode} {entries : Array (Value × Value)}
    (distinct : Distinct (keyOf mode) entries.toList) :
    Numbers (indexOf mode entries) (forms (keyOf mode) entries.toList) := by
  rw [indexOf, ← Array.foldl_toList]
  exact numbers_numbered mode [] numbers_nil distinct

/-- A dictionary has the entries of a list, and its index leads to the position of each entry from
the key of this entry and from no other key. -/
structure StandsFor (d : Dictionary) (l : EntryList) : Prop where
  entries : d.entries.toList = l.entries
  mode : d.mode = l.mode
  index : Numbers d.index (forms (keyOf l.mode) l.entries)

theorem standsFor_nil (mode : CompareMode) : ({ mode } : Dictionary).StandsFor { mode } :=
  ⟨rfl, rfl, numbers_nil⟩

variable {d : Dictionary} {l : EntryList} {key item : Value} {i : Nat}

namespace StandsFor

variable (stands : d.StandsFor l)

include stands

theorem distinct : Distinct (keyOf l.mode) l.entries := stands.index.nodup

theorem position?_eq_some_iff : d.position? key = some i ↔
    ∃ e, l.entries[i]? = some e ∧ keyOf l.mode e.1 = keyOf l.mode key := by
  rw [position?, stands.mode, ← getElem?_forms]
  exact stands.index _ i

theorem position?_eq_none_iff : d.position? key = none ↔ l.item? key = none := by
  rw [position?, stands.mode, EntryList.item?, get?_eq_none_iff, List.mem_iff_getElem?,
    Option.eq_none_iff_forall_ne_some, not_exists]
  exact forall_congr' fun i => not_congr (stands.index _ i)

theorem contains_eq (key : Value) : d.contains key = (l.item? key).isSome := by
  rw [contains, Bool.eq_iff_iff, ← Option.ne_none_iff_isSome, ← Option.ne_none_iff_isSome]
  exact not_congr stands.position?_eq_none_iff

theorem item_eq (key : Value) : d.item key = (l.item? key).getD .empty := by
  cases found : d.position? key with
  | none =>
    rw [Dictionary.item, found, stands.position?_eq_none_iff.mp found]
    rfl
  | some i =>
    obtain ⟨e, there, same⟩ := stands.position?_eq_some_iff.mp found
    rw [EntryList.item?, stands.distinct.get?_of_mem (List.mem_of_getElem? there) same,
      Dictionary.item, found, Option.bind_some, ← Array.getElem?_toList, stands.entries, there]
    rfl

theorem size_eq : d.size = l.entries.length := by rw [← stands.entries, Array.length_toList, size]

theorem keys_eq : d.keys = l.keys := by rw [Dictionary.keys, stands.entries, EntryList.keys]

theorem items_eq : d.items = l.items := by rw [Dictionary.items, stands.entries, EntryList.items]

theorem push (new : l.item? key = none) (item : Value) :
    (d.push key item).StandsFor (l.effect (.add key item)) := by
  refine ⟨?_, stands.mode, ?_⟩
  · rw [Dictionary.push, Array.toList_push, stands.entries, EntryList.effect]
  · have last : d.entries.size = (forms (keyOf l.mode) l.entries).length := by
      rw [forms, List.length_map, ← stands.entries, Array.length_toList]
    dsimp only [EntryList.effect, Dictionary.push]
    rw [forms_append, last, stands.mode]
    exact stands.index.concat (get?_eq_none_iff.mp new)

theorem insert (key item : Value) :
    (d.insert key item).StandsFor (l.effect (.assign key item)) := by
  rw [Dictionary.insert]
  split
  · rename_i i found
    obtain ⟨e, there, same⟩ := stands.position?_eq_some_iff.mp found
    have known : (l.item? key).isSome := by
      rw [← stands.contains_eq, contains, found, Option.isSome_some]
    refine ⟨?_, stands.mode, ?_⟩
    · rw [Array.toList_modify, stands.entries, EntryList.effect,
        put_eq_modify stands.distinct there same]
    · dsimp only [EntryList.effect]
      rw [forms_put, ← EntryList.item?, if_pos known, List.append_nil]
      exact stands.index
  · rename_i missing
    have new := stands.position?_eq_none_iff.mp missing
    have grown := stands.push new item
    rwa [EntryList.effect, put_of_new (get?_eq_none_iff.mp new)]

theorem remove (key : Value) : (d.remove key).StandsFor (l.effect (.remove key)) := by
  rw [Dictionary.remove]
  split
  · rename_i i found
    obtain ⟨e, there, same⟩ := stands.position?_eq_some_iff.mp found
    have entries : (d.entries.eraseIdxIfInBounds i).toList = drop (keyOf l.mode) key l.entries := by
      rw [drop_eq_eraseIdx stands.distinct there same, ← stands.entries]
      simp
    refine ⟨entries, stands.mode, ?_⟩
    have distinct := stands.distinct.drop key
    rw [← entries] at distinct
    dsimp only [EntryList.effect]
    rw [stands.mode, ← entries]
    exact numbers_indexOf distinct
  · rename_i missing
    have new := stands.position?_eq_none_iff.mp missing
    rwa [EntryList.effect, drop_of_new (get?_eq_none_iff.mp new)]

theorem error?_eq (call : DictionaryCall) : call.error? d = l.refusal? call := by
  cases call with
  | add key item => rw [DictionaryCall.error?, addError?, stands.contains_eq, EntryList.refusal?]
  | remove key => rw [DictionaryCall.error?, removeError?, stands.contains_eq, EntryList.refusal?]
  | compare mode =>
    rw [DictionaryCall.error?, stands.size_eq, EntryList.refusal?]
    simp only [List.length_eq_zero_iff, List.isEmpty_iff]
  | _ => rfl

theorem change (call : DictionaryCall) (accepted : l.refusal? call = none) :
    (call.change d).StandsFor (l.effect call) := by
  cases call with
  | add key item =>
    refine stands.push ?_ item
    simpa [EntryList.refusal?] using accepted
  | assign key item => exact stands.insert key item
  | remove key => exact stands.remove key
  | removeAll => exact ⟨rfl, stands.mode, numbers_nil⟩
  | compare mode =>
    have empty : l.entries = [] := by simpa [EntryList.refusal?] using accepted
    refine ⟨stands.entries, rfl, ?_⟩
    have index := stands.index
    rw [empty] at index
    dsimp only [EntryList.effect]
    rw [empty]
    exact index

end StandsFor

end Dictionary

theorem Heap.dictionary_modifyDictionary {h : Heap} {cell : Nat}
    (present : cell < h.dictionaries.size) (change : Dictionary → Dictionary) :
    (h.modifyDictionary cell change).dictionary cell = change (h.dictionary cell) := by
  rw [Heap.dictionary, modifyDictionary, Array.getElem?_modify, if_pos rfl, Heap.dictionary,
    Array.getElem?_eq_getElem present]
  rfl

/-- A cell of the store holds a dictionary that stands for a list of entries. -/
structure Machine.HoldsEntries (m : Machine) (cell : Nat) (l : EntryList) : Prop where
  present : cell < m.heap.dictionaries.size
  stands : (m.heap.dictionary cell).StandsFor l

/-- What a script reads from a dictionary is what a list of entries says. -/
structure Machine.ReadsEntries (m : Machine) (cell : Nat) (l : EntryList) : Prop where
  contains : ∀ key, ((Members.dictionary cell).call "exists" [key]).exec m =
    (.ok (.bool (l.item? key).isSome), m)
  item : ∀ key, ∀ name ∈ ["item", ""], ((Members.dictionary cell).call name [key]).exec m =
    (.ok ((l.item? key).getD .empty), m)
  keys : ((Members.dictionary cell).call "keys" []).exec m = (Run.newArray l.keys).exec m
  items : ((Members.dictionary cell).call "items" []).exec m = (Run.newArray l.items).exec m
  count : ((Members.dictionary cell).call "count" []).exec m =
    (.ok (Value.ofNat l.entries.length), m)
  property : ∀ name ∈ ["keys", "items", "count"], ((Members.dictionary cell).read name).exec m =
    ((Members.dictionary cell).call name []).exec m
  visited : (Members.dictionary cell).entries.exec m = (.ok (some l.keys), m)

namespace Machine.HoldsEntries

variable {m : Machine} {cell : Nat} {l : EntryList} (holds : m.HoldsEntries cell l)

include holds

/-- A call that the list refuses changes nothing at all; any other one succeeds and changes the
dictionary as it changes the list. -/
theorem step (call : DictionaryCall) :
    (∀ e, l.refusal? call = some e → (call.run cell).exec m = (.error (.error e), m)) ∧
    (l.refusal? call = none → ∃ m', (call.run cell).exec m = (.ok .empty, m') ∧
      m'.HoldsEntries cell (l.effect call)) := by
  rw [call.exec_run, holds.stands.error?_eq]
  refine ⟨fun e refused => by rw [refused], fun accepted => ?_⟩
  rw [accepted]
  refine ⟨_, rfl, ?_, ?_⟩
  · rw [Heap.modifyDictionary, Array.size_modify]
    exact holds.present
  · rw [Heap.dictionary_modifyDictionary holds.present]
    exact holds.stands.change call accepted

theorem next (call : DictionaryCall) :
    ((call.run cell).exec m).2.HoldsEntries cell (l.next call) := by
  obtain ⟨refused, done⟩ := holds.step call
  rw [EntryList.next]
  cases refusal : l.refusal? call with
  | some e =>
    rw [refused e refusal]
    exact holds
  | none =>
    obtain ⟨m', ends, holds⟩ := done refusal
    rw [ends]
    exact holds

theorem reads : m.ReadsEntries cell l where
  contains key := by
    rw [← holds.stands.contains_eq]
    rfl
  item key name member := by
    rw [← holds.stands.item_eq]
    rcases List.mem_pair.mp member with rfl | rfl <;> rfl
  keys := by
    rw [← holds.stands.keys_eq]
    rfl
  items := by
    rw [← holds.stands.items_eq]
    rfl
  count := by
    rw [← holds.stands.size_eq]
    rfl
  property name member := by
    rcases List.mem_cons.mp member with rfl | member
    · rfl
    · rcases List.mem_pair.mp member with rfl | rfl <;> rfl
  visited := by
    rw [← holds.stands.keys_eq]
    rfl

end Machine.HoldsEntries

theorem holdsEntries_after (m : Machine) (calls : List DictionaryCall) :
    (DictionaryCall.after m.heap.allocDictionary.2 calls
      { m with heap := m.heap.allocDictionary.1 }).HoldsEntries m.heap.allocDictionary.2
      (EntryList.after calls) := by
  induction calls using List.reverseRecOn with
  | nil =>
    refine ⟨?_, ?_⟩
    · dsimp only [DictionaryCall.after, Heap.allocDictionary, List.foldl_nil]
      rw [Array.size_push]
      exact Nat.lt_succ_self _
    · dsimp only [DictionaryCall.after, Heap.allocDictionary, List.foldl_nil, Heap.dictionary]
      rw [Array.getElem?_push_size]
      exact Dictionary.standsFor_nil .binary
  | append_singleton calls call ih =>
    rw [DictionaryCall.after, EntryList.after, List.foldl_concat, List.foldl_concat]
    exact ih.next call

namespace EntryList

variable {l : EntryList} {key : Value} {e : Value × Value} {i : Nat}

/-- A key of an entry stands for this entry: its item is read, replaced in its place, and taken
out from between the others. -/
structure Places (l : EntryList) (key : Value) (i : Nat) (e : Value × Value) : Prop where
  item : l.item? key = some e.2
  assign : ∀ item, (l.effect (.assign key item)).entries = l.entries.modify i fun e => (e.1, item)
  remove : (l.effect (.remove key)).entries = l.entries.eraseIdx i

theorem places (distinct : Distinct (Dictionary.keyOf l.mode) l.entries)
    (found : l.entries[i]? = some e)
    (same : Dictionary.keyOf l.mode e.1 = Dictionary.keyOf l.mode key) : l.Places key i e where
  item := distinct.get?_of_mem (List.mem_of_getElem? found) same
  assign item := by rw [effect, put_eq_modify distinct found same]
  remove := drop_eq_eraseIdx distinct found same

theorem eq_nil_of_mode_ne {call : DictionaryCall} (other : (l.next call).mode ≠ l.mode) :
    l.entries = [] := by
  rw [next] at other
  split at other
  · contradiction
  · rename_i accepted
    cases call with
    | compare mode =>
      by_contra entries
      exact accepted (by simp [refusal?, entries])
    | _ => contradiction

end EntryList

/-- A dictionary is a list of entries in the order in which their keys were added, whatever was
done to it since it was created. -/
theorem dictionary_refines_entries (m : Machine) (calls : List DictionaryCall) :
    let cell := m.heap.allocDictionary.2
    let now := DictionaryCall.after cell calls { m with heap := m.heap.allocDictionary.1 }
    let l := EntryList.after calls
    now.HoldsEntries cell l ∧ (forms (Dictionary.keyOf l.mode) l.entries).Nodup ∧
    now.ReadsEntries cell l ∧
    (∀ call : DictionaryCall, match l.refusal? call with
      | some e => (call.run cell).exec now = (.error (.error e), now)
      | none => ∃ after, (call.run cell).exec now = (.ok .empty, after) ∧
          after.HoldsEntries cell (l.effect call)) ∧
    (∀ i e key, l.entries[i]? = some e →
      Dictionary.keyOf l.mode e.1 = Dictionary.keyOf l.mode key → l.Places key i e) ∧
    ∀ call, (l.next call).mode ≠ l.mode → l.entries = [] := by
  intro cell now l
  have holds : now.HoldsEntries cell l := holdsEntries_after m calls
  refine ⟨holds, holds.stands.distinct, holds.reads, fun call => ?_, fun i e key found same =>
    EntryList.places holds.stands.distinct found same, fun call => EntryList.eq_nil_of_mode_ne⟩
  obtain ⟨refused, done⟩ := holds.step call
  split
  · rename_i e refusal
    exact refused e refusal
  · rename_i accepted
    exact done accepted

/-- A number is added beside the text that it prints as, and this text is taken out again. -/
def mixedKeys : List DictionaryCall :=
  [.add (.string "x") .null, .add (.string "1") .nothing, .add (.integer 1) .empty,
    .assign (.string "x") (.integer 2), .remove (.string "1")]

theorem entries_mixedKeys : (EntryList.after mixedKeys).entries =
    [(.string "x", .integer 2), (.integer 1, .empty)] := by
  simp [EntryList.after, mixedKeys, EntryList.next, EntryList.refusal?, EntryList.effect,
    EntryList.item?, get?, put, drop, isAt, Dictionary.keyOf, Value.toText, Value.toNumeric?,
    Value.isString]

theorem dictionary_refines_mixedKeys :
    (EntryList.after mixedKeys).Places (.string "x") 0 (.string "x", .integer 2) ∧
    (EntryList.after mixedKeys).Places (.integer 1) 1 (.integer 1, .empty) ∧
    ((EntryList.after []).next (.compare (.integer 1))).mode ≠ (EntryList.after []).mode ∧
    (EntryList.after []).entries = [] := by
  obtain ⟨_, _, _, _, places, _⟩ := dictionary_refines_entries {} mixedKeys
  obtain ⟨_, _, _, _, _, empty⟩ := dictionary_refines_entries {} []
  have other : ((EntryList.after []).next (.compare (.integer 1))).mode ≠
      (EntryList.after []).mode := by decide
  exact ⟨places 0 _ _ (congrArg (·[0]?) entries_mixedKeys) rfl,
    places 1 _ _ (congrArg (·[1]?) entries_mixedKeys) rfl, other, empty _ other⟩

end ServerScript
