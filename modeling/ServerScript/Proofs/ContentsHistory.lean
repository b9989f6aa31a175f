import Mathlib.Data.List.Induction
import ServerScript.Member.Session
import ServerScript.Proofs.Computation
import ServerScript.Proofs.KeyedEntries

/-! The history of contents that outlive a request. Whatever was put into them and taken out again,
each key is there once, up to the case of ASCII letters, and the keys stand in the order in which
they were added. A key that is taken out and added anew is the last one. -/
namespace ServerScript

open Keyed

inductive ContentsCall where
  | insert (key : String) (value : SharedValue)
  | remove (key : String)
  | clear

namespace Contents

variable {c : Contents} {key other : String} {value : SharedValue} {i : Nat}
  {e : String × SharedValue}

def next (c : Contents) : ContentsCall → Contents
  | .insert key value => c.insert key value
  | .remove key => c.remove key
  | .clear => c.clear

/-- The contents after a sequence of calls, empty at first. -/
def after (calls : List ContentsCall) : Contents := calls.foldl next {}

theorem get?_eq (c : Contents) (key : String) :
    c.get? key = Keyed.get? Text.asciiLower key c.entries := rfl

theorem asciiEq_iff {a b : String} :
    Text.asciiEq a b = true ↔ Text.asciiLower a = Text.asciiLower b := beq_iff_eq

theorem isSome_get?_iff_mem : (c.get? key).isSome ↔ ∃ k ∈ c.keys, Text.asciiEq k key := by
  rw [get?_eq, isSome_get?_iff, forms_eq_map, List.mem_map]
  simp only [asciiEq_iff]
  rfl

theorem take_eq (c : Contents) (key : String) : c.take key = (c.get? key, c.remove key) := by
  rw [take, position?, get?, remove, List.find?_eq_bind_findIdx?_getElem?,
    List.eraseP_eq_eraseIdx]
  cases c.entries.findIdx? fun e => Text.asciiEq e.1 key <;> rfl

/-! ### One call -/

theorem entries_insert (distinct : Distinct Text.asciiLower c.entries) (key : String)
    (value : SharedValue) :
    (c.insert key value).entries = put Text.asciiLower key (fun _ => value) c.entries :=
  put_of_walk rfl (fun _ _ => rfl) distinct

theorem entries_remove (distinct : Distinct Text.asciiLower c.entries) (key : String) :
    (c.remove key).entries = drop Text.asciiLower key c.entries := eraseP_eq_drop distinct

theorem distinct_next (distinct : Distinct Text.asciiLower c.entries) (call : ContentsCall) :
    Distinct Text.asciiLower (c.next call).entries := by
  cases call with
  | insert key value =>
    rw [next, entries_insert distinct key value]
    exact distinct.put key _
  | remove key =>
    rw [next, entries_remove distinct key]
    exact distinct.drop key
  | clear => exact distinct_nil

/-- A value under a key replaces the one that is there, in its place and under its spelling, or
comes last. -/
structure Inserts (c : Contents) (key : String) (value : SharedValue) : Prop where
  here : ∀ k, Text.asciiEq k key → (c.insert key value).get? k = some value
  others : ∀ k, ¬Text.asciiEq k key → (c.insert key value).get? k = c.get? k
  keys : (c.insert key value).keys = c.keys ++ if (c.get? key).isSome then [] else [key]
  size : (c.get? key).isSome → (c.insert key value).size = c.size

theorem inserts (distinct : Distinct Text.asciiLower c.entries) (key : String)
    (value : SharedValue) : c.Inserts key value := by
  have entries := entries_insert distinct key value
  have keys : (c.insert key value).keys = c.keys ++ if (c.get? key).isSome then [] else [key] := by
    rw [Contents.keys, entries, map_fst_put]
    rfl
  refine ⟨fun k same => ?_, fun k apart => ?_, keys, fun known => ?_⟩
  · rw [get?_eq, entries, get?_put, if_pos (asciiEq_iff.mp same)]
  · rw [get?_eq, entries, get?_put, if_neg (mt asciiEq_iff.mpr apart), get?_eq]
  · have length := congrArg List.length keys
    rw [if_pos known, List.append_nil] at length
    simpa [Contents.keys, size] using length

/-- The entry of a key is taken out, and nothing else. -/
structure Removes (c : Contents) (key : String) : Prop where
  take : c.take key = (c.get? key, c.remove key)
  present : ∀ i e, c.entries[i]? = some e → Text.asciiEq e.1 key →
    (c.remove key).entries = c.entries.eraseIdx i
  absent : c.get? key = none → c.remove key = c
  here : ∀ k, Text.asciiEq k key → (c.remove key).get? k = none
  others : ∀ k, ¬Text.asciiEq k key → (c.remove key).get? k = c.get? k

theorem removes (distinct : Distinct Text.asciiLower c.entries) (key : String) :
    c.Removes key := by
  have entries := entries_remove distinct key
  refine ⟨c.take_eq key, fun i e found same => ?_, fun none => ?_, fun k same => ?_,
    fun k apart => ?_⟩
  · rw [entries, drop_eq_eraseIdx distinct found (asciiEq_iff.mp same)]
  · rw [get?_eq, get?_eq_none_iff] at none
    rw [drop_of_new none] at entries
    exact congrArg Contents.mk entries
  · rw [get?_eq, entries, get?_drop, if_pos (asciiEq_iff.mp same)]
  · rw [get?_eq, entries, get?_drop, if_neg (mt asciiEq_iff.mpr apart), get?_eq]

theorem keys_next (distinct : Distinct Text.asciiLower c.entries) (call : ContentsCall) :
    (c.next call).keys.Sublist c.keys ∨ ∃ key value, call = .insert key value ∧
      c.get? key = none ∧ (c.next call).keys = c.keys ++ [key] := by
  cases call with
  | insert key value =>
    have keys := (inserts distinct key value).keys
    rw [next, keys]
    cases found : c.get? key with
    | some v => exact .inl (by simp)
    | none => exact .inr ⟨key, value, rfl, found, rfl⟩
  | remove key => exact .inl (List.eraseP_sublist.map _)
  | clear => exact .inl (List.nil_sublist _)

end Contents

/-! ### A sequence of calls -/

namespace ContentsCall

variable {calls : List ContentsCall} {call : ContentsCall} {time later : Nat} {key a b : String}

theorem after_concat (calls : List ContentsCall) (call : ContentsCall) :
    Contents.after (calls ++ [call]) = (Contents.after calls).next call :=
  List.foldl_concat _ _ _ _

/-- The call at this time added a key, in this spelling and as a new one, and it was there ever
since. -/
structure AddedAt (calls : List ContentsCall) (time : Nat) (key : String) : Prop where
  call : ∃ value, calls[time]? = some (.insert key value)
  new : (Contents.after (calls.take time)).get? key = none
  since : ∀ later, time < later → later ≤ calls.length →
    ((Contents.after (calls.take later)).get? key).isSome

namespace AddedAt

theorem lt_length (added : AddedAt calls time key) : time < calls.length := by
  obtain ⟨call, found⟩ := added.call
  exact (List.getElem?_eq_some_iff.mp found).1

theorem unique (first : AddedAt calls time key) (second : AddedAt calls later key) :
    time = later := by
  by_contra apart
  rcases Nat.lt_or_gt_of_ne apart with less | more
  · have known := first.since later less (Nat.le_of_lt second.lt_length)
    rw [second.new] at known
    cases known
  · have known := second.since time more (Nat.le_of_lt first.lt_length)
    rw [first.new] at known
    cases known

theorem concat (added : AddedAt calls time key)
    (kept : ((Contents.after (calls ++ [call])).get? key).isSome) :
    AddedAt (calls ++ [call]) time key := by
  have bound := added.lt_length
  refine ⟨?_, ?_, fun later more less => ?_⟩
  · rw [List.getElem?_append_left bound]
    exact added.call
  · rw [List.take_append_of_le_length (Nat.le_of_lt bound)]
    exact added.new
  · rw [List.length_append, List.length_singleton] at less
    rcases Nat.lt_or_eq_of_le less with less | rfl
    · rw [List.take_append_of_le_length (Nat.le_of_lt_succ less)]
      exact added.since later more (Nat.le_of_lt_succ less)
    · rwa [List.take_of_length_le (by simp)]

end AddedAt

def Older (calls : List ContentsCall) (a b : String) : Prop :=
  ∃ first second, AddedAt calls first a ∧ AddedAt calls second b ∧ first < second

theorem addedAt_last {value : SharedValue} (new : (Contents.after calls).get? key = none)
    (known : ((Contents.after (calls ++ [.insert key value])).get? key).isSome) :
    AddedAt (calls ++ [.insert key value]) calls.length key := by
  refine ⟨⟨value, List.getElem?_concat_length⟩, ?_, fun later more less => ?_⟩
  · rwa [List.take_left]
  · rw [List.length_append, List.length_singleton] at less
    rwa [List.take_of_length_le (by simp; omega)]

/-- The keys of contents stand in the order in which they were added. -/
structure Orders (calls : List ContentsCall) : Prop where
  added : ∀ key ∈ (Contents.after calls).keys, ∃ time, AddedAt calls time key
  order : (Contents.after calls).keys.Pairwise (Older calls)

theorem mem_of_mem_keys {c : Contents} (member : key ∈ c.keys) : (c.get? key).isSome :=
  Contents.isSome_get?_iff_mem.mpr ⟨key, member, Text.asciiEq_refl key⟩

theorem Orders.concat (orders : Orders calls)
    (distinct : Distinct Text.asciiLower (Contents.after calls).entries) (call : ContentsCall) :
    Orders (calls ++ [call]) := by
  have kept : ∀ {key time}, key ∈ (Contents.after (calls ++ [call])).keys →
      AddedAt calls time key → AddedAt (calls ++ [call]) time key := fun member added =>
    added.concat (mem_of_mem_keys member)
  have older : ∀ {a b}, a ∈ (Contents.after (calls ++ [call])).keys →
      b ∈ (Contents.after (calls ++ [call])).keys → Older calls a b →
      Older (calls ++ [call]) a b := fun left right ⟨first, second, before, behind, less⟩ =>
    ⟨first, second, kept left before, kept right behind, less⟩
  rcases Contents.keys_next distinct call with fewer | ⟨key, value, rfl, new, keys⟩
  · rw [← after_concat] at fewer
    refine ⟨fun key member => ?_, (orders.order.sublist fewer).imp_of_mem older⟩
    obtain ⟨time, added⟩ := orders.added key (fewer.subset member)
    exact ⟨time, kept member added⟩
  · rw [← after_concat] at keys
    have member : key ∈ (Contents.after (calls ++ [.insert key value])).keys := by simp [keys]
    have before : ∀ {k}, k ∈ (Contents.after calls).keys →
        k ∈ (Contents.after (calls ++ [.insert key value])).keys := fun known => by
      simp [keys, known]
    have last := addedAt_last new (mem_of_mem_keys member)
    refine ⟨fun k known => ?_, ?_⟩
    · rw [keys, List.mem_append, List.mem_singleton] at known
      rcases known with known | rfl
      · obtain ⟨time, added⟩ := orders.added k known
        exact ⟨time, kept (before known) added⟩
      · exact ⟨_, last⟩
    · rw [keys]
      refine List.pairwise_append.mpr ⟨orders.order.imp_of_mem fun left right =>
        older (before left) (before right), List.pairwise_singleton _ _, fun a known b single => ?_⟩
      obtain rfl := List.mem_singleton.mp single
      obtain ⟨time, added⟩ := orders.added a known
      exact ⟨time, calls.length, kept (before known) added, last, added.lt_length⟩

theorem distinct_after (calls : List ContentsCall) :
    Distinct Text.asciiLower (Contents.after calls).entries := by
  induction calls using List.reverseRecOn with
  | nil => exact distinct_nil
  | append_singleton calls call ih =>
    rw [after_concat]
    exact Contents.distinct_next ih call

theorem orders_after (calls : List ContentsCall) : Orders calls := by
  induction calls using List.reverseRecOn with
  | nil => exact ⟨nofun, .nil⟩
  | append_singleton calls call ih => exact ih.concat (distinct_after calls) call

end ContentsCall

theorem Contents.exists_item {c : Contents} (distinct : Distinct Text.asciiLower c.entries)
    {position : Int64} (low : 1 ≤ position.toInt) (high : position.toInt ≤ c.size) :
    ∃ key v, c.keys[position.toInt.toNat - 1]? = some key ∧ c.get? key = some v ∧
      ∀ m, (Members.sharedItem c (.integer position)).exec m =
        (Run.onHeap (v.toValue ·)).exec m := by
  have bound : position.toInt.toNat - 1 < c.entries.length := by
    rw [size] at high
    omega
  have found := List.getElem?_eq_getElem bound
  refine ⟨_, _, by rw [keys, List.getElem?_map, found]; rfl,
    distinct.get?_of_mem (List.getElem_mem bound) rfl, fun m => ?_⟩
  have looked : c.lookup (.integer position) =
      .ok (some c.entries[position.toInt.toNat - 1].2) := by
    have place : (Value.integer position).position = .ok (some (position.toInt.toNat - 1)) :=
      Value.position_of_pos low
    rw [lookup, Value.isPosition, if_pos rfl, place, Except.map, Option.bind_some, found,
      Option.map_some]
  rw [Members.sharedItem, looked]
  rfl

theorem Contents.pairwise_keys {c : Contents} (distinct : Distinct Text.asciiLower c.entries) :
    c.keys.Pairwise fun a b => ¬Text.asciiEq a b := by
  rw [Distinct, forms_eq_map, List.Nodup, List.pairwise_map] at distinct
  exact distinct.imp fun apart same => apart (asciiEq_iff.mp same)

/-- Contents are a map whose keys ignore the case of ASCII letters and stand in the order in which
they were added as new ones. -/
theorem contents_in_order_of_addition (calls : List ContentsCall) :
    let c := Contents.after calls
    (c.keys.Pairwise fun a b => ¬Text.asciiEq a b) ∧
    (∀ key, (c.get? key).isSome ↔ ∃ k ∈ c.keys, Text.asciiEq k key) ∧
    (∀ key value, c.Inserts key value) ∧ (∀ key, c.Removes key) ∧
    (∀ key ∈ c.keys, ∃! time, ContentsCall.AddedAt calls time key) ∧
    c.keys.Pairwise (ContentsCall.Older calls) ∧
    ∀ position : Int64, 1 ≤ position.toInt → position.toInt ≤ c.size →
      ∃ key v, c.keys[position.toInt.toNat - 1]? = some key ∧ c.get? key = some v ∧
        ∀ m, (Members.sharedItem c (.integer position)).exec m =
          (Run.onHeap (v.toValue ·)).exec m := by
  intro c
  have distinct : Distinct Text.asciiLower c.entries := ContentsCall.distinct_after calls
  have orders := ContentsCall.orders_after calls
  refine ⟨Contents.pairwise_keys distinct, fun key => Contents.isSome_get?_iff_mem,
    Contents.inserts distinct, Contents.removes distinct, fun key member => ?_, orders.order,
    fun position => Contents.exists_item distinct⟩
  obtain ⟨time, added⟩ := orders.added key member
  exact ⟨time, added, fun other also => also.unique added⟩

/-- A key is replaced under another spelling, another one is taken out and added anew. -/
def readded : List ContentsCall :=
  [.insert "a" .empty, .insert "b" .null, .insert "A" (.bool true), .remove "a", .insert "A" .null]

theorem readded_in_order :
    (Contents.after readded).keys = ["b", "A"] ∧
    (∃! time, ContentsCall.AddedAt readded time "A") ∧
    ∃ key v, (Contents.after readded).keys[(2 : Int64).toInt.toNat - 1]? = some key ∧
      (Contents.after readded).get? key = some v ∧
      ∀ m, (Members.sharedItem (Contents.after readded) (.integer 2)).exec m =
        (Run.onHeap (v.toValue ·)).exec m := by
  obtain ⟨_, _, _, _, added, _, items⟩ := contents_in_order_of_addition readded
  have entries : (Contents.after readded).entries = [("b", .null), ("A", .null)] := by
    simp [Contents.after, readded, Contents.next, Contents.insert, Contents.insert.go,
      Contents.remove, Text.asciiEq_eq_toList]
  have keys : (Contents.after readded).keys = ["b", "A"] := by
    rw [Contents.keys, entries]
    rfl
  have two : (2 : Int64).toInt ≤ (Contents.after readded).size := by
    rw [Contents.size, entries]
    decide
  exact ⟨keys, added "A" (by simp [keys]), items 2 (by decide) two⟩

end ServerScript
