import Mathlib.Data.List.Induction
import ServerScript.Member.Request
import ServerScript.Proofs.Computation
import ServerScript.Proofs.KeyedEntries

/-! The collections of a request. Pairs of names and values are grouped by their names, up to the
case of ASCII letters: each name has one entry, in the place and spelling of its first pair, with
the values of all of its pairs in their order. -/
namespace ServerScript

open Keyed

def valuesOf (pairs : List (String × String)) (name : String) : List String :=
  (pairs.filter fun pair => Text.asciiEq pair.1 name).map (·.2)

/-- The names of pairs, each one where it occurs first and as it is spelled there. -/
def firstNames (pairs : List (String × String)) : List String :=
  (pairs.map (·.1)).eraseDupsBy Text.asciiEq

variable {pairs : List (String × String)} {pair : String × String} {name key : String}

theorem valuesOf_concat (pairs : List (String × String)) (pair : String × String)
    (name : String) : valuesOf (pairs ++ [pair]) name =
      valuesOf pairs name ++ if Text.asciiEq pair.1 name then [pair.2] else [] := by
  rw [valuesOf, List.filter_append, List.map_append, List.filter_singleton, valuesOf]
  cases Text.asciiEq pair.1 name <;> rfl

theorem eraseDupsBy_loop_concat {r : α → α → Bool} {a : α} (all kept : List α) :
    List.eraseDupsBy.loop r (all ++ [a]) kept =
      List.eraseDupsBy.loop r all kept ++
        if (List.eraseDupsBy.loop r all kept).any (r a) then [] else [a] := by
  induction all generalizing kept with
  | nil =>
    simp only [List.nil_append, List.eraseDupsBy.loop, List.any_reverse]
    cases kept.any (r a) <;> simp
  | cons first rest ih =>
    have step : ∀ all, List.eraseDupsBy.loop r (first :: all) kept =
        List.eraseDupsBy.loop r all (if kept.any (r first) then kept else first :: kept) := by
      intro all
      rw [List.eraseDupsBy.loop]
      cases kept.any (r first) <;> rfl
    rw [List.cons_append, step, step]
    exact ih _

theorem firstNames_concat (pairs : List (String × String)) (pair : String × String) :
    firstNames (pairs ++ [pair]) = firstNames pairs ++
      if (firstNames pairs).any (Text.asciiEq pair.1) then [] else [pair.1] := by
  rw [firstNames, List.map_append]
  exact eraseDupsBy_loop_concat _ _

namespace Collection

variable {title : String}

def join (value : String) (known : Option (List String)) : List String := known.getD [] ++ [value]

theorem ofPairs_concat (title : String) (pairs : List (String × String)) (pair : String × String) :
    ofPairs title (pairs ++ [pair]) = (ofPairs title pairs).push pair.1 pair.2 :=
  List.foldl_concat _ _ _ _

theorem entries_push {c : Collection} (distinct : Distinct Text.asciiLower c.entries)
    (key value : String) :
    (c.push key value).entries = put Text.asciiLower key (join value) c.entries :=
  put_of_walk rfl (fun _ _ => rfl) distinct

theorem distinct_ofPairs (title : String) (pairs : List (String × String)) :
    Distinct Text.asciiLower (ofPairs title pairs).entries := by
  induction pairs using List.reverseRecOn with
  | nil => exact distinct_nil
  | append_singleton pairs pair ih =>
    rw [ofPairs_concat, entries_push ih]
    exact ih.put _ _

theorem entries_ofPairs_concat (title : String) (pairs : List (String × String))
    (pair : String × String) : (ofPairs title (pairs ++ [pair])).entries =
      put Text.asciiLower pair.1 (join pair.2) (ofPairs title pairs).entries := by
  rw [ofPairs_concat, entries_push (distinct_ofPairs title pairs)]

theorem get?_entries_ofPairs (title : String) (pairs : List (String × String)) (name : String) :
    Keyed.get? Text.asciiLower name (ofPairs title pairs).entries =
      if valuesOf pairs name = [] then none else some (valuesOf pairs name) := by
  induction pairs using List.reverseRecOn generalizing name with
  | nil => rfl
  | append_singleton pairs pair ih =>
    rw [entries_ofPairs_concat, get?_put, valuesOf_concat, ih, ih]
    by_cases same : Text.asciiEq pair.1 name
    · have lower : Text.asciiLower pair.1 = Text.asciiLower name := beq_iff_eq.mp same
      have values : valuesOf pairs pair.1 = valuesOf pairs name := by
        rw [valuesOf, valuesOf]
        simp only [Text.asciiEq, lower]
      rw [if_pos lower.symm, values, if_pos same]
      split <;> simp_all [join]
    · rw [if_neg fun lower => same (beq_iff_eq.mpr lower.symm), if_neg same, List.append_nil]

theorem isSome_get?_entries_iff (title : String) (pairs : List (String × String)) (name : String) :
    (Keyed.get? Text.asciiLower name (ofPairs title pairs).entries).isSome ↔
      valuesOf pairs name ≠ [] := by
  rw [get?_entries_ofPairs]
  split <;> simp_all

theorem entries_ofPairs (title : String) (pairs : List (String × String)) :
    (ofPairs title pairs).entries =
      (firstNames pairs).map fun name => (name, valuesOf pairs name) := by
  induction pairs using List.reverseRecOn with
  | nil => rfl
  | append_singleton pairs pair ih =>
    have known : (Keyed.get? Text.asciiLower pair.1 (ofPairs title pairs).entries).isSome =
        (firstNames pairs).any (Text.asciiEq pair.1) := by
      rw [Bool.eq_iff_iff, isSome_get?_iff, ih, mem_forms, List.any_eq_true]
      simp only [List.mem_map, exists_exists_and_eq_and, Text.asciiEq, beq_iff_eq]
      exact exists_congr fun name => and_congr_right' eq_comm
    rw [entries_ofPairs_concat, firstNames_concat, put, known, List.map_append]
    split
    · rw [ih, List.map_map, List.map_nil, List.append_nil]
      refine List.map_congr_left fun name _ => ?_
      rw [Function.comp_apply, valuesOf_concat, Text.asciiEq_comm]
      change (if Text.asciiEq name pair.1 then _ else _) = _
      split
      · rfl
      · rw [List.append_nil]
    · rename_i new
      have none : valuesOf pairs pair.1 = [] := by
        rw [← known, isSome_get?_entries_iff, not_not] at new
        exact new
      rw [ih, List.map_singleton, valuesOf_concat, none, Text.asciiEq_refl, if_pos rfl]
      congr 1
      refine List.map_congr_left fun name member => ?_
      have apart : ¬Text.asciiEq pair.1 name := fun same =>
        new (List.any_eq_true.mpr ⟨name, member, same⟩)
      rw [valuesOf_concat, if_neg apart, List.append_nil]

theorem get?_ofPairs (title : String) (pairs : List (String × String)) (name : String) :
    (ofPairs title pairs).get? name =
      if valuesOf pairs name = [] then none else some (", ".intercalate (valuesOf pairs name)) := by
  have same : (ofPairs title pairs).get? name =
      (Keyed.get? Text.asciiLower name (ofPairs title pairs).entries).map joined := by
    rw [Keyed.get?, Option.map_map]
    rfl
  rw [same, get?_entries_ofPairs]
  split <;> rfl

/-- What a script reads from a collection is what the pairs say that it was made of. -/
structure Groups (c : Collection) (pairs : List (String × String)) : Prop where
  entries : c.entries = (firstNames pairs).map fun name => (name, valuesOf pairs name)
  get? : ∀ name, c.get? name =
    if valuesOf pairs name = [] then none else some (", ".intercalate (valuesOf pairs name))
  named : ∀ member ∈ ["item", ""], ∀ (key : Value) m, key.isPosition = false →
    ((Members.collection c).call member [key]).exec m =
      (.ok (if valuesOf pairs key.toText = [] then .empty
        else .string (", ".intercalate (valuesOf pairs key.toText))), m)
  placed : ∀ key : Value, 1 ≤ key.toWord.toInt → key.toWord.toInt ≤ (firstNames pairs).length →
    ∃ name, (firstNames pairs)[key.toWord.toInt.toNat - 1]? = some name ∧
      (∀ m, ((Members.collection c).call "key" [key]).exec m = (.ok (.string name), m)) ∧
      ∀ member ∈ ["item", ""], ∀ m, key.isPosition →
        ((Members.collection c).call member [key]).exec m =
          (.ok (.string (", ".intercalate (valuesOf pairs name))), m)
  count : ∀ m, ((Members.collection c).call "count" []).exec m =
    (.ok (Value.ofNat (firstNames pairs).length), m)
  property : (Members.collection c).read "count" = (Members.collection c).call "count" []
  visited : ∀ m, (Members.collection c).entries.exec m =
    (.ok (some ((firstNames pairs).map .string)), m)

theorem exec_item {c : Collection} {member : String} (known : member ∈ ["item", ""]) {key v : Value}
    (item : c.item key = .ok v) (m : Machine) :
    ((Members.collection c).call member [key]).exec m = (.ok v, m) := by
  have run : ((Members.collection c).call member [key]).exec m =
      (Run.ofFault (c.item key)).exec m := by
    rcases List.mem_pair.mp known with rfl | rfl <;> rfl
  rw [run, item]
  rfl

theorem groups_ofPairs (title : String) (pairs : List (String × String)) :
    (ofPairs title pairs).Groups pairs := by
  have entries := entries_ofPairs title pairs
  have size : (ofPairs title pairs).size = (firstNames pairs).length := by
    rw [Collection.size, entries, List.length_map]
  refine ⟨entries, get?_ofPairs title pairs, fun member known key m text => ?_,
    fun key low high => ?_, fun m => ?_, rfl, fun m => ?_⟩
  · refine exec_item known ?_ m
    rw [item, text, if_neg Bool.false_ne_true, Except.map, get?_ofPairs]
    split <;> rfl
  · have bound : key.toWord.toInt.toNat - 1 < (firstNames pairs).length := by omega
    have place := Value.position_of_pos low
    have found := List.getElem?_eq_getElem bound
    have entry := congrArg (·[key.toWord.toInt.toNat - 1]?) entries
    rw [List.getElem?_map, found, Option.map_some] at entry
    refine ⟨_, found, fun m => ?_, fun member known m counts => exec_item known ?_ m⟩
    · change (Run.ofFault ((ofPairs title pairs).keyAt key)).exec m = _
      rw [keyAt, place, Except.map, Option.bind_some, entry]
      rfl
    · rw [item, if_pos counts, place, Except.map, Except.map, Option.bind_some, entry]
      rfl
  · rw [← size]
    rfl
  · have names : (ofPairs title pairs).names = (firstNames pairs).map .string := by
      rw [names, entries, List.map_map]
      rfl
    rw [← names]
    rfl

end Collection

namespace RequestData

/-- The server variables as pairs: those of the request, and then those that are supplied unless
the request sets them. -/
def allVariables (r : RequestData) : List (String × String) :=
  [("REQUEST_METHOD", r.method), ("PATH_INFO", r.path), ("SCRIPT_NAME", r.path),
    ("QUERY_STRING", r.rawQuery), ("CONTENT_LENGTH", toString r.body.utf8ByteSize)].foldl
    (fun pairs pair => if valuesOf pairs pair.1 = [] then pairs ++ [pair] else pairs)
    r.serverVariables

/-- The collections of a request as pairs, in the order in which they are searched. -/
def searched (r : RequestData) : List (List (String × String)) :=
  [r.query, r.form, r.cookies, r.allVariables]

end RequestData

theorem RequestView.supply_ofPairs (title : String) (pairs : List (String × String))
    (pair : String × String) : supply (.ofPairs title pairs) pair =
      .ofPairs title (if valuesOf pairs pair.1 = [] then pairs ++ [pair] else pairs) := by
  rw [supply, Collection.get?_ofPairs]
  split
  · rw [Option.isSome_none, if_neg Bool.false_ne_true, Collection.ofPairs_concat]
  · rfl

theorem RequestView.serverVariables_ofData (r : RequestData) :
    (ofData r).serverVariables = .ofPairs title r.allVariables :=
  List.foldl_hom (Collection.ofPairs title) (supply_ofPairs title)

theorem Collection.findSome?_ofPairs (title name : String) (all : List (List (String × String))) :
    (all.map (ofPairs title)).findSome? (·.get? name) =
      ((all.map (valuesOf · name)).find? (· ≠ [])).map (", ".intercalate ·) := by
  induction all with
  | nil => rfl
  | cons pairs rest ih =>
    rw [List.map_cons, List.map_cons, List.findSome?_cons, get?_ofPairs]
    by_cases none : valuesOf pairs name = []
    · rw [if_pos none, List.find?_cons_of_neg (by simp [none]), ih]
    · rw [if_neg none, List.find?_cons_of_pos (by simp [none]), Option.map_some]

theorem RequestView.lookup_ofData (r : RequestData) (name : String) :
    (ofData r).lookup name =
      (((r.searched.map (valuesOf · name)).find? (· ≠ [])).elim .empty fun values =>
        .string (", ".intercalate values)) := by
  have first := Collection.findSome?_ofPairs title name r.searched
  rw [lookup, serverVariables_ofData]
  change ((r.searched.map (Collection.ofPairs title)).findSome? (·.get? name)).elim _ _ = _
  rw [first, Option.elim_map]
  rfl

/-- The collections of a request keep each pair of it, under one name each, and the request finds
a name in the first collection that has it. -/
theorem request_collections_lose_nothing :
    (∀ title pairs, (Collection.ofPairs title pairs).Groups pairs) ∧
    ∀ (r : RequestData) (m : Machine), m.site.request = .ofData r →
      ∀ member ∈ ["item", ""], ∀ key : Value, (Members.request.call member [key]).exec m =
        (.ok (((r.searched.map (valuesOf · key.toText)).find? (· ≠ [])).elim .empty fun values =>
          .string (", ".intercalate values)), m) := by
  refine ⟨Collection.groups_ofPairs, fun r m made member known key => ?_⟩
  have run : (Members.request.call member [key]).exec m =
      (.ok (m.site.request.lookup key.toText), m) := by
    rcases List.mem_pair.mp known with rfl | rfl <;> rfl
  rw [run, made, RequestView.lookup_ofData]

def RequestData.mixedCase : RequestData where
  query := [("a", "1"), ("b", ""), ("A", "2")]
  form := [("B", "3"), ("c", "4")]
  cookies := [("C", "5")]

theorem request_mixed_case :
    let m : Machine := { site := { request := .ofData .mixedCase } }
    (Collection.ofPairs RequestView.title RequestData.mixedCase.query).get? "A" = some "1, 2" ∧
    (∃ name, (firstNames RequestData.mixedCase.query)[0]? = some name ∧
      ((Members.collection (.ofPairs RequestView.title RequestData.mixedCase.query)).call "key"
        [.integer 1]).exec m = (.ok (.string name), m)) ∧
    (Members.request.call "" [.string "B"]).exec m = (.ok (.string ""), m) ∧
    (Members.request.call "item" [.string "C"]).exec m = (.ok (.string "4"), m) := by
  intro m
  obtain ⟨groups, finds⟩ := request_collections_lose_nothing
  have query := groups RequestView.title RequestData.mixedCase.query
  have values : valuesOf RequestData.mixedCase.query "A" = ["1", "2"] := by
    simp [valuesOf, RequestData.mixedCase, Text.asciiEq_eq_toList]
  have names : firstNames RequestData.mixedCase.query = ["a", "b"] := by
    simp [firstNames, RequestData.mixedCase, List.eraseDupsBy_cons, Text.asciiEq_eq_toList]
  have inQuery : (RequestData.mixedCase.searched.map (valuesOf · "B")).find? (· ≠ []) =
      some [""] := by
    simp [valuesOf, RequestData.searched, RequestData.mixedCase, Text.asciiEq_eq_toList]
  have inForm : (RequestData.mixedCase.searched.map (valuesOf · "C")).find? (· ≠ []) =
      some ["4"] := by
    simp [valuesOf, RequestData.searched, RequestData.mixedCase, Text.asciiEq_eq_toList]
  obtain ⟨name, first, key, -⟩ := query.placed (.integer 1) (by decide) (by simp [names]; decide)
  refine ⟨?_, ⟨name, first, key m⟩, ?_, ?_⟩
  · rw [query.get?, values]
    rfl
  · rw [finds .mixedCase m rfl "" (by decide) (.string "B"), Value.toText, inQuery]
    rfl
  · rw [finds .mixedCase m rfl "item" (by decide) (.string "C"), Value.toText, inForm]
    rfl

end ServerScript
