import Mathlib.Data.List.Nodup
import Mathlib.Tactic.Common

/-! Lists of entries under keys, of which each key has at most one. Keys are the same if they have
one normal form. The entries stay in the order in which their keys were added: a key that is known
gets its new value in its place, a new one is added at the end, and a key that is taken out leaves
the others in their order. -/
namespace ServerScript.Keyed

variable {κ ν α : Type} {norm : κ → ν} {key other : κ} {e : κ × α} {entries rest : List (κ × α)}
  {change : Option α → α} {i : Nat}

def forms (norm : κ → ν) (entries : List (κ × α)) : List ν := entries.map fun e => norm e.1

def Distinct (norm : κ → ν) (entries : List (κ × α)) : Prop := (forms norm entries).Nodup

theorem mem_forms {form : ν} : form ∈ forms norm entries ↔ ∃ e ∈ entries, norm e.1 = form :=
  List.mem_map

theorem getElem?_forms {form : ν} :
    (forms norm entries)[i]? = some form ↔ ∃ e, entries[i]? = some e ∧ norm e.1 = form := by
  rw [forms, List.getElem?_map, Option.map_eq_some_iff]

theorem forms_eq_map (norm : κ → ν) (entries : List (κ × α)) :
    forms norm entries = (entries.map (·.1)).map norm := by
  rw [List.map_map]
  rfl

theorem forms_append (front back : List (κ × α)) :
    forms norm (front ++ back) = forms norm front ++ forms norm back := List.map_append

theorem distinct_nil : Distinct norm ([] : List (κ × α)) := List.nodup_nil

theorem distinct_cons :
    Distinct norm (e :: rest) ↔ norm e.1 ∉ forms norm rest ∧ Distinct norm rest := List.nodup_cons

theorem Distinct.new_of_append {front : List (κ × α)}
    (distinct : Distinct norm (front ++ e :: rest)) : norm e.1 ∉ forms norm front := by
  rw [Distinct, forms_append] at distinct
  exact fun before => List.disjoint_of_nodup_append distinct before List.mem_cons_self

variable [DecidableEq ν]

def isAt (norm : κ → ν) (key : κ) (e : κ × α) : Bool := norm e.1 == norm key

def get? (norm : κ → ν) (key : κ) (entries : List (κ × α)) : Option α :=
  (entries.find? (isAt norm key)).map (·.2)

def put (norm : κ → ν) (key : κ) (change : Option α → α) (entries : List (κ × α)) :
    List (κ × α) :=
  if (get? norm key entries).isSome then
    entries.map fun e => if isAt norm key e then (e.1, change (some e.2)) else e
  else entries ++ [(key, change none)]

def drop (norm : κ → ν) (key : κ) (entries : List (κ × α)) : List (κ × α) :=
  entries.filter fun e => !isAt norm key e

theorem isAt_iff : isAt norm key e = true ↔ norm e.1 = norm key := beq_iff_eq

/-! ### Values -/

theorem get?_nil (key : κ) : get? norm key ([] : List (κ × α)) = none := rfl

theorem get?_cons (key : κ) (e : κ × α) (rest : List (κ × α)) :
    get? norm key (e :: rest) = if norm e.1 = norm key then some e.2 else get? norm key rest := by
  split
  · rename_i same
    rw [get?, List.find?_cons_of_pos (isAt_iff.mpr same), Option.map_some]
  · rename_i apart
    rw [get?, List.find?_cons_of_neg (mt isAt_iff.mp apart), get?]

theorem get?_append (key : κ) (front back : List (κ × α)) :
    get? norm key (front ++ back) = (get? norm key front).or (get? norm key back) := by
  rw [get?, List.find?_append, Option.map_or, get?, get?]

theorem get?_congr (same : norm key = norm other) (entries : List (κ × α)) :
    get? norm key entries = get? norm other entries := by
  have : isAt (α := α) norm key = isAt norm other := by
    funext e
    rw [isAt, isAt, same]
  rw [get?, get?, this]

theorem isSome_get?_iff : (get? norm key entries).isSome ↔ norm key ∈ forms norm entries := by
  simp [get?, mem_forms, isAt_iff]

theorem get?_eq_none_iff : get? norm key entries = none ↔ norm key ∉ forms norm entries := by
  rw [← isSome_get?_iff, Bool.not_eq_true, Option.isSome_eq_false_iff, Option.isNone_iff_eq_none]

theorem Distinct.get?_of_mem (distinct : Distinct norm entries) (member : e ∈ entries)
    (same : norm e.1 = norm key) : get? norm key entries = some e.2 := by
  induction entries with
  | nil => cases member
  | cons first rest ih =>
    obtain ⟨new, distinct⟩ := distinct_cons.mp distinct
    rcases List.mem_cons.mp member with rfl | member
    · rw [get?_cons, if_pos same]
    · have apart : norm first.1 ≠ norm key := fun here =>
        new (mem_forms.mpr ⟨e, member, same.trans here.symm⟩)
      rw [get?_cons, if_neg apart]
      exact ih distinct member

/-! ### Changing a value -/

theorem put_of_new (new : norm key ∉ forms norm entries) :
    put norm key change entries = entries ++ [(key, change none)] :=
  if_neg (mt isSome_get?_iff.mp new)

theorem put_cons_of_eq (new : norm e.1 ∉ forms norm rest) (same : norm e.1 = norm key) :
    put norm key change (e :: rest) = (e.1, change (some e.2)) :: rest := by
  have others : ∀ x ∈ rest,
      (if isAt norm key x then (x.1, change (some x.2)) else x) = id x := fun x member =>
    if_neg fun here => new (mem_forms.mpr ⟨x, member, (isAt_iff.mp here).trans same.symm⟩)
  rw [put, get?_cons, if_pos same, Option.isSome_some, if_pos rfl, List.map_cons,
    if_pos (isAt_iff.mpr same), List.map_congr_left others, List.map_id]

theorem put_cons_of_ne (apart : norm e.1 ≠ norm key) :
    put norm key change (e :: rest) = e :: put norm key change rest := by
  rw [put, put, get?_cons, if_neg apart, List.map_cons, if_neg (mt isAt_iff.mp apart)]
  split <;> rfl

theorem map_fst_put (key : κ) (change : Option α → α) (entries : List (κ × α)) :
    (put norm key change entries).map (·.1) =
      entries.map (·.1) ++ if (get? norm key entries).isSome then [] else [key] := by
  rw [put]
  split
  · rw [List.map_map, List.append_nil]
    refine List.map_congr_left fun e _ => ?_
    rw [Function.comp_apply]
    split <;> rfl
  · rw [List.map_append, List.map_singleton]

theorem forms_put (key : κ) (change : Option α → α) (entries : List (κ × α)) :
    forms norm (put norm key change entries) =
      forms norm entries ++ if (get? norm key entries).isSome then [] else [norm key] := by
  rw [forms_eq_map, map_fst_put, List.map_append, ← forms_eq_map]
  split <;> rfl

theorem Distinct.put (distinct : Distinct norm entries) (key : κ) (change : Option α → α) :
    Distinct norm (put norm key change entries) := by
  rw [Distinct, forms_put]
  split
  · rwa [List.append_nil]
  · rename_i new
    rw [isSome_get?_iff] at new
    exact List.nodup_append'.mpr ⟨distinct, List.nodup_singleton _,
      List.disjoint_singleton.mpr new⟩

theorem get?_map (key other : κ) (change : Option α → α) (entries : List (κ × α)) :
    get? norm other
        (entries.map fun e => if isAt norm key e then (e.1, change (some e.2)) else e) =
      if norm other = norm key then (get? norm key entries).map fun a => change (some a)
      else get? norm other entries := by
  induction entries with
  | nil => split <;> rfl
  | cons e rest ih =>
    rw [List.map_cons, get?_cons, ih, get?_cons, get?_cons]
    by_cases here : norm e.1 = norm key
    · rw [if_pos (isAt_iff.mpr here)]
      grind
    · rw [if_neg (mt isAt_iff.mp here)]
      grind

/-- A walk that changes the first entry of a key, or adds the key at the end. -/
theorem put_of_walk {go : List (κ × α) → List (κ × α)} (nil : go [] = [(key, change none)])
    (cons : ∀ e rest, go (e :: rest) =
      if isAt norm key e then (e.1, change (some e.2)) :: rest else e :: go rest)
    (distinct : Distinct norm entries) : go entries = put norm key change entries := by
  induction entries with
  | nil => exact nil
  | cons e rest ih =>
    obtain ⟨new, distinct⟩ := distinct_cons.mp distinct
    rw [cons]
    by_cases same : norm e.1 = norm key
    · rw [if_pos (isAt_iff.mpr same), put_cons_of_eq new same]
    · rw [if_neg (mt isAt_iff.mp same), put_cons_of_ne same, ih distinct]

theorem get?_put (key other : κ) (change : Option α → α) (entries : List (κ × α)) :
    get? norm other (put norm key change entries) =
      if norm other = norm key then some (change (get? norm key entries))
      else get? norm other entries := by
  rw [put]
  cases found : get? norm key entries with
  | some a => rw [Option.isSome_some, if_pos rfl, get?_map, found, Option.map_some]
  | none =>
    rw [Option.isSome_none, if_neg Bool.false_ne_true, get?_append, get?_cons, get?_nil]
    by_cases same : norm other = norm key
    · rw [if_pos same, if_pos same.symm, get?_congr same, found, Option.none_or]
    · rw [if_neg same, if_neg (Ne.symm same), Option.or_none]

theorem put_eq_modify (distinct : Distinct norm entries) (found : entries[i]? = some e)
    (same : norm e.1 = norm key) :
    put norm key change entries = entries.modify i fun e => (e.1, change (some e.2)) := by
  induction entries generalizing i with
  | nil => cases found
  | cons first rest ih =>
    obtain ⟨new, distinct⟩ := distinct_cons.mp distinct
    cases i with
    | zero =>
      obtain rfl := Option.some.inj found
      rw [put_cons_of_eq new same, List.modify_zero_cons]
    | succ i =>
      have apart : norm first.1 ≠ norm key := fun here =>
        new (mem_forms.mpr ⟨e, List.mem_of_getElem? found, same.trans here.symm⟩)
      rw [put_cons_of_ne apart, List.modify_succ_cons, ih distinct found]

/-! ### Taking an entry out -/

theorem drop_cons_of_ne (apart : norm e.1 ≠ norm key) :
    drop norm key (e :: rest) = e :: drop norm key rest :=
  List.filter_cons_of_pos (by simpa using mt isAt_iff.mp apart)

theorem drop_of_new (new : norm key ∉ forms norm entries) : drop norm key entries = entries := by
  refine List.filter_eq_self.mpr fun e member => ?_
  have apart : ¬isAt norm key e = true := fun here =>
    new (mem_forms.mpr ⟨e, member, isAt_iff.mp here⟩)
  simpa using apart

theorem drop_cons_of_eq (new : norm e.1 ∉ forms norm rest) (same : norm e.1 = norm key) :
    drop norm key (e :: rest) = rest := by
  rw [drop, List.filter_cons_of_neg (by simpa using isAt_iff.mpr same)]
  exact drop_of_new (same ▸ new)

theorem Distinct.drop (distinct : Distinct norm entries) (key : κ) :
    Distinct norm (drop norm key entries) := distinct.sublist (List.filter_sublist.map _)

theorem get?_drop (key other : κ) (entries : List (κ × α)) :
    get? norm other (drop norm key entries) =
      if norm other = norm key then none else get? norm other entries := by
  induction entries with
  | nil => split <;> rfl
  | cons e rest ih =>
    rw [drop, List.filter_cons, ← drop, get?_cons]
    by_cases here : norm e.1 = norm key
    · rw [isAt_iff.mpr here]
      grind
    · rw [Bool.eq_false_iff.mpr (mt isAt_iff.mp here)]
      grind [get?_cons]

theorem eraseP_eq_drop (distinct : Distinct norm entries) :
    entries.eraseP (isAt norm key) = drop norm key entries := by
  induction entries with
  | nil => rfl
  | cons e rest ih =>
    obtain ⟨new, distinct⟩ := distinct_cons.mp distinct
    by_cases same : norm e.1 = norm key
    · rw [List.eraseP_cons_of_pos (isAt_iff.mpr same), drop_cons_of_eq new same]
    · rw [List.eraseP_cons_of_neg (mt isAt_iff.mp same), drop_cons_of_ne same, ih distinct]

theorem drop_eq_eraseIdx (distinct : Distinct norm entries) (found : entries[i]? = some e)
    (same : norm e.1 = norm key) : drop norm key entries = entries.eraseIdx i := by
  induction entries generalizing i with
  | nil => cases found
  | cons first rest ih =>
    obtain ⟨new, distinct⟩ := distinct_cons.mp distinct
    cases i with
    | zero =>
      obtain rfl := Option.some.inj found
      rw [drop_cons_of_eq new same, List.eraseIdx_cons_zero]
    | succ i =>
      have apart : norm first.1 ≠ norm key := fun here =>
        new (mem_forms.mpr ⟨e, List.mem_of_getElem? found, same.trans here.symm⟩)
      rw [drop_cons_of_ne apart, List.eraseIdx_cons_succ, ih distinct found]

end ServerScript.Keyed
