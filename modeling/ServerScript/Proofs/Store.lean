import ServerScript.Proofs.Policy

/-! Operations of the store keep to a policy. Each operation advances the store when the values
that it is given keep to the policy, and the values that it reads out keep to it too. -/
namespace ServerScript

variable {p : Policy}

theorem mem_of_lookupName {name : Name} {entries : List (Name × α)} {a : α}
    (found : lookupName name entries = some a) : ∃ key, (key, a) ∈ entries := by
  obtain ⟨e, first, rfl⟩ := Option.map_eq_some_iff.mp found
  exact ⟨e.1, List.mem_of_find?_eq_some first⟩

theorem mem_putName {name : Name} {value : α} {entries : List (Name × α)} {e : Name × α}
    (member : e ∈ putName name value entries) : e = (name, value) ∨ e ∈ entries := by
  induction entries with
  | nil => exact .inl (List.mem_singleton.mp member)
  | cons entry rest ih =>
    rw [putName] at member
    split at member
    · exact (List.mem_cons.mp member).imp_right (List.mem_cons_of_mem _)
    · rcases List.mem_cons.mp member with rfl | member
      · exact .inr List.mem_cons_self
      · exact (ih member).imp_right (List.mem_cons_of_mem _)

theorem lookupName_putName (name other : Name) (v : α) (entries : List (Name × α)) :
    lookupName other (putName name v entries) =
      if other = name then some v else lookupName other entries := by
  induction entries with
  | nil =>
    simp only [putName, lookupName]
    grind
  | cons entry rest ih =>
    rw [putName]
    simp only [lookupName] at ih ⊢
    by_cases same : entry.1 = name <;> by_cases here : other = name <;> grind

theorem map_fst_putName {name : Name} (v : α) {entries : List (Name × α)}
    (known : (lookupName name entries).isSome) :
    (putName name v entries).map (·.1) = entries.map (·.1) := by
  induction entries with
  | nil => cases known
  | cons entry rest ih =>
    rw [putName]
    by_cases same : entry.1 = name
    · simp [same]
    · have deeper : (lookupName name rest).isSome := by
        simpa [lookupName, same] using known
      simp [same, ih deeper]

def Frame.All (P : Value → Prop) (f : Frame) : Prop := ∀ e ∈ f, P e.2

def Dictionary.All (P : Value → Prop) (d : Dictionary) : Prop := ∀ e ∈ d.entries, P e.1 ∧ P e.2

section

variable {P P' : Value → Prop} {f : Frame} {name : Name} {v : Value}

theorem Frame.All.imp (all : f.All P) (implies : ∀ v, P v → P' v) : f.All P' :=
  fun e member => implies _ (all e member)

theorem Frame.All.lookup (all : f.All P) (found : lookupName name f = some v) : P v := by
  obtain ⟨key, member⟩ := mem_of_lookupName found
  exact all _ member

theorem Frame.All.put (all : f.All P) (value : P v) : Frame.All P (putName name v f) := by
  intro e member
  rcases mem_putName member with rfl | member
  · exact value
  · exact all e member

theorem Frame.Carries.lookup (carries : f.Carries p) (found : lookupName name f = some v) :
    p.value v := Frame.All.lookup (P := p.value) carries found

theorem Frame.Carries.put (carries : f.Carries p) (value : p.value v) :
    Frame.Carries p (putName name v f) := Frame.All.put (P := p.value) carries value

end

theorem mem_of_mem_extract {xs : Array α} {a : α} {i j : Nat} (member : a ∈ xs.extract i j) :
    a ∈ xs := by
  obtain ⟨k, bound, rfl⟩ := Array.mem_extract_iff_getElem.mp member
  exact Array.getElem_mem _

namespace ArrayCell

theorem Carries.put {a : ArrayCell} {v : Value} (carries : a.Carries p) (i : Nat)
    (value : p.value v) : (a.put i v).Carries p := by
  intro w member
  rcases Array.mem_or_eq_of_mem_setIfInBounds member with member | rfl
  · exact carries w member
  · exact value

theorem carries_erase (a : ArrayCell) : a.erase.Carries p := by
  intro v member
  exact absurd member (Array.not_mem_empty v)

theorem carries_default : ({} : ArrayCell).Carries p := by
  intro v member
  exact absurd member (Array.not_mem_empty v)

theorem carries_replicate (lower : Int64) (size : Nat) :
    (⟨lower, Array.replicate size .empty⟩ : ArrayCell).Carries p := by
  intro v member
  rw [Array.eq_of_mem_replicate member]
  trivial

end ArrayCell

namespace Heap

theorem running_of_instances {h h' : Heap} (same : h'.instances = h.instances) (cell : Nat) :
    h'.running cell = h.running cell := by
  simp only [running, instance?, same]

theorem Carries.array {h : Heap} {cell : Nat} (carries : h.Carries p) :
    ((h.array? cell).getD {}).Carries p := by
  cases found : h.array? cell with
  | none => exact ArrayCell.carries_default
  | some a => exact carries.arrays cell a found

theorem Carries.field {h : Heap} {cell : Nat} {name : Name} {v : Value} (carries : h.Carries p)
    (found : h.field? cell name = some v) : p.value v := by
  obtain ⟨content, known, found⟩ := Option.bind_eq_some_iff.mp found
  exact (carries.instances cell content known).lookup found

theorem advances_allocArray (h : Heap) {a : ArrayCell} (content : a.Carries p) :
    h.Advances p (h.allocArray a).1 := by
  refine ⟨running_of_instances rfl, fun carries => ⟨?_, carries.instances, carries.dictionaries⟩,
    fun _ cell b found => ?_, .of_instances rfl⟩
  · intro cell b found
    simp only [array?, allocArray, Array.getElem?_push] at found
    split at found
    · exact Option.some.inj found ▸ content
    · exact carries.arrays cell b found
  · obtain ⟨bound, -⟩ := Array.getElem?_eq_some_iff.mp found
    simp only [array?, allocArray, Array.getElem?_push, Nat.ne_of_lt bound, if_false]
    exact found

theorem advances_modifyArray (inPlace : p.inPlace) (h : Heap) (cell : Nat)
    {change : ArrayCell → ArrayCell} (keeps : ∀ a, a.Carries p → (change a).Carries p) :
    h.Advances p (h.modifyArray cell change) := by
  refine ⟨running_of_instances rfl, fun carries => ⟨?_, carries.instances, carries.dictionaries⟩,
    fun calm => absurd inPlace calm, .of_instances rfl⟩
  intro other b found
  simp only [array?, modifyArray, Array.getElem?_modify] at found
  split at found
  · obtain ⟨a, known, rfl⟩ := Option.map_eq_some_iff.mp found
    exact keeps a (carries.arrays _ a known)
  · exact carries.arrays other b found

theorem advances_setArray (inPlace : p.inPlace) (h : Heap) (cell : Nat) {a : ArrayCell}
    (content : a.Carries p) : h.Advances p (h.setArray cell a) := by
  refine ⟨running_of_instances rfl, fun carries => ⟨?_, carries.instances, carries.dictionaries⟩,
    fun calm => absurd inPlace calm, .of_instances rfl⟩
  intro other b found
  simp only [array?, setArray, Array.getElem?_setIfInBounds] at found
  split at found
  · split at found
    · exact Option.some.inj found ▸ content
    · cases found
  · exact carries.arrays other b found

theorem Carries.modifyInstance {h : Heap} (carries : h.Carries p) (cell : Nat)
    {change : InstanceCell → InstanceCell}
    (keeps : ∀ c, Frame.Carries p c.fields → Frame.Carries p (change c).fields) :
    (h.modifyInstance cell change).Carries p := by
  refine ⟨carries.arrays, fun other c found => ?_, carries.dictionaries⟩
  simp only [instance?, Heap.modifyInstance, Array.getElem?_modify] at found
  split at found
  · obtain ⟨c, known, rfl⟩ := Option.map_eq_some_iff.mp found
    exact keeps c (carries.instances _ c known)
  · exact carries.instances other c found

theorem keepsFields_modifyInstance {h : Heap} {cell : Nat} {change : InstanceCell → InstanceCell}
    (names : ∀ c, h.instance? cell = some c →
      (change c).fields.map (·.1) = c.fields.map (·.1)) :
    h.KeepsFields (h.modifyInstance cell change) := by
  intro other c found
  rw [instance?] at found
  rw [instance?, modifyInstance, Array.getElem?_modify, found]
  split
  · subst cell
    exact ⟨change c, rfl, names c found⟩
  · exact ⟨c, rfl, rfl⟩

theorem advances_modifyInstance (h : Heap) (cell : Nat) {change : InstanceCell → InstanceCell}
    (quiet : ∀ c, (change c).running = c.running)
    (keeps : ∀ c, Frame.Carries p c.fields → Frame.Carries p (change c).fields)
    (names : ∀ c, h.instance? cell = some c →
      (change c).fields.map (·.1) = c.fields.map (·.1)) :
    h.Advances p (h.modifyInstance cell change) := by
  refine ⟨fun other => ?_, fun carries => carries.modifyInstance cell keeps, fun _ _ _ => id,
    keepsFields_modifyInstance names⟩
  simp only [running, instance?, modifyInstance, Array.getElem?_modify]
  split
  · cases h.instances[other]? <;> simp [quiet]
  · rfl

theorem advances_setField (h : Heap) (cell : Nat) (name : Name) {v : Value} (value : p.value v) :
    h.Advances p (h.setField cell name v) := by
  rw [setField]
  split
  · rename_i known
    refine advances_modifyInstance h cell (fun _ => rfl) (fun _ fields => fields.put value)
      fun c found => ?_
    rw [field?, found] at known
    exact map_fst_putName v known
  · exact .refl h

theorem field?_setField (h : Heap) (cell cell' : Nat) (name other : Name) (v : Value) :
    (h.setField cell name v).field? cell' other =
      if cell' = cell ∧ other = name ∧ (h.field? cell name).isSome then some v
      else h.field? cell' other := by
  rw [setField]
  split
  · rename_i known
    have modified : (h.modifyInstance cell fun content =>
        { content with fields := putName name v content.fields }).instance? cell' =
        if cell = cell' then (h.instance? cell').map fun content =>
          { content with fields := putName name v content.fields }
        else h.instance? cell' := Array.getElem?_modify
    rw [field?, modified]
    by_cases same : cell = cell'
    · subst same
      cases bound : h.instance? cell with
      | none => simp [field?, bound] at known
      | some content =>
        have named : (lookupName name content.fields).isSome := by simpa [field?, bound] using known
        simp [field?, bound, named, lookupName_putName]
    · rw [if_neg same, if_neg fun all => same all.1.symm, field?]
  · rename_i missing
    exact (if_neg fun same => missing same.2.2).symm

theorem advances_allocInstance (h : Heap) {fields : Frame} (content : fields.Carries p) :
    h.Advances p (h.allocInstance { fields }).1 := by
  refine ⟨fun cell => ?_, fun carries => ⟨carries.arrays, ?_, carries.dictionaries⟩,
    fun _ _ _ => id, fun cell c found => ⟨c, ?_, rfl⟩⟩
  · simp only [running, instance?, allocInstance, Array.getElem?_push]
    split
    · subst cell
      simp
    · rfl
  · intro cell c found
    simp only [instance?, allocInstance, Array.getElem?_push] at found
    split at found
    · exact Option.some.inj found ▸ content
    · exact carries.instances cell c found
  · obtain ⟨bound, -⟩ := Array.getElem?_eq_some_iff.mp found
    simp only [instance?, allocInstance, Array.getElem?_push, Nat.ne_of_lt bound, if_false]
    exact found

theorem advances_freshView (h : Heap) : h.Advances p h.freshView.1 := by
  refine ⟨running_of_instances rfl, fun carries => ?_, fun _ _ _ => id, .of_instances rfl⟩
  exact ⟨carries.arrays, carries.instances, carries.dictionaries⟩

theorem advances_allocDictionary (h : Heap) : h.Advances p h.allocDictionary.1 := by
  refine ⟨running_of_instances rfl, fun carries => ⟨carries.arrays, carries.instances, ?_⟩,
    fun _ _ _ => id, .of_instances rfl⟩
  intro cell d found
  simp only [allocDictionary, Array.getElem?_push] at found
  split at found
  · obtain rfl := Option.some.inj found
    intro e member
    exact absurd member (Array.not_mem_empty e)
  · exact carries.dictionaries cell d found

theorem advances_modifyDictionary (h : Heap) (cell : Nat) {change : Dictionary → Dictionary}
    (keeps : ∀ d, d.Carries p → (change d).Carries p) :
    h.Advances p (h.modifyDictionary cell change) := by
  refine ⟨running_of_instances rfl, fun carries => ⟨carries.arrays, carries.instances, ?_⟩,
    fun _ _ _ => id, .of_instances rfl⟩
  intro other d found
  simp only [modifyDictionary, Array.getElem?_modify] at found
  split at found
  · obtain ⟨d, known, rfl⟩ := Option.map_eq_some_iff.mp found
    exact keeps d (carries.dictionaries _ d known)
  · exact carries.dictionaries other d found

theorem Carries.dictionary {h : Heap} (carries : h.Carries p) (cell : Nat) :
    (h.dictionary cell).Carries p := by
  rw [Heap.dictionary]
  cases found : h.dictionaries[cell]? with
  | none => exact fun e member => absurd member (Array.not_mem_empty e)
  | some d => exact carries.dictionaries cell d found

theorem advances_buildItems {build : Heap → Heap × Value}
    (one : ∀ h, h.Advances p (build h).1 ∧ p.value (build h).2) (n : Nat) (h : Heap)
    (acc : Array Value) (before : ∀ v ∈ acc, p.value v) :
    h.Advances p (buildItems build n h acc).1 ∧
      ∀ v ∈ (buildItems build n h acc).2, p.value v := by
  induction n generalizing h acc with
  | zero => exact ⟨.refl h, before⟩
  | succ n ih =>
    have pushed : ∀ v ∈ acc.push (build h).2, p.value v := by
      intro v member
      rcases Array.mem_push.mp member with member | rfl
      · exact before v member
      · exact (one h).2
    obtain ⟨rest, items⟩ := ih (build h).1 _ pushed
    exact ⟨(one h).1.trans rest, items⟩

theorem advances_withDimensions (lower : Int64) (uppers : List Int64) (h : Heap) :
    h.Advances p (withDimensions lower uppers h).1 ∧
      (withDimensions lower uppers h).2.Carries p := by
  induction uppers generalizing h with
  | nil => exact ⟨.refl h, fun v member => absurd member (Array.not_mem_empty v)⟩
  | cons upper rest ih =>
    cases rest with
    | nil => exact ⟨.refl h, ArrayCell.carries_replicate lower _⟩
    | cons next rest =>
      refine advances_buildItems (fun h => ?_) _ h #[] (by simp)
      exact ⟨(ih h).1.trans (advances_allocArray _ (ih h).2), trivial⟩

theorem advances_setPath (inPlace : p.inPlace) (h : Heap) (cell : Nat) (path : List Int64)
    {v : Value} (value : p.value v) : h.Advances p (h.setPath cell path v).1 := by
  induction path generalizing cell with
  | nil => exact .refl h
  | cons index rest ih =>
    cases rest with
    | nil =>
      rw [setPath]
      split
      · rename_i i _
        exact advances_modifyArray inPlace h cell fun _ content => content.put i value
      · exact .refl h
    | cons next rest =>
      rw [setPath]
      split
      · exact ih _
      · exact .refl h

/-- A copy advances the store and keeps to the policy. The depth bounds the nesting that is
followed; the elements of one array are copied from left to right. -/
theorem advances_copyValue (depth : Nat) (h : Heap) (v : Value) (value : p.value v)
    (carries : h.Carries p) :
    h.Advances p (copyValue depth h v).1 ∧ p.value (copyValue depth h v).2 := by
  induction depth generalizing h v with
  | zero => exact ⟨.refl h, value⟩
  | succ depth ih =>
    cases v with
    | array cell =>
      rw [copyValue]
      split
      · exact ⟨.refl h, trivial⟩
      · rename_i a known
        have content := carries.arrays cell a known
        let step (state : Heap × Array Value) (v : Value) : Heap × Array Value :=
          ((copyValue depth state.1 v).1, state.2.push (copyValue depth state.1 v).2)
        have copied : ∀ (items : List Value) (state : Heap × Array Value),
            (∀ v ∈ items, p.value v) → (∀ v ∈ state.2, p.value v) → state.1.Carries p →
            state.1.Advances p (items.foldl step state).1 ∧
              ∀ v ∈ (items.foldl step state).2, p.value v := by
          intro items
          induction items with
          | nil => exact fun state _ before _ => ⟨.refl _, before⟩
          | cons v rest more =>
            intro state values before carries
            obtain ⟨first, result⟩ := ih state.1 v (values v List.mem_cons_self) carries
            obtain ⟨others, items⟩ := more (step state v)
              (fun w member => values w (List.mem_cons_of_mem v member))
              (by
                intro w member
                rcases Array.mem_push.mp member with member | rfl
                · exact before w member
                · exact result)
              (first.carries carries)
            exact ⟨first.trans others, items⟩
        obtain ⟨moved, items⟩ := copied a.items.toList (h, #[])
          (fun v member => content v (Array.mem_toList_iff.mp member)) (by simp) carries
        rw [Array.foldl_toList] at moved items
        exact ⟨moved.trans (advances_allocArray _ items), trivial⟩
    | _ => exact ⟨.refl h, value⟩

theorem advances_deepCopy (h : Heap) (v : Value) (value : p.value v) (carries : h.Carries p) :
    h.Advances p (h.deepCopy v).1 ∧ p.value (h.deepCopy v).2 := by
  cases v with
  | array cell => exact advances_copyValue _ h _ value carries
  | _ => exact ⟨.refl h, value⟩

theorem advances_buildArray {lower : Int64} {uppers : List Int64} {h : Heap}
    {result : Heap × ArrayCell} (built : buildArray lower uppers h = .ok result) :
    h.Advances p result.1 ∧ result.2.Carries p := by
  rw [buildArray] at built
  split at built
  · cases built
  · obtain rfl := Except.ok.inj built
    exact advances_withDimensions lower uppers h

theorem advances_resizePreserve (inPlace : p.inPlace) (depth : Nat) {h : Heap} {old : ArrayCell}
    {uppers : List Int64} {result : Heap × ArrayCell} (carries : h.Carries p)
    (content : old.Carries p)
    (resized : resizePreserve depth h old uppers = .ok result) :
    h.Advances p result.1 ∧ result.2.Carries p := by
  induction depth generalizing h old uppers result with
  | zero =>
    obtain rfl := Except.ok.inj resized
    exact ⟨.refl h, content⟩
  | succ depth ih =>
    rw [resizePreserve] at resized
    obtain ⟨⟨h₁, blank⟩, built, resized⟩ := exists_of_bind_eq_ok resized
    obtain ⟨grown, empty⟩ := advances_buildArray (p := p) built
    have finish : ∀ state : Heap × Array Value, h₁.Advances p state.1 →
        (∀ v ∈ state.2, p.value v) →
        (state.1, ({ blank with
          items := state.2 ++ blank.items.extract state.2.size blank.items.size } : ArrayCell)) =
          result →
        h.Advances p result.1 ∧ result.2.Carries p := by
      rintro state moved values rfl
      refine ⟨grown.trans moved, ?_⟩
      intro v member
      rcases Array.mem_append.mp member with member | member
      · exact values v member
      · exact empty v (mem_of_mem_extract member)
    dsimp only at resized
    split at resized
    · exact finish (h₁, _) (.refl h₁) (fun v member => content v (mem_of_mem_extract member))
        (Except.ok.inj resized)
    · obtain ⟨state, merged, resized⟩ := exists_of_bind_eq_ok resized
      suffices kept : h₁.Advances p state.1 ∧ state.1.Carries p ∧ ∀ v ∈ state.2, p.value v from
        finish state kept.1 kept.2.2 (Except.ok.inj resized)
      refine foldlM_keeps (I := fun state : Heap × Array Value =>
        h₁.Advances p state.1 ∧ state.1.Carries p ∧ ∀ v ∈ state.2, p.value v) ?_
        ⟨.refl h₁, grown.carries carries, by simp⟩ merged
      rintro ⟨g, acc⟩ ⟨new, kept⟩ after pair ⟨moved, carries, before⟩ step
      have value := content kept (Array.mem_toList_iff.mp (List.of_mem_zip pair).2)
      have pushed : ∀ w, p.value w → ∀ v ∈ acc.push w, p.value v := by
        intro w value v member
        rcases Array.mem_push.mp member with member | rfl
        · exact before v member
        · exact value
      dsimp only at step
      split at step
      · rename_i place source same
        split at step
        · obtain rfl := Except.ok.inj step
          exact ⟨moved, carries, pushed _ trivial⟩
        · rename_i row known
          obtain ⟨⟨g', row'⟩, inner, step⟩ := exists_of_bind_eq_ok step
          obtain rfl := Except.ok.inj step
          obtain ⟨further, content⟩ := ih carries (carries.arrays _ row known) inner
          have placed := advances_setArray inPlace g' place content
          exact ⟨(moved.trans further).trans placed, placed.carries (further.carries carries),
            pushed _ trivial⟩
      · rename_i same
        obtain rfl := Except.ok.inj step
        obtain ⟨-, rfl⟩ := Prod.mk.inj same
        exact ⟨moved, carries, pushed _ value⟩

mutual

theorem advances_toValue (h : Heap) : ∀ v : SharedValue,
    h.Advances p (SharedValue.toValue h v).1 ∧ p.value (SharedValue.toValue h v).2
  | .empty | .null | .bool _ | .integer _ | .float _ | .string _ => by
    simp only [SharedValue.toValue]
    exact ⟨.refl h, trivial⟩
  | .array lower items => by
    simp only [SharedValue.toValue]
    obtain ⟨moved, values⟩ := advances_toValues h items #[] (by simp)
    exact ⟨moved.trans (advances_allocArray _ values), trivial⟩

theorem advances_toValues (h : Heap) : ∀ (items : List SharedValue) (acc : Array Value),
    (∀ v ∈ acc, p.value v) →
    h.Advances p (SharedValue.toValues h items acc).1 ∧
      ∀ v ∈ (SharedValue.toValues h items acc).2, p.value v
  | [], acc, before => by
    simp only [SharedValue.toValues]
    exact ⟨.refl h, before⟩
  | item :: rest, acc, before => by
    simp only [SharedValue.toValues]
    obtain ⟨first, value⟩ := advances_toValue h item
    have pushed : ∀ v ∈ acc.push (SharedValue.toValue h item).2, p.value v := by
      intro v member
      rcases Array.mem_push.mp member with member | rfl
      · exact before v member
      · exact value
    obtain ⟨others, values⟩ := advances_toValues (SharedValue.toValue h item).1 rest _ pushed
    exact ⟨first.trans others, values⟩

end

end Heap

namespace Dictionary

variable {P : Value → Prop} {d : Dictionary} {key v : Value}

theorem All.push (all : d.All P) (keyValue : P key) (itemValue : P v) :
    (d.push key v).All P := by
  intro e member
  rcases Array.mem_push.mp member with member | rfl
  · exact all e member
  · exact ⟨keyValue, itemValue⟩

theorem All.insert (all : d.All P) (keyValue : P key) (itemValue : P v) :
    (d.insert key v).All P := by
  rw [Dictionary.insert]
  split
  · rename_i i _
    intro e member
    obtain ⟨j, found⟩ := Array.mem_iff_getElem?.mp member
    rw [Array.getElem?_modify] at found
    split at found
    · obtain ⟨old, known, rfl⟩ := Option.map_eq_some_iff.mp found
      exact ⟨(all old (Array.mem_of_getElem? known)).1, itemValue⟩
    · exact all e (Array.mem_of_getElem? found)
  · exact all.push keyValue itemValue

theorem All.remove (all : d.All P) (key : Value) : (d.remove key).All P := by
  rw [Dictionary.remove]
  split
  · intro e member
    dsimp only at member
    rw [Array.eraseIdxIfInBounds_eq] at member
    split at member
    · exact all e (Array.mem_of_mem_eraseIdx member)
    · exact all e member
  · exact all

theorem all_clear (d : Dictionary) : d.clear.All P := by
  intro e member
  exact absurd member (Array.not_mem_empty e)

theorem All.item (all : d.All P) (empty : P .empty) (key : Value) : P (d.item key) := by
  rw [Dictionary.item]
  cases found : ((d.position? key).bind fun i => d.entries[i]?) with
  | none => exact empty
  | some e =>
    obtain ⟨i, -, known⟩ := Option.bind_eq_some_iff.mp found
    exact (all e (Array.mem_of_getElem? known)).2

theorem All.keys (all : d.All P) : ∀ v ∈ d.keys, P v := by
  intro v member
  obtain ⟨e, inside, rfl⟩ := List.mem_map.mp member
  exact (all e (Array.mem_toList_iff.mp inside)).1

theorem All.items (all : d.All P) : ∀ v ∈ d.items, P v := by
  intro v member
  obtain ⟨e, inside, rfl⟩ := List.mem_map.mp member
  exact (all e (Array.mem_toList_iff.mp inside)).2

def Indexed (d : Dictionary) : Prop :=
  ∀ (key : DictionaryKey) (i : Nat), d.index[key]? = some i → i < d.entries.size

theorem Indexed.push (indexed : d.Indexed) (key item : Value) : (d.push key item).Indexed := by
  intro k i found
  simp only [Dictionary.push, Std.HashMap.getElem?_insert, Array.size_push] at found ⊢
  split at found
  · cases found
    exact Nat.lt_succ_self _
  · exact Nat.lt_succ_of_lt (indexed k i found)

theorem Indexed.insert (indexed : d.Indexed) (key item : Value) : (d.insert key item).Indexed := by
  rw [Dictionary.insert]
  split
  · intro k i found
    rw [Array.size_modify]
    exact indexed k i found
  · exact indexed.push key item

theorem lt_of_numbered (mode : CompareMode) (entries : List (Value × Value))
    {index : Std.HashMap DictionaryKey Nat} {n : Nat}
    (bound : ∀ (key : DictionaryKey) (i : Nat), index[key]? = some i → i < n) {key : DictionaryKey}
    {i : Nat} (found : (entries.foldl (fun (state : Std.HashMap DictionaryKey Nat × Nat) e =>
      (state.1.insert (keyOf mode e.1) state.2, state.2 + 1)) (index, n)).1[key]? = some i) :
    i < n + entries.length := by
  induction entries generalizing index n with
  | nil => exact bound key i found
  | cons e rest ih =>
    have step := ih (fun key i found => ?_) found
    · rw [List.length_cons]
      omega
    · rw [Std.HashMap.getElem?_insert] at found
      split at found
      · cases found
        exact Nat.lt_succ_self n
      · exact Nat.lt_succ_of_lt (bound key i found)

theorem indexOf_lt (mode : CompareMode) (entries : Array (Value × Value)) {key : DictionaryKey}
    {i : Nat} (found : (indexOf mode entries)[key]? = some i) : i < entries.size := by
  rw [indexOf, ← Array.foldl_toList] at found
  have bound := lt_of_numbered mode entries.toList (fun key i found => by simp at found) found
  simpa using bound

theorem Indexed.remove (indexed : d.Indexed) (key : Value) : (d.remove key).Indexed := by
  rw [Dictionary.remove]
  split
  · exact fun _ _ found => indexOf_lt _ _ found
  · exact indexed

theorem indexed_clear (d : Dictionary) : d.clear.Indexed := by
  intro k i found
  simp [clear] at found

theorem Indexed.item_insert (indexed : d.Indexed) (key v : Value) :
    (d.insert key v).item key = v := by
  rw [Dictionary.insert]
  split
  · rename_i i found
    have inside := indexed _ i found
    rw [position?] at found
    simp [Dictionary.item, position?, found, inside, Array.getElem_modify]
  · simp [Dictionary.item, Dictionary.push, position?]

end Dictionary
end ServerScript
