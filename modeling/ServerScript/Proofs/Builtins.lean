import ServerScript.Proofs.Walks
import ServerScript.Eval.Interpreter

/-! Built-in functions and the members of built-in objects under a walk. They work on the store and
the world outside only. What they answer refers to nothing, was among their arguments, is held by a
dictionary or comes from the embedding program, or it is made of new cells. -/
namespace ServerScript

variable {ι : Type} {p : Policy} {T : ValueRealm p}

namespace Function

def Builtin.Serves (J : BuiltinWalk ι T) (f : Builtin) : Prop :=
  ∀ r w args, (∀ v ∈ args, T.value r w v) → J.holds r w (T.value r) fun _ => f.run args

end Function

/-- The members of an object read, answer and list values that may be used. -/
structure Members.Serves (J : BuiltinWalk ι T) (object : Members) : Prop where
  read : ∀ {r w} name, J.holds r w (T.value r) fun _ => object.read name
  write : ∀ {r w v} name, T.value r w v →
    J.holds r w (fun _ _ => True) fun _ => object.write name v
  call : ∀ {r w args} name, (∀ v ∈ args, T.value r w v) →
    J.holds r w (T.value r) fun _ => object.call name args
  writeItem : ∀ {r w args v}, (∀ a ∈ args, T.value r w a) → T.value r w v →
    J.holds r w (fun _ _ => True) fun _ => object.writeItem args v
  entries : ∀ {r w}, J.holds r w
    (fun w' found => ∀ items, found = some items → ∀ v ∈ items, T.value r w' v) fun _ =>
      object.entries

theorem Value.simple_elim (found : Option α) {f : α → Value} (simple : ∀ a, (f a).Simple) :
    (found.elim .empty f).Simple := by
  cases found with
  | none => trivial
  | some a => exact simple a

namespace BuiltinWalk

variable (J : BuiltinWalk ι T) {r : T.Reserve} {w : T.World}

theorem answer {v : Value} (simple : v.Simple) : J.holds r w (T.value r) fun _ => pure v :=
  J.pure fun _ _ => T.simple simple

theorem object (ref : ObjectRef) : J.holds r w (T.value r) fun _ => pure (.object ref) :=
  J.pure fun _ _ => T.object

theorem answerElim (found : Option α) {f : α → Value} (simple : ∀ a, (f a).Simple) :
    J.holds r w (T.value r) fun _ => pure (found.elim .empty f) :=
  J.answer (Value.simple_elim found simple)

theorem answerFault {result : Except Fault α} {f : α → Value} (simple : ∀ a, (f a).Simple) :
    J.holds r w (T.value r) fun _ => Run.ofFault (result.map f) := by
  cases result with
  | error fault => exact J.throw nofun
  | ok a => exact J.answer (simple a)

theorem answerEmpty {act : Run Unit} (holds : J.holds r w (fun _ _ => True) fun _ => act) :
    J.holds r w (T.value r) fun _ => Members.answerEmpty act :=
  J.map holds fun _ _ _ _ _ => T.empty

theorem newArray_map {f : α → Value} (simple : ∀ a, (f a).Simple) (items : List α) :
    J.holds r w (T.value r) fun _ => Run.newArray (items.map f) := by
  refine J.newArray fun v member => ?_
  obtain ⟨a, -, rfl⟩ := List.mem_map.mp member
  exact T.simple (simple a)

theorem noEntries : J.holds r w
    (fun w' found => ∀ items, found = some items → ∀ v ∈ items, T.value r w' v)
    fun _ => (Pure.pure none : Run (Option (List Value))) := J.pure nofun

theorem entries {items : List Value} (usable : ∀ v ∈ items, T.value r w v) : J.holds r w
    (fun w' found => ∀ items, found = some items → ∀ v ∈ items, T.value r w' v)
    fun _ => (Pure.pure (some items) : Run (Option (List Value))) := by
  refine J.pure fun w' le items' same => ?_
  exact Option.some.inj same ▸ T.monos usable le

theorem entries_map {f : α → Value} (simple : ∀ a, (f a).Simple) (items : List α) : J.holds r w
    (fun w' found => ∀ items, found = some items → ∀ v ∈ items, T.value r w' v)
    fun _ => (Pure.pure (some (items.map f)) : Run (Option (List Value))) := by
  refine J.entries fun v member => ?_
  obtain ⟨a, -, rfl⟩ := List.mem_map.mp member
  exact T.simple (simple a)

theorem ofFault (result : Except Fault α) :
    J.holds r w (fun _ _ => True) fun _ => Run.ofFault result := by
  cases result with
  | error fault => exact J.throw nofun
  | ok a => exact J.done

theorem modifyResponse (f : Response → Response) :
    J.holds r w (fun _ _ => True) fun _ => Members.modifyResponse f :=
  J.modifySite fun _ => .of_same rfl rfl rfl

theorem modifySession {f : Session → Session} (keeps : ∀ s : Session, (f s).isNew = s.isNew) :
    J.holds r w (fun _ _ => True) fun _ => Members.modifySession f := by
  refine J.modifySite fun s => .of_same rfl rfl ?_
  rw [Option.map_map]
  exact congrArg (s.session.map ·) (funext keeps)

theorem requestHalt (reason : Halt) :
    J.holds r w (fun _ _ => True) fun _ => Run.modifyControl (·.requestHalt reason) :=
  J.modifyControl (.requestHalt · reason) fun _ => Nat.le_refl _

end BuiltinWalk

theorem ValueRealm.arg {r : T.Reserve} {w : T.World} {args : List Value}
    (given : ∀ v ∈ args, T.value r w v) (index : Nat) : T.value r w (Value.arg args index) := by
  rw [Value.arg, List.getD]
  cases found : args[index]? with
  | none => exact T.empty
  | some v => exact given v (List.mem_of_getElem? found)

namespace Function

variable {J : BuiltinWalk ι T} {r : T.Reserve} {w : T.World}

theorem serves_entry {name : String} {arity : Arity} {run : List Value → Run Value}
    (serves : ∀ r w args, (∀ v ∈ args, T.value r w v) →
      J.holds r w (T.value r) fun _ => run args) : Builtin.Serves J ⟨name, arity, run⟩ := serves

theorem Answers.serves {f : List Value → Answer} (answers : Answers p f) (name : String)
    (arity : Arity) : (Builtin.ofAnswer name arity f).Serves J := by
  intro r w args given
  change J.holds r w (T.value r) fun _ => Run.ofStop (f args)
  have ends := answers args
  cases done : f args with
  | ok v =>
    rw [done] at ends
    exact J.answer ends
  | error s =>
    rw [done] at ends
    exact J.throw ends

theorem serves_ofValue (name : String) {f : Value → Value} (simple : ∀ v, (f v).Simple) :
    (Builtin.ofValue name f).Serves J := fun _ _ _ _ => J.answer (simple _)

theorem serves_clockFunction (name : String) {f : ClockReading → Value}
    (simple : ∀ clock, (f clock).Simple) : (clockFunction name f).Serves J := by
  intro r w args host
  refine J.look (fun m limit => rfl) fun m w' le supplies => ?_
  exact J.answer (simple _)

theorem serves_dateFunctions : ∀ f ∈ dateFunctions, f.Serves J := by
  simp only [dateFunctions, List.forall_mem_cons]
  exact ⟨serves_clockFunction _ fun _ => trivial, serves_clockFunction _ fun _ => trivial,
    serves_clockFunction _ fun _ => trivial, serves_clockFunction _ fun _ => trivial,
    (answers_component _ _).serves _ _, (answers_component _ _).serves _ _,
    (answers_component _ _).serves _ _, (answers_component _ _).serves _ _,
    (answers_component _ _).serves _ _, (answers_component _ _).serves _ _,
    answers_weekday.serves _ _, answers_weekdayName.serves _ _, answers_monthName.serves _ _,
    answers_dateSerial.serves _ _, answers_timeSerial.serves _ _, answers_dateAdd.serves _ _,
    answers_dateDiff.serves _ _, answers_datePart.serves _ _, serves_ofValue _ fun _ => trivial,
    answers_formatDateTime.serves _ _, answers_cDate.serves _ _, nofun⟩

theorem serves_numberFunctions : ∀ f ∈ numberFunctions, f.Serves J := by
  simp only [numberFunctions, List.forall_mem_cons]
  exact ⟨answers_cStr.serves _ _, (answers_toRange _ _ _).serves _ _,
    (answers_toRange _ _ _).serves _ _, (answers_toRange _ _ _).serves _ _,
    (answers_toDouble _).serves _ _, (answers_toDouble _).serves _ _, answers_cBool.serves _ _,
    (answers_inRadix _).serves _ _, (answers_inRadix _).serves _ _,
    (answers_onFloat _).serves _ _, (answers_onFloat _).serves _ _, answers_abs.serves _ _,
    answers_sgn.serves _ _, answers_round.serves _ _, answers_sqr.serves _ _,
    answers_formatNumber.serves _ _, nofun⟩

theorem walk_itemsArg (args : List Value) (name : String) :
    J.holds r w (fun _ _ => True) fun _ => itemsArg args name := by
  rw [itemsArg]
  split
  · exact J.look (fun _ _ => rfl) fun m w' le supplies => J.done
  · exact J.error _

theorem serves_textFunctions : ∀ f ∈ textFunctions, f.Serves J := by
  simp only [textFunctions, List.forall_mem_cons]
  refine ⟨answers_len.serves _ _, answers_left.serves _ _, answers_right.serves _ _,
    answers_mid.serves _ _, (answers_onText _).serves _ _, (answers_onText _).serves _ _,
    (answers_onText _).serves _ _, (answers_onText _).serves _ _, (answers_onText _).serves _ _,
    answers_inStr.serves _ _, answers_inStrRev.serves _ _, answers_replace.serves _ _,
    ?split, ?join, (answers_onText _).serves _ _, answers_space.serves _ _,
    answers_string.serves _ _, answers_strComp.serves _ _, answers_asc.serves _ _,
    answers_chr.serves _ _, nofun⟩
  case split =>
    intro r w args given
    exact J.newArray_map (f := ofChars) (fun _ => trivial) _
  case join =>
    intro r w args given
    exact J.map (walk_itemsArg _ _) fun w' items le _ _ => T.simple trivial

theorem walk_boundsArg (args : List Value) (name : String) :
    J.holds r w (fun _ _ => True) fun _ => boundsArg args name := by
  refine J.bind (walk_itemsArg args name) fun w₁ le₁ a _ => ?_
  refine J.look (fun _ _ => rfl) fun m w₂ le₂ supplies => ?_
  refine J.bind (J.ofFault _) fun w₃ le₃ bounds _ => ?_
  cases bounds with
  | none => exact J.error _
  | some pair => exact J.done

theorem walk_createObject (progId : String) :
    J.holds r w (T.value r) fun _ => createObject progId := by
  refine J.ite (fun known => ?_) fun unknown => J.error _
  exact J.map J.allocDictionary fun _ _ _ _ _ => T.object

theorem serves_inspectionFunctions : ∀ f ∈ inspectionFunctions, f.Serves J := by
  simp only [inspectionFunctions, List.forall_mem_cons]
  refine ⟨serves_ofValue _ fun _ => trivial, serves_ofValue _ fun _ => trivial,
    serves_ofValue _ fun _ => trivial, serves_ofValue _ fun _ => trivial,
    serves_ofValue _ fun _ => trivial, serves_ofValue _ fun _ => trivial,
    serves_ofValue _ fun _ => trivial, ?uBound, ?lBound, ?array, ?filter,
    serves_entry fun _ _ args _ => walk_createObject (textArg args 0), nofun⟩
  case uBound | lBound =>
    intro r w args given
    exact J.map (walk_boundsArg _ _) fun w' bounds le _ _ => T.simple trivial
  case array => exact fun r w args given => J.newArray given
  case filter =>
    intro r w args given
    refine J.bind (walk_itemsArg _ _) fun w' le items _ => ?_
    exact J.newArray_map (f := .string) (fun _ => trivial) _

theorem serves_builtins : ∀ f ∈ builtins, f.Serves J := by
  simp only [builtins, List.forall_mem_append]
  exact ⟨⟨⟨serves_dateFunctions, serves_textFunctions⟩, serves_numberFunctions⟩,
    serves_inspectionFunctions⟩

theorem walk_call? (name : String) {args : List Value} (given : ∀ v ∈ args, T.value r w v) :
    J.holds r w (fun w' found => ∀ v, found = some v → T.value r w' v) fun _ =>
      call? name args := by
  have answer {w : T.World} {act : Run Value} (holds : J.holds r w (T.value r) fun _ => act) :
      J.holds r w (fun w' found => ∀ v, found = some v → T.value r w' v) fun _ => do
        return some (← act) := by
    refine J.map holds fun w' v usable w'' le u same => ?_
    exact Option.some.inj same ▸ T.mono usable le
  rw [call?]
  split
  next f found =>
    refine J.ite (fun _ => answer ?_) fun _ => J.error _
    exact serves_builtins f (List.mem_of_find?_eq_some found) r w args given
  next =>
    refine J.look (fun _ _ => rfl) fun m w' le supplies => ?_
    split
    next f found =>
      have native := supplies.natives f (List.mem_of_find?_eq_some found) args (T.monos given le)
      refine answer ?_
      cases done : f.run args with
      | ok v =>
        rw [done] at native
        exact J.pure fun w'' le' => T.mono native le'
      | error s =>
        rw [done] at native
        exact J.throw native
    next => exact J.pure nofun

end Function

namespace Members

variable {J : BuiltinWalk ι T} {r : T.Reserve} {w : T.World}

theorem walk_changeDictionary (cell : Nat) (error? : Option EvalError)
    {change : Dictionary → Dictionary}
    (keeps : ∀ d w', w ≤ w' → d.All (T.value r w') → (change d).All (T.value r w'))
    (indexes : ∀ d, d.Indexed → (change d).Indexed) :
    J.holds r w (fun _ _ => True) fun _ => changeDictionary cell error? change := by
  cases error? with
  | some e => exact J.error e
  | none => exact J.modifyDictionary cell keeps indexes

theorem simple_modeNumber (mode : CompareMode) : (modeNumber mode).Simple := by
  cases mode <;> trivial

theorem serves_dictionary (cell : Nat) : (dictionary cell).Serves J where
  read {r w} name := by
    refine J.look (fun _ _ => rfl) fun m w' le supplies => ?_
    have content := supplies.dictionaries cell
    split
    · exact J.answer trivial
    · exact J.answer (simple_modeNumber _)
    · exact J.newArray content.keys
    · exact J.newArray content.items
    · exact J.error _
  write {r w v} name _ := by
    refine J.look (fun _ _ => rfl) fun m w' le supplies => ?_
    split
    · exact walk_changeDictionary cell _ (fun _ _ _ content => content) fun _ indexed => indexed
    · exact J.error _
  call {r w args} name given := by
    refine J.look (fun _ _ => rfl) fun m w' le supplies => ?_
    have content := supplies.dictionaries cell
    have item (key : Value) :
        J.holds r w' (T.value r) fun _ => pure ((m.heap.dictionary cell).item key) :=
      J.pure fun w'' le' => T.mono (content.item T.empty key) le'
    split
    · refine J.answerEmpty (walk_changeDictionary cell _ (fun d w'' le' content => ?_)
        fun _ indexed => indexed.push _ _)
      have given := T.monos given (le_trans le le')
      exact content.push (T.arg given 0) (T.arg given 1)
    · exact J.answer trivial
    · exact item _
    · exact item _
    · exact J.answerEmpty (walk_changeDictionary cell _ (fun _ _ _ content => content.remove _)
        fun _ indexed => indexed.remove _)
    · exact J.answerEmpty (walk_changeDictionary cell _ (fun d _ _ _ => d.all_clear)
        fun d _ => d.indexed_clear)
    · exact J.newArray content.keys
    · exact J.newArray content.items
    · exact J.answer trivial
    · exact J.error _
  writeItem {r w args v} given usable := by
    dsimp only [dictionary]
    refine walk_changeDictionary cell _ (fun d w' le content => ?_) fun _ indexed =>
      indexed.insert _ _
    exact content.insert (T.mono (T.arg given 0) le) (T.mono usable le)
  entries {r w} := by
    refine J.look (fun _ _ => rfl) fun m w' le supplies => ?_
    exact J.entries (supplies.dictionaries cell).keys

theorem serves_err : err.Serves J where
  read {r w} name := by
    refine J.look (fun _ _ => rfl) fun m w' le supplies => ?_
    split
    all_goals first | exact J.answer trivial | exact J.error _
  write {r w v} name _ := by
    dsimp only [err]
    split
    all_goals first | exact J.modifyErr _ | exact J.error _
  call {r w args} name _ := by
    dsimp only [err]
    split
    · exact J.answerEmpty (J.modifyErr _)
    · exact J.error _
    · exact J.look (fun _ _ => rfl) fun m w' le supplies => J.answer trivial
    · exact J.error _
  writeItem _ _ := J.error _
  entries := J.noEntries

theorem walk_collectionCall (c : Collection) (name : String) (args : List Value) :
    J.holds r w (T.value r) fun _ => collectionCall c name args := by
  unfold collectionCall
  split
  · exact J.answerFault fun found => Value.simple_elim found fun _ => trivial
  · exact J.answerFault fun found => Value.simple_elim found fun _ => trivial
  · exact J.answerFault fun position => Value.simple_elim _ fun _ => trivial
  · exact J.answer trivial
  · exact J.error _

theorem serves_collection (c : Collection) : (collection c).Serves J where
  read {r w} name := by
    dsimp only [collection]
    split
    · exact J.answer trivial
    · exact J.error _
  write _ _ := J.error _
  call name _ := walk_collectionCall c name _
  writeItem _ _ := J.error _
  entries := J.entries_map (fun e : String × List String => by trivial) _

theorem walk_requestRead (name : String) :
    J.holds r w (T.value r) fun _ => requestRead name := by
  refine J.look (fun _ _ => rfl) fun m w' le supplies => ?_
  dsimp only
  cases m.site.request.collection? name with
  | some found => exact J.object _
  | none =>
    dsimp only
    split
    · exact J.answer trivial
    · exact J.error _

theorem serves_request : request.Serves J where
  read name := walk_requestRead name
  write _ _ := J.error _
  call {r w args} name _ := by
    refine J.look (fun _ _ => rfl) fun m w' le supplies => ?_
    dsimp only
    cases m.site.request.collection? name with
    | some found =>
      exact J.ite (fun _ => walk_requestRead _) fun _ => walk_collectionCall _ _ _
    | none =>
      dsimp only
      split
      · exact J.answerElim _ fun _ => trivial
      · exact J.answerElim _ fun _ => trivial
      · exact walk_requestRead _
      · exact J.error _
  writeItem _ _ := J.error _
  entries := J.noEntries

theorem walk_cookieItem (args : List Value) :
    J.holds r w (T.value r) fun _ => cookieItem args := by
  refine J.look (fun _ _ => rfl) fun m w' le supplies => ?_
  exact J.answerElim _ fun _ => trivial

theorem serves_cookies : cookies.Serves J where
  read {r w} name := by
    dsimp only [cookies]
    split
    · exact J.look (fun _ _ => rfl) fun m w' le supplies => J.answer trivial
    · exact J.error _
  write _ _ := J.error _
  call {r w args} name _ := by
    dsimp only [cookies]
    split
    · exact walk_cookieItem _
    · exact walk_cookieItem _
    · exact J.look (fun _ _ => rfl) fun m w' le supplies => J.answer trivial
    · exact J.error _
  writeItem {r w args v} _ _ := by
    dsimp only [cookies]
    exact J.modifyResponse _
  entries {r w} := by
    refine J.look (fun _ _ => rfl) fun m w' le supplies => ?_
    exact J.entries_map (fun pair : String × String => by trivial) _

theorem walk_responseRead (name : String) :
    J.holds r w (T.value r) fun _ => responseRead name := by
  refine J.look (fun _ _ => rfl) fun m w' le supplies => ?_
  split
  · exact J.answer trivial
  · exact J.answerElim _ fun _ => trivial
  · exact J.answer trivial
  · exact J.answer trivial
  · exact J.answerElim _ fun _ => trivial
  · exact J.map J.freshView fun _ _ _ _ _ => T.object
  · exact J.answer trivial
  · exact J.error _

theorem serves_response : response.Serves J where
  read name := walk_responseRead name
  write {r w v} name _ := by
    dsimp only [response]
    split
    all_goals first | exact J.modifyResponse _ | exact J.error _
  call {r w args} name _ := by
    dsimp only [response]
    split
    · exact J.answerEmpty (J.modifyResponse _)
    · exact J.answerEmpty (J.modifyResponse _)
    · exact J.answerEmpty (J.requestHalt _)
    · exact J.answerEmpty (J.bind (J.modifyResponse _) fun _ _ _ _ => J.requestHalt _)
    · exact J.answerEmpty (J.modifyResponse _)
    · exact J.answer trivial
    · exact J.answerEmpty (J.modifyResponse _)
    · exact J.answerEmpty (J.modifyResponse _)
    · exact J.ite (fun _ => walk_responseRead _) fun _ => walk_cookieItem _
    · exact walk_responseRead _
  writeItem _ _ := J.error _
  entries := J.noEntries

theorem walk_scriptTimeout : J.holds r w (T.value r) fun _ => scriptTimeout := by
  refine J.look (fun _ _ => rfl) fun m w' le supplies => ?_
  exact J.answerElim _ fun _ => trivial

theorem serves_server : server.Serves J where
  read {r w} name := by
    dsimp only [server]
    split
    · exact walk_scriptTimeout
    · exact J.error _
  write {r w v} name _ := by
    dsimp only [server]
    split
    · refine J.ite (fun _ => ?_) fun _ => J.error _
      exact J.modifyControl (fun _ _ => id) fun _ => Nat.le_refl _
    · exact J.error _
  call {r w args} name _ := by
    dsimp only [server]
    split
    · exact Function.walk_createObject _
    · exact J.answer trivial
    · exact J.answer trivial
    · exact J.answer trivial
    · exact J.look (fun _ _ => rfl) fun m w' le supplies => J.answer trivial
    · exact walk_scriptTimeout
    · exact J.error _
  writeItem _ _ := J.error _
  entries := J.noEntries

theorem walk_currentSession : J.holds r w (fun _ _ => True) fun _ => currentSession :=
  J.look (fun _ _ => rfl) fun _ _ _ _ => J.done

theorem walk_sharedItem (c : Contents) (key : Value) :
    J.holds r w (T.value r) fun _ => sharedItem c key := by
  refine J.bind (J.ofFault _) fun w' le found _ => ?_
  cases found with
  | none => exact J.answer trivial
  | some v => exact J.toValue v

theorem walk_toShared (v : Value) : J.holds r w (fun _ _ => True) fun _ => toShared v := by
  refine J.look (fun _ _ => rfl) fun m w' le supplies => ?_
  exact J.checked

theorem walk_sessionRead (name : String) :
    J.holds r w (T.value r) fun _ => sessionRead name := by
  refine J.bind walk_currentSession fun w' le s _ => ?_
  split
  · exact J.answer trivial
  · exact J.answer trivial
  · exact J.answer trivial
  · exact J.map J.freshView fun _ _ _ _ _ => T.object
  · exact J.error _

theorem serves_session : session.Serves J where
  read name := walk_sessionRead name
  write {r w v} name _ := by
    dsimp only [session]
    split
    · exact J.ite (fun _ => J.modifySession fun _ => rfl) fun _ => J.error _
    · exact J.error _
  call {r w args} name _ := by
    have item (key : Value) : J.holds r w (T.value r) (fun _ => do
        sharedItem (← currentSession).contents key) :=
      J.bind walk_currentSession fun _ _ _ _ => walk_sharedItem _ _
    dsimp only [session]
    split
    · exact J.answerEmpty (J.modifySession fun _ => rfl)
    · exact J.ite (fun _ => walk_sessionRead _) fun _ => item _
    · exact item _
    · exact item _
    · exact J.answerEmpty (J.modifySession fun _ => rfl)
    · exact J.answerEmpty (J.modifySession fun _ => rfl)
    · exact walk_sessionRead _
    · exact walk_sessionRead _
    · exact walk_sessionRead _
    · exact J.error _
  writeItem {r w args v} _ _ := by
    refine J.bind (walk_toShared v) fun w' le shared _ => ?_
    exact J.modifySession fun _ => rfl
  entries {r w} := by
    refine J.bind walk_currentSession fun w' le s _ => ?_
    exact J.entries_map (f := .string) (fun _ => trivial) _

theorem walk_applicationRead (name : String) :
    J.holds r w (T.value r) fun _ => applicationRead name := by
  unfold applicationRead
  split
  · exact J.map J.freshView fun _ _ _ _ _ => T.object
  · exact J.look (fun _ _ => rfl) fun m w' le supplies => J.answer trivial
  · exact J.error _

theorem serves_application : application.Serves J where
  read name := walk_applicationRead name
  write _ _ := J.error _
  call {r w args} name _ := by
    -- The calls of the application name the request that is found at the start.
    refine J.lookAt (fun _ _ => rfl) fun m w' le supplies => ?_
    split
    · exact ⟨_, J.answerEmpty (J.perform .lock), fun _ => rfl⟩
    · refine ⟨_, J.answerEmpty (J.modifySite ?_), fun _ => rfl⟩
      exact fun _ => ⟨rfl, ⟨[.unlock], rfl⟩, rfl⟩
    · exact ⟨_, J.ite (fun _ => walk_applicationRead _) fun _ => walk_sharedItem _ _,
        fun _ => rfl⟩
    · exact ⟨_, walk_sharedItem _ _, fun _ => rfl⟩
    · exact ⟨_, walk_sharedItem _ _, fun _ => rfl⟩
    · exact ⟨_, J.answerEmpty (J.perform (.remove _)), fun _ => rfl⟩
    · exact ⟨_, J.answerEmpty (J.perform .clear), fun _ => rfl⟩
    · exact ⟨_, walk_applicationRead _, fun _ => rfl⟩
    · exact ⟨_, J.error _, fun _ => rfl⟩
  writeItem {r w args v} _ _ := by
    refine J.bind (walk_toShared v) fun w' le shared _ => ?_
    exact J.perform (.set _ _)
  entries {r w} := by
    refine J.look (fun _ _ => rfl) fun m w' le supplies => ?_
    exact J.entries_map (f := .string) (fun _ => trivial) _

end Members

theorem ObjectRef.serves (ref : ObjectRef) (J : BuiltinWalk ι T) : ref.members.Serves J := by
  cases ref with
  | dictionary cell => exact Members.serves_dictionary cell
  | err => exact Members.serves_err
  | collection view content => exact Members.serves_collection content
  | request => exact Members.serves_request
  | response => exact Members.serves_response
  | server => exact Members.serves_server
  | cookies view => exact Members.serves_cookies
  | session view => exact Members.serves_session
  | application view => exact Members.serves_application

end ServerScript
