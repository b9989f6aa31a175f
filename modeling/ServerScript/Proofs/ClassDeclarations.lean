import ServerScript.Proofs.Classes
import Mathlib.Data.List.Pairwise

/-! Which class declarations are accepted. Members share a name only as accessors of one property
that serve different forms of access, and the members marked as default share one name. The
tables of an accepted class hold what was declared and nothing else. -/
namespace ServerScript

/-- Whether procedures of a kind share their name with the other accessors of a property. -/
def ProcedureKind.isAccessor : ProcedureKind → Bool
  | .sub | .function => false
  | _ => true

namespace ClassMember

def name : ClassMember → Name
  | .field _ decl => decl.name
  | .procedure decl => decl.name

def accessor? : ClassMember → Option ProcedureKind
  | .field .. => none
  | .procedure decl => if decl.kind.isAccessor then some decl.kind else none

theorem accessor?_procedure {p : Procedure} (served : p.kind.isAccessor = true) :
    (procedure p).accessor? = some p.kind := if_pos served

theorem accessor?_procedure_of_not {p : Procedure} (served : p.kind.isAccessor = false) :
    (procedure p).accessor? = none := if_neg (by simp [served])

theorem isAccessor_of_accessor? {m : ClassMember} {kind : ProcedureKind}
    (form : m.accessor? = some kind) : kind.isAccessor = true := by
  cases m with
  | field => cases form
  | procedure p =>
    rw [accessor?] at form
    split at form
    · cases form
      assumption
    · cases form

def isDefault : ClassMember → Bool
  | .field .. => false
  | .procedure decl => decl.isDefault

def Compatible (a b : ClassMember) : Prop :=
  a.name = b.name → a.accessor?.isSome ∧ b.accessor?.isSome ∧ a.accessor? ≠ b.accessor?

instance : DecidableRel Compatible := fun a b =>
  inferInstanceAs (Decidable (a.name = b.name → _ ∧ _ ∧ _))

theorem Compatible.symm {a b : ClassMember} (apart : Compatible a b) : Compatible b a := by
  intro same
  obtain ⟨first, second, defaults⟩ := apart same.symm
  exact ⟨second, first, defaults.symm⟩

instance : Std.Symm Compatible := ⟨fun _ _ => Compatible.symm⟩

/-- No two members clash, and at most one name is marked as default. -/
structure Unambiguous (members : List ClassMember) : Prop where
  apart : members.Pairwise Compatible
  oneDefault : ∀ a ∈ members, ∀ b ∈ members, a.isDefault → b.isDefault → a.name = b.name

instance (members : List ClassMember) : Decidable (Unambiguous members) :=
  decidable_of_iff (members.Pairwise Compatible ∧
      ∀ a ∈ members, ∀ b ∈ members, a.isDefault → b.isDefault → a.name = b.name)
    ⟨fun ⟨apart, oneDefault⟩ => ⟨apart, oneDefault⟩, fun u => ⟨u.apart, u.oneDefault⟩⟩

namespace Unambiguous

variable {seen rest members : List ClassMember} {m : ClassMember}

theorem of_append (unambiguous : Unambiguous (seen ++ rest)) : Unambiguous seen := by
  refine ⟨(List.pairwise_append.1 unambiguous.apart).1, fun a ha b hb => ?_⟩
  exact unambiguous.oneDefault a (List.mem_append_left rest ha) b (List.mem_append_left rest hb)

theorem append_singleton_iff (unambiguous : Unambiguous seen) :
    Unambiguous (seen ++ [m]) ↔
      (∀ a ∈ seen, Compatible a m) ∧ (m.isDefault → ∀ a ∈ seen, a.isDefault → a.name = m.name) := by
  constructor
  · intro both
    refine ⟨fun a inside => ?_, fun marked a inside => ?_⟩
    · exact (List.pairwise_append.1 both.apart).2.2 a inside m (List.mem_singleton_self m)
    · intro also
      exact both.oneDefault a (List.mem_append_left _ inside) m (by simp) also marked
  · rintro ⟨apart, oneDefault⟩
    refine ⟨List.pairwise_append.2 ⟨unambiguous.apart, List.pairwise_singleton _ _, ?_⟩, ?_⟩
    · simpa using apart
    · simp only [List.mem_append, List.mem_singleton]
      rintro a (ha | rfl) b (hb | rfl) first second
      · exact unambiguous.oneDefault a ha b hb first second
      · exact oneDefault second a ha first
      · exact (oneDefault first b hb second).symm
      · rfl

theorem perm_iff {members' : List ClassMember} (order : members.Perm members') :
    Unambiguous members ↔ Unambiguous members' := by
  constructor
  · rintro ⟨apart, oneDefault⟩
    refine ⟨order.pairwise apart Compatible.symm, fun a ha b hb => ?_⟩
    exact oneDefault a (order.mem_iff.2 ha) b (order.mem_iff.2 hb)
  · rintro ⟨apart, oneDefault⟩
    refine ⟨order.symm.pairwise apart Compatible.symm, fun a ha b hb => ?_⟩
    exact oneDefault a (order.mem_iff.1 ha) b (order.mem_iff.1 hb)

theorem compatible (unambiguous : Unambiguous members) {a b : ClassMember} (ha : a ∈ members)
    (hb : b ∈ members) (different : a ≠ b) : Compatible a b :=
  unambiguous.apart.forall ha hb different

end Unambiguous
end ClassMember

open ClassMember

theorem PropertyGroup.slot_put {group : PropertyGroup} {decl : Procedure} {kind : ProcedureKind}
    (served : kind.isAccessor) (added : decl.kind.isAccessor) :
    (group.put decl).slot kind = if kind = decl.kind then some decl else group.slot kind := by
  rw [PropertyGroup.put]
  cases same : decl.kind <;> rw [same] at added <;> cases kind <;> cases served <;> cases added <;>
    rfl

namespace ClassDef

variable {c c' : ClassDef} {seen rest members : List ClassMember} {m : ClassMember}

def accessor? (c : ClassDef) (name : Name) (kind : ProcedureKind) : Option Procedure :=
  (c.property? name).bind (·.slot kind)

/-- Whether the name of a further member is still free, or free for its form of access. -/
def Free (c : ClassDef) (m : ClassMember) : Prop :=
  c.field? m.name = none ∧ c.procedure? m.name = none ∧
    match m.accessor? with
    | none => c.property? m.name = none
    | some kind => c.accessor? m.name kind = none

def extended (c : ClassDef) : ClassMember → ClassDef
  | .field access decl => { c with fields := putName decl.name ⟨access, decl.dims⟩ c.fields }
  | .procedure decl =>
    { (if decl.kind.isAccessor then
        { c with
          properties :=
            putName decl.name (((c.property? decl.name).getD {}).put decl) c.properties }
      else { c with procedures := putName decl.name decl c.procedures }) with
      defaultMember := if decl.isDefault then some decl.name else c.defaultMember }

theorem ensureUnused_eq_ok_iff {name : Name} {property : Bool} :
    c.ensureUnused name property = .ok ⟨⟩ ↔ c.field? name = none ∧ c.procedure? name = none ∧
      (property = false → c.property? name = none) := by
  refine ⟨ensureUnused_cases, fun ⟨noField, noProcedure, noProperty⟩ => ?_⟩
  cases property with
  | false => simp [ensureUnused, noField, noProcedure, noProperty rfl]
  | true => simp [ensureUnused, noField, noProcedure]

theorem markDefault_eq_ok_iff {decl : Procedure} :
    c.markDefault decl = .ok c' ↔
      (decl.isDefault → ∀ name, c.defaultMember = some name → name = decl.name) ∧
        c' = { c with
          defaultMember := if decl.isDefault then some decl.name else c.defaultMember } := by
  rw [markDefault]
  split
  case isTrue marked =>
    cases known : c.defaultMember with
    | none => simp [marked, eq_comm]
    | some name =>
      by_cases same : name = decl.name
      · simp [marked, same, eq_comm]
      · simp [marked, same]
  case isFalse unmarked =>
    simp only [unmarked, Bool.false_eq_true, false_implies, true_and, Except.ok.injEq]
    exact eq_comm

theorem accessor?_eq_slot (c : ClassDef) (name : Name) (kind : ProcedureKind) :
    c.accessor? name kind = ((c.property? name).getD {}).slot kind := by
  rw [accessor?]
  cases c.property? name with
  | none => cases kind <;> rfl
  | some group => rfl

theorem addProcedure_of_accessor {decl : Procedure} (accessor : decl.kind.isAccessor = true) :
    c.addProcedure decl = (do
      c.ensureUnused decl.name true
      if (c.accessor? decl.name decl.kind).isSome then throw (c.duplicate decl.name)
      markDefault { c with
        properties := putName decl.name (((c.property? decl.name).getD {}).put decl) c.properties }
        decl) := by
  rw [accessor?_eq_slot, addProcedure]
  cases kind : decl.kind <;> rw [kind] at accessor <;> cases accessor

theorem addProcedure_of_not_accessor {decl : Procedure} (accessor : decl.kind.isAccessor = false) :
    c.addProcedure decl = (do
      c.ensureUnused decl.name false
      markDefault { c with procedures := putName decl.name decl c.procedures } decl) := by
  rw [addProcedure]
  cases kind : decl.kind <;> rw [kind] at accessor <;> cases accessor

theorem ensureUnused_bind_eq_ok_iff {name : Name} {property : Bool}
    {k : Except EvalError ClassDef} :
    (do c.ensureUnused name property; k) = .ok c' ↔
      (c.field? name = none ∧ c.procedure? name = none ∧
        (property = false → c.property? name = none)) ∧ k = .ok c' := by
  constructor
  · intro done
    obtain ⟨u, unused, done⟩ := exists_of_bind_eq_ok done
    exact ⟨ensureUnused_cases unused, done⟩
  · rintro ⟨free, done⟩
    rw [ensureUnused_eq_ok_iff.2 free]
    exact done

/-- A member is taken over exactly when its name is free and a second default has the name of the
first one. -/
theorem addMember_eq_ok_iff :
    c.addMember m = .ok c' ↔
      c.Free m ∧ (m.isDefault → ∀ name, c.defaultMember = some name → name = m.name) ∧
        c' = c.extended m := by
  cases m with
  | field access decl =>
    rw [addMember, ensureUnused_bind_eq_ok_iff]
    simp [Free, extended, ClassMember.name, ClassMember.accessor?, ClassMember.isDefault, pure,
      Except.pure, eq_comm]
  | procedure decl =>
    rw [addMember]
    cases accessor : decl.kind.isAccessor with
    | false =>
      rw [addProcedure_of_not_accessor accessor, ensureUnused_bind_eq_ok_iff, markDefault_eq_ok_iff]
      simp [Free, extended, ClassMember.name, ClassMember.accessor?, ClassMember.isDefault,
        accessor]
    | true =>
      rw [addProcedure_of_accessor accessor, ensureUnused_bind_eq_ok_iff]
      cases taken : c.accessor? decl.name decl.kind with
      | none =>
        simp only [Option.isSome_none, Bool.false_eq_true, ↓reduceIte, markDefault_eq_ok_iff]
        simp [Free, extended, ClassMember.name, ClassMember.accessor?, ClassMember.isDefault,
          accessor, taken]
      | some p =>
        constructor
        · rintro ⟨-, done⟩
          cases done
        · rintro ⟨⟨-, -, free⟩, -⟩
          simp [ClassMember.accessor?, ClassMember.name, accessor, taken] at free

/-- The tables of a class hold the members in question and nothing else. -/
structure Collects (c : ClassDef) (members : List ClassMember) : Prop where
  field : ∀ name f, c.field? name = some f ↔
    ∃ access decl, .field access decl ∈ members ∧ decl.name = name ∧ f = ⟨access, decl.dims⟩
  procedure : ∀ name p, c.procedure? name = some p ↔
    .procedure p ∈ members ∧ p.kind.isAccessor = false ∧ p.name = name
  accessor : ∀ name kind p, kind.isAccessor →
    (c.accessor? name kind = some p ↔ .procedure p ∈ members ∧ p.kind = kind ∧ p.name = name)
  property : ∀ name, (c.property? name).isSome ↔
    ∃ p, .procedure p ∈ members ∧ p.kind.isAccessor ∧ p.name = name
  default : ∀ name, c.defaultMember = some name ↔ ∃ m ∈ members, m.isDefault ∧ m.name = name

theorem collects_nil (name : String) : ({ name : ClassDef }).Collects [] where
  field _ _ := ⟨nofun, by simp⟩
  procedure _ _ := ⟨nofun, by simp⟩
  accessor _ _ _ _ := ⟨nofun, by simp⟩
  property _ := ⟨nofun, by simp⟩
  default _ := ⟨nofun, by simp⟩

theorem Collects.compatible_of_free (collected : c.Collects seen) (free : c.Free m)
    {a : ClassMember} (inside : a ∈ seen) : Compatible a m := by
  obtain ⟨noField, noProcedure, free⟩ := free
  intro same
  cases a with
  | field access decl =>
    cases noField.symm.trans ((collected.field m.name _).2 ⟨access, decl, inside, same, rfl⟩)
  | procedure p =>
    cases served : p.kind.isAccessor with
    | false =>
      cases noProcedure.symm.trans ((collected.procedure m.name p).2 ⟨inside, served, same⟩)
    | true =>
      have found := (collected.accessor m.name p.kind p served).2 ⟨inside, rfl, same⟩
      rw [ClassMember.accessor?_procedure served]
      cases form : m.accessor? with
      | none =>
        rw [form] at free
        simp [accessor?, free] at found
      | some kind =>
        rw [form] at free
        refine ⟨rfl, rfl, fun equal => ?_⟩
        cases Option.some.inj equal
        cases free.symm.trans found

theorem Collects.free_of_compatible (collected : c.Collects seen)
    (apart : ∀ a ∈ seen, Compatible a m) : c.Free m := by
  refine ⟨?_, ?_, ?_⟩
  · refine Option.eq_none_iff_forall_ne_some.2 fun f found => ?_
    obtain ⟨access, decl, inside, same, -⟩ := (collected.field m.name f).1 found
    cases (apart _ inside same).1
  · refine Option.eq_none_iff_forall_ne_some.2 fun p found => ?_
    obtain ⟨inside, served, same⟩ := (collected.procedure m.name p).1 found
    cases ClassMember.accessor?_procedure_of_not served ▸ (apart _ inside same).1
  · cases form : m.accessor? with
    | none =>
      by_contra taken
      obtain ⟨p, inside, -, same⟩ :=
        (collected.property m.name).1 (Option.isSome_iff_ne_none.2 taken)
      cases form ▸ (apart _ inside same).2.1
    | some kind =>
      have served := ClassMember.isAccessor_of_accessor? form
      refine Option.eq_none_iff_forall_ne_some.2 fun p found => ?_
      obtain ⟨inside, rfl, same⟩ := (collected.accessor m.name kind p served).1 found
      exact (apart _ inside same).2.2 ((ClassMember.accessor?_procedure served).trans form.symm)

theorem Collects.free_iff (collected : c.Collects seen) :
    c.Free m ↔ ∀ a ∈ seen, Compatible a m :=
  ⟨fun free _ inside => collected.compatible_of_free free inside, collected.free_of_compatible⟩

theorem Collects.default_iff (collected : c.Collects seen) :
    (∀ name, c.defaultMember = some name → name = m.name) ↔
      ∀ a ∈ seen, a.isDefault → a.name = m.name := by
  constructor
  · intro agrees a inside marked
    exact agrees a.name ((collected.default a.name).2 ⟨a, inside, marked, rfl⟩)
  · intro agrees name known
    obtain ⟨a, inside, marked, rfl⟩ := (collected.default name).1 known
    exact agrees a inside marked

theorem lookupName_putName_eq_some_iff {entries : List (Name × α)} {name key : Name} {value v : α}
    (free : lookupName key entries = none) :
    lookupName name (putName key value entries) = some v ↔
      lookupName name entries = some v ∨ key = name ∧ value = v := by
  rw [lookupName_putName]
  by_cases here : name = key
  · subst here
    simp [free]
  · simp [here, Ne.symm here]

theorem field?_extended_eq_some_iff (free : c.Free m) {name : Name} {f : FieldDef} :
    (c.extended m).field? name = some f ↔ c.field? name = some f ∨
      ∃ access decl, .field access decl = m ∧ decl.name = name ∧ f = ⟨access, decl.dims⟩ := by
  cases m with
  | field access decl =>
    refine (lookupName_putName_eq_some_iff free.1).trans (or_congr_right ⟨?_, ?_⟩)
    · rintro ⟨named, rfl⟩
      exact ⟨access, decl, rfl, named, rfl⟩
    · rintro ⟨_, _, same, named, rfl⟩
      cases same
      exact ⟨named, rfl⟩
  | procedure decl =>
    have same : (c.extended (.procedure decl)).field? name = c.field? name := by
      rw [extended]
      split <;> rfl
    simp [same]

theorem procedure?_extended_eq_some_iff (free : c.Free m) {name : Name} {p : Procedure} :
    (c.extended m).procedure? name = some p ↔ c.procedure? name = some p ∨
      .procedure p = m ∧ p.kind.isAccessor = false ∧ p.name = name := by
  cases m with
  | field access decl => simp [extended, procedure?]
  | procedure decl =>
    cases served : decl.kind.isAccessor with
    | false =>
      simp only [extended, served]
      refine (lookupName_putName_eq_some_iff free.2.1).trans (or_congr_right ⟨?_, ?_⟩)
      · rintro ⟨named, rfl⟩
        exact ⟨rfl, served, named⟩
      · rintro ⟨same, -, named⟩
        cases same
        exact ⟨named, rfl⟩
    | true =>
      have old : (c.extended (.procedure decl)).procedure? name = c.procedure? name := by
        simp [extended, procedure?, served]
      rw [old, or_iff_left]
      rintro ⟨same, other, -⟩
      cases same
      cases served.symm.trans other

theorem accessor?_extended_eq_some_iff (free : c.Free m) {name : Name} {kind : ProcedureKind}
    (serves : kind.isAccessor) {p : Procedure} :
    (c.extended m).accessor? name kind = some p ↔ c.accessor? name kind = some p ∨
      .procedure p = m ∧ p.kind = kind ∧ p.name = name := by
  cases m with
  | field access decl => simp [extended, accessor?, property?]
  | procedure decl =>
    cases served : decl.kind.isAccessor with
    | false =>
      have old : (c.extended (.procedure decl)).accessor? name kind = c.accessor? name kind := by
        simp [extended, accessor?, property?, served]
      rw [old, or_iff_left]
      rintro ⟨same, rfl, -⟩
      cases same
      cases served.symm.trans serves
    | true =>
      have put : (c.extended (.procedure decl)).accessor? name kind =
          if name = decl.name ∧ kind = decl.kind then some decl else c.accessor? name kind := by
        simp only [extended, served, accessor?_eq_slot, property?, lookupName_putName, if_true]
        by_cases here : name = decl.name
        · simp [here, PropertyGroup.slot_put serves served]
        · simp [here]
      rw [put]
      have vacant : c.accessor? decl.name decl.kind = none := by
        simpa [Free, ClassMember.name, ClassMember.accessor?, served] using free.2.2
      by_cases here : name = decl.name ∧ kind = decl.kind
      · obtain ⟨rfl, rfl⟩ := here
        rw [if_pos ⟨rfl, rfl⟩, vacant, or_iff_right (Option.some_ne_none p).symm, Option.some_inj]
        constructor
        · rintro rfl
          exact ⟨rfl, rfl, rfl⟩
        · rintro ⟨same, -⟩
          exact (ClassMember.procedure.inj same).symm
      · rw [if_neg here, or_iff_left]
        rintro ⟨same, rfl, rfl⟩
        cases same
        exact here ⟨rfl, rfl⟩

theorem isSome_property?_extended_iff {name : Name} :
    ((c.extended m).property? name).isSome ↔ (c.property? name).isSome ∨
      ∃ p, .procedure p = m ∧ p.kind.isAccessor ∧ p.name = name := by
  cases m with
  | field access decl => simp [extended, property?]
  | procedure decl =>
    cases served : decl.kind.isAccessor with
    | false => simp [extended, property?, served]
    | true =>
      simp only [extended, served, property?, lookupName_putName, if_true]
      by_cases here : name = decl.name
      · simp [here, served]
      · simp [here, served, Ne.symm here]

theorem defaultMember_extended_eq_some_iff
    (agrees : m.isDefault → ∀ name, c.defaultMember = some name → name = m.name) {name : Name} :
    (c.extended m).defaultMember = some name ↔
      c.defaultMember = some name ∨ m.isDefault ∧ m.name = name := by
  cases m with
  | field access decl => simp [extended, ClassMember.isDefault]
  | procedure decl =>
    simp only [extended, ClassMember.isDefault, ClassMember.name]
    cases marked : decl.isDefault with
    | false => simp
    | true =>
      have agrees := agrees marked name
      simpa [eq_comm, ClassMember.name] using agrees

theorem Collects.extended (collected : c.Collects seen) (free : c.Free m)
    (agrees : m.isDefault → ∀ name, c.defaultMember = some name → name = m.name) :
    (c.extended m).Collects (seen ++ [m]) where
  field name f := by
    rw [field?_extended_eq_some_iff free, collected.field]
    simp only [List.mem_append, List.mem_singleton, or_and_right, exists_or]
  procedure name p := by
    rw [procedure?_extended_eq_some_iff free, collected.procedure]
    simp only [List.mem_append, List.mem_singleton, or_and_right]
  accessor name kind p serves := by
    rw [accessor?_extended_eq_some_iff free serves, collected.accessor name kind p serves]
    simp only [List.mem_append, List.mem_singleton, or_and_right]
  property name := by
    rw [isSome_property?_extended_iff, collected.property]
    simp only [List.mem_append, List.mem_singleton, or_and_right, exists_or]
  default name := by
    rw [defaultMember_extended_eq_some_iff agrees, collected.default]
    simp only [List.mem_append, List.mem_singleton, or_and_right, exists_or, exists_eq_left]

theorem Collects.addMember (collected : c.Collects seen) (done : c.addMember m = .ok c') :
    c'.Collects (seen ++ [m]) := by
  obtain ⟨free, agrees, rfl⟩ := addMember_eq_ok_iff.1 done
  exact collected.extended free agrees

theorem Collects.addMember_iff (collected : c.Collects seen) (unambiguous : Unambiguous seen) :
    (∃ c', c.addMember m = .ok c') ↔ Unambiguous (seen ++ [m]) := by
  rw [unambiguous.append_singleton_iff, ← collected.free_iff, ← collected.default_iff]
  simp only [addMember_eq_ok_iff, ← and_assoc, exists_and_left, exists_eq, and_true]

theorem Collects.foldlM_iff (collected : c.Collects seen) (unambiguous : Unambiguous seen) :
    (∃ c', rest.foldlM ClassDef.addMember c = .ok c') ↔ Unambiguous (seen ++ rest) := by
  induction rest generalizing c seen with
  | nil => simpa [pure, Except.pure] using unambiguous
  | cons m rest ih =>
    rw [List.foldlM_cons, List.append_cons]
    constructor
    · rintro ⟨c', done⟩
      obtain ⟨d, step, done⟩ := exists_of_bind_eq_ok done
      exact (ih (collected.addMember step) ((collected.addMember_iff unambiguous).1 ⟨d, step⟩)).1
        ⟨c', done⟩
    · intro all
      obtain ⟨d, step⟩ := (collected.addMember_iff unambiguous).2 all.of_append
      obtain ⟨c', done⟩ := (ih (collected.addMember step) all.of_append).2 all
      exact ⟨c', by rw [step]; exact done⟩

theorem Collects.foldlM (collected : c.Collects seen)
    (done : rest.foldlM ClassDef.addMember c = .ok c') : c'.Collects (seen ++ rest) := by
  induction rest generalizing c seen with
  | nil =>
    cases done
    simpa using collected
  | cons m rest ih =>
    rw [List.foldlM_cons] at done
    obtain ⟨d, step, done⟩ := exists_of_bind_eq_ok done
    rw [List.append_cons]
    exact ih (collected.addMember step) done

structure Disjoint (c : ClassDef) : Prop where
  field : ∀ name, (c.field? name).isSome → c.procedure? name = none ∧ c.property? name = none
  procedure : ∀ name, (c.procedure? name).isSome → c.property? name = none

theorem Collects.disjoint (collected : c.Collects members) (unambiguous : Unambiguous members) :
    c.Disjoint where
  field name found := by
    obtain ⟨f, found⟩ := Option.isSome_iff_exists.1 found
    obtain ⟨access, decl, inside, named, -⟩ := (collected.field name f).1 found
    have alone : ∀ p, .procedure p ∈ members → p.name ≠ name := by
      intro p other same
      cases (unambiguous.compatible inside other nofun (named.trans same.symm)).1
    refine ⟨Option.eq_none_iff_forall_ne_some.2 fun p other => ?_, ?_⟩
    · obtain ⟨inside, -, same⟩ := (collected.procedure name p).1 other
      exact alone p inside same
    · refine Option.not_isSome_iff_eq_none.1 fun other => ?_
      obtain ⟨p, inside, -, same⟩ := (collected.property name).1 other
      exact alone p inside same
  procedure name found := by
    obtain ⟨p, found⟩ := Option.isSome_iff_exists.1 found
    obtain ⟨inside, plain, named⟩ := (collected.procedure name p).1 found
    refine Option.not_isSome_iff_eq_none.1 fun other => ?_
    obtain ⟨q, also, served, same⟩ := (collected.property name).1 other
    have different : ClassMember.procedure p ≠ .procedure q := by
      rintro same
      cases same
      cases plain.symm.trans served
    have first := (unambiguous.compatible inside also different (named.trans same.symm)).1
    cases ClassMember.accessor?_procedure_of_not plain ▸ first

theorem Collects.not_found (collected : c.Collects members) {name : Name}
    (undeclared : ∀ m ∈ members, m.name ≠ name) :
    c.field? name = none ∧ c.procedure? name = none ∧ c.property? name = none := by
  refine ⟨?_, ?_, ?_⟩
  · refine Option.eq_none_iff_forall_ne_some.2 fun f found => ?_
    obtain ⟨access, decl, inside, same, -⟩ := (collected.field name f).1 found
    exact undeclared _ inside same
  · refine Option.eq_none_iff_forall_ne_some.2 fun p found => ?_
    obtain ⟨inside, -, same⟩ := (collected.procedure name p).1 found
    exact undeclared _ inside same
  · refine Option.not_isSome_iff_eq_none.1 fun found => ?_
    obtain ⟨p, inside, -, same⟩ := (collected.property name).1 found
    exact undeclared _ inside same

/-- A declaration is accepted exactly when its members are unambiguous, in whatever order they
stand. The class then holds every member under its name, no name twice and none besides, and its
default member is the name that is marked as default. -/
theorem ofDecl_iff_unambiguous (source : ClassDecl) :
    ((∃ c, ofDecl source = .ok c) ↔ Unambiguous source.members) ∧
    (∀ members, members.Perm source.members →
      ((∃ c, ofDecl ⟨source.name, members⟩ = .ok c) ↔ ∃ c, ofDecl source = .ok c)) ∧
    ∀ c, ofDecl source = .ok c → c.Collects source.members ∧ c.Disjoint ∧
      ∀ name, (∀ m ∈ source.members, m.name ≠ name) →
        c.field? name = none ∧ c.procedure? name = none ∧ c.property? name = none := by
  have accepted (decl : ClassDecl) :
      (∃ c, ofDecl decl = .ok c) ↔ Unambiguous decl.members :=
    (collects_nil decl.name).foldlM_iff ⟨.nil, nofun⟩
  refine ⟨accepted source, fun members order => ?_, fun c done => ?_⟩
  · rw [accepted, accepted, Unambiguous.perm_iff order]
  · have collected : c.Collects source.members := (collects_nil source.name).foldlM done
    exact ⟨collected, collected.disjoint ((accepted source).1 ⟨c, done⟩),
      fun _ undeclared => collected.not_found undeclared⟩

def gauge : ClassDecl where
  name := "Gauge"
  members :=
    [.field .instanceOnly ⟨⟨"level"⟩, none⟩,
     .procedure ⟨⟨"reading"⟩, .propertyGet, .everyone, true, [], []⟩,
     .procedure ⟨⟨"reading"⟩, .propertyLet, .everyone, false, [⟨⟨"value"⟩, false⟩], []⟩]

theorem gauge_accepted :
    (∃ d, ofDecl ⟨gauge.name, gauge.members.reverse⟩ = .ok d) ∧
      ∃ c, ofDecl gauge = .ok c ∧ c.defaultMember = some ⟨"reading"⟩ ∧
        c.property? ⟨"level"⟩ = none ∧ c.field? ⟨"value"⟩ = none := by
  have accepted := (ofDecl_iff_unambiguous gauge).1.2 (by decide)
  have reversed := (ofDecl_iff_unambiguous gauge).2.1 _ gauge.members.reverse_perm
  refine ⟨reversed.2 accepted, ?_⟩
  obtain ⟨c, done⟩ := accepted
  obtain ⟨collected, disjoint, missing⟩ := (ofDecl_iff_unambiguous gauge).2.2 c done
  have level : c.field? ⟨"level"⟩ = some ⟨.instanceOnly, none⟩ :=
    (collected.field _ _).2 ⟨.instanceOnly, _, List.mem_cons_self, rfl, rfl⟩
  have reading : c.defaultMember = some ⟨"reading"⟩ :=
    (collected.default _).2 ⟨_, List.mem_cons_of_mem _ List.mem_cons_self, rfl, rfl⟩
  exact ⟨c, done, reading, (disjoint.field _ (by rw [level]; rfl)).2,
    (missing _ (by decide)).1⟩

end ClassDef
end ServerScript
