import ServerScript.Proofs.Store

/-! What a write, a declaration and a constant do to the names in reach, case by case. -/
namespace ServerScript.Scopes

variable {p : Policy} {s s' : Scopes} {h h' : Heap} {name : Name} {v : Value} {r : Assigned}

theorem assign_cases (done : s.assign h name v = .ok (s', h', r)) :
    (s' = { s with frames := setInFrames name v s.frames } ∧ h' = h ∧ r = .done) ∨
    (s.frameVariable? name = none ∧ s' = s.setGlobal name v ∧ h' = h ∧ r = .done) ∨
    (∃ i : InstanceRef, s' = s ∧ h' = h.setField i.cell name v ∧ r = .done) ∨
    ∃ i, s.me = some i ∧ s' = s ∧ h' = h ∧ r = .accessor i := by
  rw [assign] at done
  split at done
  · cases done
  · split at done
    · cases done
      exact .inl ⟨rfl, rfl, rfl⟩
    · rename_i missing
      have missing : s.frameVariable? name = none := Option.not_isSome_iff_eq_none.mp missing
      split at done
      · cases done
        exact .inr (.inl ⟨missing, rfl, rfl, rfl⟩)
      · rename_i i isMe
        split at done
        · cases done
          exact .inr (.inr (.inl ⟨i, rfl, rfl, rfl⟩))
        · split at done
          · cases done
            exact .inr (.inr (.inr ⟨i, isMe, rfl, rfl, rfl⟩))
          · cases done
            exact .inr (.inl ⟨missing, rfl, rfl, rfl⟩)

theorem define_cases (done : s.define name v = .ok s') :
    (∃ scope rest, s.frames = scope :: rest ∧
      s' = { s with frames := { scope with locals := putName name v scope.locals } :: rest }) ∨
    (s.frames = [] ∧ s' = s.setGlobal name v) := by
  rw [define] at done
  split at done
  · rename_i scope rest first
    split at done
    · cases done
    · cases done
      exact .inl ⟨scope, rest, first, rfl⟩
  · rename_i empty
    split at done
    · cases done
    · cases done
      exact .inr ⟨empty, rfl⟩

theorem setConstant_cases (done : s.setConstant name v = .ok s') :
    (∃ scope rest, s.frames = scope :: rest ∧
      s' = { s with
        frames := { scope with constants := putName name v scope.constants } :: rest }) ∨
    (s.frames = [] ∧ s' = { s with constants := putName name v s.constants }) := by
  rw [setConstant] at done
  split at done
  · rename_i scope rest first
    cases clash : constantClash name scope.constants scope.locals with
    | error e => simp [clash, Except.map] at done
    | ok u =>
      simp only [clash, Except.map] at done
      cases done
      exact .inl ⟨scope, rest, first, rfl⟩
  · rename_i empty
    cases clash : constantClash name s.constants s.globals with
    | error e => simp [clash, Except.map] at done
    | ok u =>
      simp only [clash, Except.map] at done
      cases done
      exact .inr ⟨empty, rfl⟩

theorem member?_ne_missing : s.member? h name ≠ some .missing := by
  rw [member?]
  split
  · exact nofun
  · split
    · exact nofun
    · split <;> exact nofun

theorem global?_of_resolve_missing (missing : s.resolve h name = .missing) :
    s.global? name = none := by
  rw [resolve] at missing
  split at missing
  · cases missing
  · split at missing
    · cases missing
    · split at missing
      · rename_i found known
        exact absurd (missing ▸ known) member?_ne_missing
      · split at missing
        · cases missing
        · assumption

theorem resolve_global (constant : s.constant? name = none) (free : s.frameVariable? name = none)
    (member : s.member? h name = none) (stored : s.global? name = some v) :
    s.resolve h name = .value v := by
  simp [resolve, constant, free, member, stored]

theorem mem_setInFrames {frames : List Scope} {scope : Scope}
    (member : scope ∈ setInFrames name v frames) :
    ∃ old ∈ frames, scope = old ∨ scope = { old with locals := putName name v old.locals } := by
  induction frames with
  | nil => cases member
  | cons first rest ih =>
    rw [setInFrames] at member
    split at member
    · rcases List.mem_cons.mp member with rfl | member
      · exact ⟨first, List.mem_cons_self, .inr rfl⟩
      · exact ⟨scope, List.mem_cons_of_mem _ member, .inl rfl⟩
    · rcases List.mem_cons.mp member with rfl | member
      · exact ⟨scope, List.mem_cons_self, .inl rfl⟩
      · obtain ⟨old, inside, same⟩ := ih member
        exact ⟨old, List.mem_cons_of_mem _ inside, same⟩

@[simp] theorem length_setInFrames (frames : List Scope) :
    (setInFrames name v frames).length = frames.length := by
  induction frames with
  | nil => rfl
  | cons first rest ih =>
    rw [setInFrames]
    split
    · rfl
    · simp [ih]

structure All (P : Value → Prop) (s : Scopes) : Prop where
  frames : ∀ scope ∈ s.frames, Frame.All P scope.locals ∧ Frame.All P scope.constants
  globals : Frame.All P s.globals
  constants : Frame.All P s.constants

section

variable {P P' : Value → Prop}

theorem All.imp (all : s.All P) (implies : ∀ v, P v → P' v) : s.All P' := by
  refine ⟨fun scope member => ?_, all.globals.imp implies, all.constants.imp implies⟩
  obtain ⟨locals, constants⟩ := all.frames scope member
  exact ⟨locals.imp implies, constants.imp implies⟩

theorem All.constant? (all : s.All P) (found : s.constant? name = some v) : P v := by
  rw [Scopes.constant?] at found
  split at found
  · rename_i w first
    obtain rfl := Option.some.inj found
    obtain ⟨scope, member, found⟩ := List.exists_of_findSome?_eq_some first
    exact (all.frames scope member).2.lookup found
  · exact all.constants.lookup found

theorem All.frameVariable? (all : s.All P) (found : s.frameVariable? name = some v) : P v := by
  obtain ⟨scope, member, found⟩ := List.exists_of_findSome?_eq_some found
  exact (all.frames scope member).1.lookup found

theorem All.local? (all : s.All P) (found : s.local? name = some v) : P v := by
  rw [Scopes.local?] at found
  split at found
  · rename_i scope rest first
    exact (all.frames scope (first ▸ List.mem_cons_self)).1.lookup found
  · exact all.globals.lookup found

theorem All.setGlobal (all : s.All P) (value : P v) : (s.setGlobal name v).All P :=
  ⟨all.frames, all.globals.put value, all.constants⟩

theorem All.setInFrames (all : s.All P) (value : P v) :
    ({ s with frames := Scopes.setInFrames name v s.frames } : Scopes).All P := by
  refine ⟨fun scope member => ?_, all.globals, all.constants⟩
  obtain ⟨old, inside, rfl | rfl⟩ := mem_setInFrames member
  · exact all.frames scope inside
  · exact ⟨(all.frames old inside).1.put value, (all.frames old inside).2⟩

theorem All.define (all : s.All P) (value : P v) (done : s.define name v = .ok s') : s'.All P := by
  obtain ⟨scope, rest, first, rfl⟩ | ⟨-, rfl⟩ := define_cases done
  · have inside := all.frames scope (first ▸ List.mem_cons_self)
    refine ⟨List.forall_mem_cons.mpr ⟨⟨inside.1.put value, inside.2⟩, fun other member => ?_⟩,
      all.globals, all.constants⟩
    exact all.frames other (first ▸ List.mem_cons_of_mem _ member)
  · exact all.setGlobal value

theorem All.setConstant (all : s.All P) (value : P v) (done : s.setConstant name v = .ok s') :
    s'.All P := by
  obtain ⟨scope, rest, first, rfl⟩ | ⟨-, rfl⟩ := setConstant_cases done
  · have inside := all.frames scope (first ▸ List.mem_cons_self)
    refine ⟨List.forall_mem_cons.mpr ⟨⟨inside.1, inside.2.put value⟩, fun other member => ?_⟩,
      all.globals, all.constants⟩
    exact all.frames other (first ▸ List.mem_cons_of_mem _ member)
  · exact ⟨all.frames, all.globals, all.constants.put value⟩

end

theorem Carries.ofAll (all : s.All p.value) (me : ∀ i, s.me = some i → p.inst i.cell i.cls) :
    s.Carries p := ⟨all.frames, all.globals, all.constants, me⟩

theorem Carries.all (carries : s.Carries p) : s.All p.value :=
  ⟨carries.frames, carries.globals, carries.constants⟩

theorem me_define (done : s.define name v = .ok s') : s'.me = s.me := by
  obtain ⟨scope, rest, first, rfl⟩ | ⟨-, rfl⟩ := define_cases done <;> rfl

theorem me_setConstant (done : s.setConstant name v = .ok s') : s'.me = s.me := by
  obtain ⟨scope, rest, first, rfl⟩ | ⟨-, rfl⟩ := setConstant_cases done <;> rfl

theorem Carries.setGlobal (carries : s.Carries p) (value : p.value v) :
    (s.setGlobal name v).Carries p := .ofAll (carries.all.setGlobal value) carries.me

theorem Carries.setInFrames (carries : s.Carries p) (value : p.value v) :
    ({ s with frames := Scopes.setInFrames name v s.frames } : Scopes).Carries p :=
  .ofAll (carries.all.setInFrames value) carries.me

theorem Carries.define (carries : s.Carries p) (value : p.value v)
    (done : s.define name v = .ok s') : s'.Carries p := by
  refine .ofAll (carries.all.define value done) ?_
  rw [me_define done]
  exact carries.me

theorem Carries.setConstant (carries : s.Carries p) (value : p.value v)
    (done : s.setConstant name v = .ok s') : s'.Carries p := by
  refine .ofAll (carries.all.setConstant value done) ?_
  rw [me_setConstant done]
  exact carries.me

end ServerScript.Scopes
