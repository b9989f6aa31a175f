import ServerScript.Proofs.Store

/-! What a class takes over from its declaration, member by member. -/
namespace ServerScript.ClassDef

variable {c c' : ClassDef} {decl : Procedure}

theorem ensureUnused_cases {name : Name} {property : Bool}
    (done : c.ensureUnused name property = .ok ⟨⟩) :
    c.field? name = none ∧ c.procedure? name = none ∧
      (property = false → c.property? name = none) := by
  rw [ensureUnused] at done
  split at done
  · cases done
  · rename_i unused
    simp only [Bool.or_eq_true, Bool.and_eq_true, not_or, Bool.not_eq_true,
      Option.isSome_eq_false_iff, Option.isNone_iff_eq_none] at unused
    refine ⟨unused.1.1, unused.1.2, fun same => ?_⟩
    have free := unused.2
    simpa [same] using free

theorem markDefault_cases (done : c.markDefault decl = .ok c') :
    c' = c ∨ c' = { c with defaultMember := some decl.name } := by
  rw [markDefault] at done
  split at done
  · split at done
    · cases done
    · exact .inr (Except.ok.inj done).symm
  · exact .inl (Except.ok.inj done).symm

theorem addProcedure_cases (done : c.addProcedure decl = .ok c') :
    c.field? decl.name = none ∧ ∃ d,
      (d = { c with procedures := putName decl.name decl c.procedures } ∨
        d = { c with
          properties :=
            putName decl.name (((c.property? decl.name).getD {}).put decl) c.properties }) ∧
      (c' = d ∨ c' = { d with defaultMember := some decl.name }) := by
  unfold addProcedure at done
  split at done
  case h_3 =>
    obtain ⟨u, unused, done⟩ := exists_of_bind_eq_ok done
    dsimp only at done
    split at done
    · cases done
    · exact ⟨(ensureUnused_cases unused).1, _, .inr rfl, markDefault_cases done⟩
  all_goals
    obtain ⟨u, unused, done⟩ := exists_of_bind_eq_ok done
    exact ⟨(ensureUnused_cases unused).1, _, .inl rfl, markDefault_cases done⟩

theorem addField_cases {access : Access} {var : VarDecl}
    (done : c.addMember (.field access var) = .ok c') :
    c.hasProcedure var.name = false ∧
      c' = { c with fields := putName var.name ⟨access, var.dims⟩ c.fields } := by
  obtain ⟨u, unused, done⟩ := exists_of_bind_eq_ok done
  obtain ⟨-, noProcedure, noProperty⟩ := ensureUnused_cases unused
  exact ⟨by simp [hasProcedure, noProcedure, noProperty rfl], (Except.ok.inj done).symm⟩

theorem runs_put {group : PropertyGroup} {e : Procedure}
    (found : (group.put decl).get = some e ∨ (group.put decl).letWriter = some e ∨
      (group.put decl).setWriter = some e) :
    e = decl ∨ group.get = some e ∨ group.letWriter = some e ∨ group.setWriter = some e := by
  rw [PropertyGroup.put] at found
  split at found <;> grind

theorem runs_addProcedure {e : Procedure} (done : c.addProcedure decl = .ok c') (runs : c'.Runs e) :
    e = decl ∨ c.Runs e := by
  obtain ⟨-, d, added, default⟩ := addProcedure_cases done
  have runs : d.Runs e := by rcases default with rfl | rfl <;> exact runs
  rcases added with rfl | rfl
  · rcases runs with ⟨name, found⟩ | property
    · simp only [procedure?, lookupName_putName] at found
      split at found
      · exact .inl (Option.some.inj found).symm
      · exact .inr (.inl ⟨name, found⟩)
    · exact .inr (.inr property)
  · rcases runs with procedure | ⟨name, group, found, accessor⟩
    · exact .inr (.inl procedure)
    · simp only [property?, lookupName_putName] at found
      split at found
      · obtain rfl := Option.some.inj found
        refine (runs_put accessor).imp_right fun accessor => .inr ?_
        cases known : lookupName decl.name c.properties with
        | none => simp [known] at accessor
        | some group => exact ⟨decl.name, group, known, by rwa [known] at accessor⟩
      · exact .inr (.inr ⟨name, group, found, accessor⟩)

theorem mem_members_of_runs {source : ClassDecl} (done : ofDecl source = .ok c) :
    ∀ d, c.Runs d → .procedure d ∈ source.members := by
  refine foldlM_keeps (I := fun c => ∀ d, c.Runs d → .procedure d ∈ source.members)
    (fun c member c' inside known step => ?_) ?_ done
  · cases member with
    | field access var =>
      obtain ⟨-, rfl⟩ := addField_cases step
      exact known
    | procedure decl =>
      intro d runs
      rcases runs_addProcedure step runs with rfl | runs
      · exact inside
      · exact known d runs
  · rintro d (⟨name, found⟩ | ⟨name, group, found, -⟩) <;> cases found

/-- Fields share no name with procedures and properties, one of which is the default member. -/
structure Coherent (c : ClassDef) : Prop where
  fields : ∀ name, c.hasProcedure name → c.field? name = none
  default : ∀ name, c.defaultMember = some name → c.hasProcedure name

theorem hasProcedure_addProcedure (done : c.addProcedure decl = .ok c') (name : Name) :
    c'.hasProcedure name = (decide (name = decl.name) || c.hasProcedure name) := by
  obtain ⟨-, d, added, default⟩ := addProcedure_cases done
  have same : c'.hasProcedure name = d.hasProcedure name := by
    rcases default with rfl | rfl <;> rfl
  rw [same]
  rcases added with rfl | rfl <;>
    simp only [hasProcedure, procedure?, property?, lookupName_putName] <;>
    by_cases here : name = decl.name <;> simp [here]

theorem coherent_of_ofDecl {source : ClassDecl} (done : ofDecl source = .ok c) : c.Coherent := by
  refine foldlM_keeps (I := Coherent) (fun c member c' inside known step => ?_) ?_ done
  · cases member with
    | field access var =>
      obtain ⟨unused, rfl⟩ := addField_cases step
      refine ⟨fun name taken => ?_, known.default⟩
      change c.hasProcedure name = true at taken
      have other : name ≠ var.name := fun same => by simp [same, unused] at taken
      simpa [field?, lookupName_putName, other] using known.fields name taken
    | procedure decl =>
      have names := hasProcedure_addProcedure step
      obtain ⟨unused, d, added, default⟩ := addProcedure_cases step
      have fields : ∀ name, c'.field? name = c.field? name := by
        rcases default with rfl | rfl <;> rcases added with rfl | rfl <;> exact fun _ => rfl
      refine ⟨fun name taken => ?_, fun name isDefault => ?_⟩
      · rw [fields]
        rw [names, Bool.or_eq_true, decide_eq_true_eq] at taken
        rcases taken with rfl | taken
        · exact unused
        · exact known.fields name taken
      · rw [names, Bool.or_eq_true, decide_eq_true_eq]
        have before : d.defaultMember = c.defaultMember := by rcases added with rfl | rfl <;> rfl
        rcases default with rfl | rfl
        · exact .inr (known.default name (before ▸ isDefault))
        · exact .inl (Option.some.inj isDefault).symm
  · refine ⟨fun _ _ => rfl, nofun⟩

theorem Coherent.field?_default {name : Name} (coherent : c.Coherent)
    (isDefault : c.defaultMember = some name) : c.field? name = none :=
  coherent.fields name (coherent.default name isDefault)

end ServerScript.ClassDef
