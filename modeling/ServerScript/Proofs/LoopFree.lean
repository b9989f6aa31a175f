import ServerScript.Proofs.Classes
import ServerScript.Proofs.Statements

/-! Programs without `For`, `Do` and `While` loops, at any depth: in blocks, in procedures and in
the members of classes. A `For Each` loop is none of these, since the values that it visits are
known when it starts. The classes of such a program may be restricted further. -/
namespace ServerScript

mutual

/-- A statement without loops that declares only classes which are accepted. -/
def StmtKind.loopFree (accepts : ClassDecl → Bool) : StmtKind → Bool
  | .forRange .. | .doLoop .. | .whileLoop .. => false
  | .choose branches otherwise =>
    branchesLoopFree accepts branches && otherwiseLoopFree accepts otherwise
  | .select _ cases otherwise =>
    casesLoopFree accepts cases && otherwiseLoopFree accepts otherwise
  | .forEach _ _ body => blockLoopFree accepts body
  | .withBlock _ body => blockLoopFree accepts body
  | .procedure decl => decl.loopFree accepts
  | .classDef decl => decl.loopFree accepts
  | _ => true

def blockLoopFree (accepts : ClassDecl → Bool) : List Stmt → Bool
  | [] => true
  | ⟨kind, _⟩ :: rest => kind.loopFree accepts && blockLoopFree accepts rest

def branchesLoopFree (accepts : ClassDecl → Bool) : List Branch → Bool
  | [] => true
  | ⟨_, body⟩ :: rest => blockLoopFree accepts body && branchesLoopFree accepts rest

def casesLoopFree (accepts : ClassDecl → Bool) : List CaseClause → Bool
  | [] => true
  | ⟨_, body⟩ :: rest => blockLoopFree accepts body && casesLoopFree accepts rest

def otherwiseLoopFree (accepts : ClassDecl → Bool) : Option (List Stmt) → Bool
  | none => true
  | some body => blockLoopFree accepts body

def Procedure.loopFree (accepts : ClassDecl → Bool) : Procedure → Bool
  | ⟨_, _, _, _, _, body⟩ => blockLoopFree accepts body

def ClassDecl.loopFree (accepts : ClassDecl → Bool) : ClassDecl → Bool
  | ⟨name, members⟩ => accepts ⟨name, members⟩ && membersLoopFree accepts members

def membersLoopFree (accepts : ClassDecl → Bool) : List ClassMember → Bool
  | [] => true
  | .field .. :: rest => membersLoopFree accepts rest
  | .procedure decl :: rest => decl.loopFree accepts && membersLoopFree accepts rest

end

variable {accepts : ClassDecl → Bool}

theorem blockLoopFree_eq_all (block : Block) :
    blockLoopFree accepts block = block.all fun stmt => stmt.kind.loopFree accepts := by
  induction block with
  | nil => rfl
  | cons stmt rest ih =>
    obtain ⟨kind, range⟩ := stmt
    rw [blockLoopFree, ih, List.all_cons]

theorem branchesLoopFree_eq_all (branches : List Branch) :
    branchesLoopFree accepts branches =
      branches.all fun branch => blockLoopFree accepts branch.body := by
  induction branches with
  | nil => rfl
  | cons branch rest ih =>
    obtain ⟨condition, body⟩ := branch
    rw [branchesLoopFree, ih, List.all_cons]

theorem casesLoopFree_eq_all (cases : List CaseClause) :
    casesLoopFree accepts cases = cases.all fun clause => blockLoopFree accepts clause.body := by
  induction cases with
  | nil => rfl
  | cons clause rest ih =>
    obtain ⟨tests, body⟩ := clause
    rw [casesLoopFree, ih, List.all_cons]

theorem loopFree_of_mem_block {block : Block} {stmt : Stmt} (free : blockLoopFree accepts block)
    (member : stmt ∈ block) : stmt.kind.loopFree accepts := by
  rw [blockLoopFree_eq_all, List.all_eq_true] at free
  exact free stmt member

theorem loopFree_of_mem_otherwise {otherwise : Option Block} {body : Block}
    (free : otherwiseLoopFree accepts otherwise) (member : body ∈ otherwise.toList) :
    blockLoopFree accepts body := by
  cases otherwise with
  | none => cases member
  | some other => exact List.mem_singleton.mp member ▸ free

theorem loopFree_of_mem_members {members : List ClassMember} {decl : Procedure}
    (free : membersLoopFree accepts members) (member : .procedure decl ∈ members) :
    decl.loopFree accepts := by
  induction members with
  | nil => cases member
  | cons first rest ih =>
    cases first with
    | field access var =>
      rcases List.mem_cons.mp member with same | member
      · cases same
      · exact ih free member
    | procedure other =>
      rw [membersLoopFree, Bool.and_eq_true] at free
      rcases List.mem_cons.mp member with same | member
      · cases same
        exact free.1
      · exact ih free.2 member

theorem loopFree_of_mem_bodies {kind : StmtKind} {body : Block} (free : kind.loopFree accepts)
    (member : body ∈ kind.bodies) : blockLoopFree accepts body := by
  cases kind with
  | choose branches otherwise =>
    rw [StmtKind.loopFree, Bool.and_eq_true, branchesLoopFree_eq_all, List.all_eq_true] at free
    rcases List.mem_append.mp member with member | member
    · obtain ⟨branch, inside, rfl⟩ := List.mem_map.mp member
      exact free.1 branch inside
    · exact loopFree_of_mem_otherwise free.2 member
  | select subject cases otherwise =>
    rw [StmtKind.loopFree, Bool.and_eq_true, casesLoopFree_eq_all, List.all_eq_true] at free
    rcases List.mem_append.mp member with member | member
    · obtain ⟨clause, inside, rfl⟩ := List.mem_map.mp member
      exact free.1 clause inside
    · exact loopFree_of_mem_otherwise free.2 member
  | forEach element group inner => exact List.mem_singleton.mp member ▸ free
  | withBlock object inner => exact List.mem_singleton.mp member ▸ free
  | forRange | doLoop | whileLoop => cases free
  | _ => cases member

theorem Procedure.loopFree_iff (decl : Procedure) :
    decl.loopFree accepts = blockLoopFree accepts decl.body := by
  obtain ⟨name, kind, access, isDefault, params, body⟩ := decl
  rfl

theorem ClassDecl.loopFree_iff (decl : ClassDecl) :
    decl.loopFree accepts = (accepts decl && membersLoopFree accepts decl.members) := by
  obtain ⟨name, members⟩ := decl
  rfl

/-- A function of the embedding program that hands out no code but what it was given, and does not
claim that the bound on the steps was reached. -/
def Native.Harmless (f : Native) : Prop :=
  ∀ args, match f.run args with
    | .ok v => v.Plain ∨ v ∈ args
    | .error s => s ≠ .exhausted

def Policy.loopFree (accepts : ClassDecl → Bool) : Policy where
  procedure decl := decl.loopFree accepts
  cls c := ∃ source : ClassDecl, source.loopFree accepts ∧ ClassDef.ofDecl source = .ok c
  native f := f.Harmless
  exhausts := False
  member := by
    rintro c decl ⟨source, free, done⟩ runs
    rw [ClassDecl.loopFree_iff, Bool.and_eq_true] at free
    exact loopFree_of_mem_members free.2 (ClassDef.mem_members_of_runs done decl runs)
  answer := by
    intro f args v harmless given done
    have answer := harmless args
    rw [done] at answer
    rcases answer with plain | member
    · exact plain.codeSatisfies
    · exact given v member
  steady := by
    intro f args harmless done
    have answer := harmless args
    rw [done] at answer
    exact answer rfl

theorem StmtKind.obeys_loopFree {kind : StmtKind} (free : kind.loopFree accepts) :
    kind.Obeys (.loopFree accepts) := by
  cases kind with
  | forRange | doLoop | whileLoop => cases free
  | procedure decl => exact free
  | classDef decl => exact fun cls done => ⟨decl, free, done⟩
  | redim => exact fun _ => trivial
  | _ => trivial

theorem Machine.carries_start (p : Policy) (limit : Nat) :
    ({ callLimit := limit } : Machine).Carries p := by
  refine ⟨⟨nofun, nofun, fun e member => (simple_builtinConstants e member).value, nofun⟩,
    ⟨fun cell a found => ?_, fun cell c found => ?_, fun cell d found => ?_⟩, nofun, nofun, nofun⟩
  · simp [Heap.array?] at found
  · simp [Heap.instance?] at found
  · simp at found

end ServerScript
