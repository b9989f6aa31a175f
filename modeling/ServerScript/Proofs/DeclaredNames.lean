import ServerScript.Proofs.Statements

/-! The names that the frame of a procedure may get: its parameters, its own name if it returns a
value, and what its body declares at any depth, but outside of inner procedures and classes. -/
namespace ServerScript

mutual

/-- The names that a statement may give a variable in the frame of its procedure. -/
def StmtKind.names : StmtKind → List Name
  | .dim decls => decls.map (·.name)
  | .procedure decl => [decl.name]
  | .classDef decl => [decl.ident]
  | .choose branches otherwise => branchNames branches ++ otherwiseNames otherwise
  | .select _ cases otherwise => caseNames cases ++ otherwiseNames otherwise
  | .forRange _ _ _ _ body => blockNames body
  | .forEach _ _ body => blockNames body
  | .doLoop _ body => blockNames body
  | .whileLoop _ body => blockNames body
  | .withBlock _ body => blockNames body
  | _ => []

def blockNames : List Stmt → List Name
  | [] => []
  | ⟨kind, _⟩ :: rest => kind.names ++ blockNames rest

def branchNames : List Branch → List Name
  | [] => []
  | ⟨_, body⟩ :: rest => blockNames body ++ branchNames rest

def caseNames : List CaseClause → List Name
  | [] => []
  | ⟨_, body⟩ :: rest => blockNames body ++ caseNames rest

def otherwiseNames : Option (List Stmt) → List Name
  | none => []
  | some body => blockNames body

end

/-- The names that the frame of a procedure may get. -/
def Procedure.names (decl : Procedure) : List Name :=
  decl.params.map (·.name) ++ (if decl.kind.returnsValue then [decl.name] else []) ++
    blockNames decl.body

theorem names_subset_blockNames {block : Block} {stmt : Stmt} (member : stmt ∈ block) :
    stmt.kind.names ⊆ blockNames block := by
  induction block with
  | nil => cases member
  | cons first rest ih =>
    obtain ⟨kind, range⟩ := first
    rw [blockNames]
    rcases List.mem_cons.mp member with rfl | member
    · exact List.subset_append_left _ _
    · exact List.subset_append_of_subset_right _ (ih member)

theorem blockNames_subset_cons (stmt : Stmt) (rest : Block) :
    blockNames rest ⊆ blockNames (stmt :: rest) := by
  obtain ⟨kind, range⟩ := stmt
  rw [blockNames]
  exact List.subset_append_right _ _

theorem declared_subset_names (kind : StmtKind) : kind.declared ⊆ kind.names := by
  cases kind <;> simp [StmtKind.declared, StmtKind.names]

theorem blockNames_subset_branchNames {branches : List Branch} {branch : Branch}
    (member : branch ∈ branches) : blockNames branch.body ⊆ branchNames branches := by
  induction branches with
  | nil => cases member
  | cons first rest ih =>
    obtain ⟨condition, body⟩ := first
    rw [branchNames]
    rcases List.mem_cons.mp member with rfl | member
    · exact List.subset_append_left _ _
    · exact List.subset_append_of_subset_right _ (ih member)

theorem blockNames_subset_caseNames {cases : List CaseClause} {clause : CaseClause}
    (member : clause ∈ cases) : blockNames clause.body ⊆ caseNames cases := by
  induction cases with
  | nil => cases member
  | cons first rest ih =>
    obtain ⟨tests, body⟩ := first
    rw [caseNames]
    rcases List.mem_cons.mp member with rfl | member
    · exact List.subset_append_left _ _
    · exact List.subset_append_of_subset_right _ (ih member)

theorem blockNames_subset_otherwiseNames {otherwise : Option Block} {body : Block}
    (member : body ∈ otherwise.toList) : blockNames body ⊆ otherwiseNames otherwise := by
  cases otherwise with
  | none => cases member
  | some other =>
    obtain rfl := List.mem_singleton.mp member
    exact List.Subset.refl _

theorem bodies_subset_names {kind : StmtKind} {body : Block} (member : body ∈ kind.bodies) :
    blockNames body ⊆ kind.names := by
  cases kind with
  | choose branches otherwise =>
    rcases List.mem_append.mp member with member | member
    · obtain ⟨branch, inside, rfl⟩ := List.mem_map.mp member
      exact List.subset_append_of_subset_left _ (blockNames_subset_branchNames inside)
    · exact List.subset_append_of_subset_right _ (blockNames_subset_otherwiseNames member)
  | select subject cases otherwise =>
    rcases List.mem_append.mp member with member | member
    · obtain ⟨clause, inside, rfl⟩ := List.mem_map.mp member
      exact List.subset_append_of_subset_left _ (blockNames_subset_caseNames inside)
    · exact List.subset_append_of_subset_right _ (blockNames_subset_otherwiseNames member)
  | forRange | forEach | doLoop | whileLoop | withBlock =>
    obtain rfl := List.mem_singleton.mp member
    exact List.Subset.refl _
  | _ => cases member

theorem append_subset_append {as bs cs ds : List Name} (first : as ⊆ cs) (second : bs ⊆ ds) :
    as ++ bs ⊆ cs ++ ds := by
  refine List.append_subset.mpr ⟨?_, ?_⟩
  · exact List.subset_append_of_subset_left ds first
  · exact List.subset_append_of_subset_right cs second

mutual

theorem StmtKind.scalars_subset : ∀ kind : StmtKind, kind.scalars ⊆ kind.names
  | .dim decls => by
    intro name member
    obtain ⟨decl, inside, rfl⟩ := List.mem_map.mp member
    exact List.mem_map_of_mem (List.mem_filter.mp inside |>.1)
  | .choose branches otherwise =>
    append_subset_append (branchScalars_subset branches) (otherwiseScalars_subset otherwise)
  | .select _ cases otherwise =>
    append_subset_append (caseScalars_subset cases) (otherwiseScalars_subset otherwise)
  | .forRange _ _ _ _ body => blockScalars_subset body
  | .forEach _ _ body => blockScalars_subset body
  | .doLoop _ body => blockScalars_subset body
  | .whileLoop _ body => blockScalars_subset body
  | .withBlock _ body => blockScalars_subset body
  | .call _ | .assign .. | .redim .. | .constants _ | .erase _ | .exit _ | .procedure _
  | .classDef _ | .onError _ | .optionExplicit | .optionCompare _ => List.nil_subset _

theorem blockScalars_subset : ∀ block : List Stmt, blockScalars block ⊆ blockNames block
  | [] => List.nil_subset _
  | ⟨kind, _⟩ :: rest => append_subset_append kind.scalars_subset (blockScalars_subset rest)

theorem branchScalars_subset : ∀ branches : List Branch,
    branchScalars branches ⊆ branchNames branches
  | [] => List.nil_subset _
  | ⟨_, body⟩ :: rest =>
    append_subset_append (blockScalars_subset body) (branchScalars_subset rest)

theorem caseScalars_subset : ∀ cases : List CaseClause, caseScalars cases ⊆ caseNames cases
  | [] => List.nil_subset _
  | ⟨_, body⟩ :: rest =>
    append_subset_append (blockScalars_subset body) (caseScalars_subset rest)

theorem otherwiseScalars_subset : ∀ otherwise : Option (List Stmt),
    otherwiseScalars otherwise ⊆ otherwiseNames otherwise
  | none => List.nil_subset _
  | some body => blockScalars_subset body

end

end ServerScript
