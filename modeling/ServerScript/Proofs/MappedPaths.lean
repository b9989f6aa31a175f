import Mathlib.Data.List.Induction
import Mathlib.Data.List.TakeWhile
import Mathlib.Tactic.Common
import ServerScript.Host.Path

/-! Where mapped paths lead. A virtual path is read part by part, and what is left of it are names
only, so the file it stands for is the root or lies below it. -/
namespace ServerScript.Path

variable {root directory : String} {cs part : List Char} {parts left : List (List Char)}

structure Ordinary (part : List Char) : Prop where
  nonempty : part ≠ []
  notHere : part ≠ ['.']
  notParent : part ≠ ['.', '.']
  slashless : '/' ∉ part

/-- What is left of parts that are read from left to right. -/
inductive Resolves : List (List Char) → List (List Char) → Prop
  | start : Resolves [] []
  | stay {parts left : List (List Char)} {part : List Char} (front : Resolves parts left)
      (here : part = [] ∨ part = ['.']) : Resolves (parts ++ [part]) left
  | up {parts left : List (List Char)} (front : Resolves parts left) :
      Resolves (parts ++ [['.', '.']]) left.dropLast
  | down {parts left : List (List Char)} {part : List Char} (front : Resolves parts left)
      (name : Ordinary part) : Resolves (parts ++ [part]) (left ++ [part])

/-- The directory of a script: what stands in front of its last slash, and nothing without one. -/
inductive Directory : List Char → List Char → Prop
  | inside {ds fs : List Char} (file : '/' ∉ fs) : Directory (ds ++ '/' :: fs) ds
  | bare {fs : List Char} (file : '/' ∉ fs) : Directory fs []

/-- The path from the root that a path stands for in a script. -/
inductive Virtual (script path : String) : List Char → Prop
  | rooted (slash : (slashes path).head? = some '/') : Virtual script path (slashes path)
  | relative {ds : List Char} (other : (slashes path).head? ≠ some '/')
      (directory : Directory script.toList ds) : Virtual script path (ds ++ '/' :: slashes path)

def enter (directory : String) (part : List Char) : String :=
  if directory = "" ∨ directory.toList.getLast? = some '/' then directory ++ String.ofList part
  else directory ++ "/" ++ String.ofList part

def components (cs : List Char) : List (List Char) :=
  (cs.splitOn '/').filter fun part => part ≠ [] ∧ part ≠ ['.']

/-! ### Reading a path -/

theorem split_eq_splitOn (cs : List Char) : split cs = cs.splitOn '/' := by
  induction cs with
  | nil => exact (List.splitOn_nil '/').symm
  | cons c cs ih =>
    rw [List.splitOn_cons_eq_if_modifyHead, ← ih]
    change prepend c (split cs) = _
    simp only [prepend, beq_iff_eq]
    split
    · rfl
    · cases parts : split cs with
      | nil => exact absurd (ih.symm.trans parts) (List.splitOn_ne_nil '/' cs)
      | cons => rfl

theorem slashless_of_mem_splitOn (member : part ∈ cs.splitOn '/') : '/' ∉ part := by
  induction cs generalizing part with
  | nil =>
    rw [List.splitOn_nil, List.mem_singleton] at member
    exact member ▸ List.not_mem_nil
  | cons c cs ih =>
    rw [List.splitOn_cons_eq_if_modifyHead] at member
    split at member
    · rcases List.mem_cons.mp member with rfl | rest
      · exact List.not_mem_nil
      · exact ih rest
    · rename_i other
      cases parts : cs.splitOn '/' with
      | nil => exact absurd parts (List.splitOn_ne_nil '/' cs)
      | cons first others =>
        rw [parts] at member ih
        rcases List.mem_cons.mp member with rfl | rest
        · refine List.not_mem_cons_of_ne_of_not_mem ?_ (ih List.mem_cons_self)
          exact fun slash => other (beq_iff_eq.mpr slash.symm)
        · exact ih (List.mem_cons_of_mem _ rest)

theorem resolves_foldl_step (slashless : ∀ part ∈ parts, '/' ∉ part) :
    Resolves parts (parts.foldl step []).reverse := by
  induction parts using List.reverseRecOn with
  | nil => exact .start
  | append_singleton parts part ih =>
    have front := ih fun part member => slashless part (List.mem_append_left _ member)
    rw [List.foldl_append, List.foldl_cons, List.foldl_nil, step, stays]
    split
    · rename_i here
      exact .stay front (by simpa using here)
    · rename_i elsewhere
      split
      · rename_i parent
        rw [parent, ← List.dropLast_reverse]
        exact .up front
      · rename_i notParent
        rw [List.reverse_cons]
        simp only [Bool.or_eq_true, decide_eq_true_eq, not_or] at elsewhere
        exact .down front
          ⟨elsewhere.1, elsewhere.2, notParent, slashless part List.mem_concat_self⟩

theorem Resolves.ordinary (resolves : Resolves parts left) : ∀ part ∈ left, Ordinary part := by
  induction resolves with
  | start => exact List.forall_mem_nil _
  | stay _ _ ih => exact ih
  | up _ ih => exact fun part member => ih part (List.dropLast_subset _ member)
  | down _ name ih => exact List.forall_mem_append.mpr ⟨ih, List.forall_mem_singleton.mpr name⟩

theorem directory_spec (script : List Char) : Directory script (Path.directory script) := by
  have file : '/' ∉ (script.reverse.takeWhile (· != '/')).reverse := fun slash =>
    absurd (List.mem_takeWhile_imp (List.mem_reverse.mp slash)) (by decide)
  have parts : script = (script.reverse.dropWhile (· != '/')).reverse ++
      (script.reverse.takeWhile (· != '/')).reverse := by
    rw [← List.reverse_append, List.takeWhile_append_dropWhile, List.reverse_reverse]
  have stops := List.head?_dropWhile_not (· != '/') script.reverse
  rw [Path.directory]
  cases front : script.reverse.dropWhile (· != '/') with
  | nil =>
    rw [front, List.reverse_nil, List.nil_append] at parts
    exact .bare (parts ▸ file)
  | cons c ds =>
    rw [front, List.head?_cons] at stops
    obtain rfl : c = '/' := by simpa using stops
    rw [front, List.reverse_cons, List.append_assoc, List.singleton_append] at parts
    have inside : Directory _ ds.reverse := .inside file
    rwa [← parts] at inside

theorem virtual_absolute (script path : String) : Virtual script path (absolute script path) := by
  unfold absolute
  dsimp only
  split
  · rename_i slash
    exact .rooted slash
  · rename_i other
    exact .relative other (directory_spec script.toList)

/-! ### Entering directories -/

theorem Ordinary.enter_ne (name : Ordinary part) :
    ¬(enter directory part = "" ∨ (enter directory part).toList.getLast? = some '/') := by
  have ends : (enter directory part).toList.getLast? = some (part.getLast name.nonempty) := by
    unfold enter
    split <;>
      rw [String.toList_append, String.toList_ofList, List.getLast?_append,
        List.getLast?_eq_some_getLast name.nonempty, Option.some_or]
  rintro (empty | slash)
  · rw [empty] at ends
    cases ends
  · rw [slash] at ends
    exact name.slashless (Option.some.inj ends ▸ List.getLast_mem name.nonempty)

theorem join_cons (name : Ordinary part) (parts : List (List Char)) :
    join root (part :: parts) = join (enter root part) parts := by
  cases parts with
  | nil =>
    rw [join, if_neg (List.cons_ne_nil _ _), join, if_pos rfl, enter]
    split <;> simp [*]
  | cons next parts =>
    -- What was entered is neither empty nor ends in a slash, so one is put in front of the next name.
    rw [join, if_neg (List.cons_ne_nil _ _), join, if_neg (List.cons_ne_nil _ _)]
    dsimp only
    rw [if_neg name.enter_ne, List.map_cons, List.map_cons, String.intercalate_cons_cons, enter]
    split <;> simp [*, String.append_assoc]

theorem join_eq_foldl_enter (names : ∀ part ∈ parts, Ordinary part) :
    join root parts = parts.foldl enter root := by
  induction parts generalizing root with
  | nil => rfl
  | cons part parts ih =>
    obtain ⟨name, others⟩ := List.forall_mem_cons.mp names
    rw [join_cons name, ih others, List.foldl_cons]

theorem components_nil : components [] = [] := by
  rw [components, List.splitOn_nil]
  rfl

theorem components_append (cs ds : List Char) :
    components (cs ++ '/' :: ds) = components cs ++ components ds := by
  rw [components, List.splitOn_append_cons_self, List.filter_append]
  rfl

theorem Ordinary.components_eq (name : Ordinary part) : components part = [part] := by
  rw [components, List.splitOn_eq_singleton name.slashless]
  simp [name.nonempty, name.notHere]

theorem components_enter (name : Ordinary part) :
    components (enter directory part).toList = components directory.toList ++ [part] := by
  unfold enter
  split
  · rename_i ends
    rw [String.toList_append, String.toList_ofList]
    rcases ends with rfl | slash
    · exact name.components_eq
    · obtain ⟨cs, ends⟩ := List.getLast?_eq_some_iff.mp slash
      rw [ends, List.append_assoc, List.singleton_append, components_append, components_append,
        components_nil, List.append_nil, name.components_eq]
  · have slash : "/".toList = ['/'] := rfl
    rw [String.toList_append, String.toList_append, slash, String.toList_ofList, List.append_assoc,
      List.singleton_append, components_append, name.components_eq]

theorem components_foldl_enter (names : ∀ part ∈ parts, Ordinary part) :
    components (parts.foldl enter root).toList = components root.toList ++ parts := by
  induction parts generalizing root with
  | nil => exact (List.append_nil _).symm
  | cons part parts ih =>
    obtain ⟨name, others⟩ := List.forall_mem_cons.mp names
    rw [List.foldl_cons, ih others, components_enter name, List.append_assoc, List.singleton_append]

/-- A mapped path is the root with names behind it: those that are left of the virtual path when its
parts are read from left to right. -/
theorem mapped_path_stays_below_root (root script path : String) :
    ∃ virtual parts, Virtual script path virtual ∧ Resolves (virtual.splitOn '/') parts ∧
      (∀ part ∈ parts, Ordinary part) ∧
      map root script path = parts.foldl enter root ∧
      components (map root script path).toList = components root.toList ++ parts := by
  have resolves : Resolves ((absolute script path).splitOn '/') (resolve (absolute script path)) := by
    rw [resolve, split_eq_splitOn]
    exact resolves_foldl_step fun part member => slashless_of_mem_splitOn member
  have names := resolves.ordinary
  have mapped : map root script path = (resolve (absolute script path)).foldl enter root :=
    join_eq_foldl_enter names
  refine ⟨_, _, virtual_absolute script path, resolves, names, mapped, ?_⟩
  rw [mapped, components_foldl_enter names]

example : map "/site" "shop/cart.asp" "..\\..\\etc/./passwd" = "/site/etc/passwd" := by decide

end ServerScript.Path
