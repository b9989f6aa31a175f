import ServerScript.Proofs.Occurrences

/-! Cutting a text into pieces. A text is cut at the first occurrence of the separator, and what
is behind it is cut in the same way as long as cuts are left. Whether separators are searched one
behind the other or looked for at each character in turn, a text is cut in this one way: splitting
gives its pieces and replacing puts a new text between them. The pieces and the separators make up
the text, and no piece but a last one, where no cut was left, contains the separator. -/
namespace ServerScript.Text

variable {mode : CompareMode} {needle new text piece separator rest : List Char}
  {pieces : List (List Char)} {left : Option Nat}

def Contains (mode : CompareMode) (needle text : List Char) : Prop :=
  ∃ i, OccursAt mode needle text i

/-- No cut is made within a text that another one follows. -/
def Uncut (mode : CompareMode) (needle : List Char) (left : Option Nat)
    (piece rest : List Char) : Prop :=
  left = some 0 ∨ ∀ i < piece.length, ¬OccursAt mode needle (piece ++ rest) i

/-- A text is cut at separators, each of them the first one behind the one before, until no
separator or no cut is left. -/
inductive Cuts (mode : CompareMode) (needle : List Char) :
    Option Nat → List Char → List (List Char) → Prop where
  | last {left : Option Nat} {piece : List Char} (uncut : Uncut mode needle left piece []) :
      Cuts mode needle left piece [piece]
  | cut {left : Option Nat} {piece separator rest : List Char} {pieces : List (List Char)}
      (allowed : left ≠ some 0)
      (uncut : Uncut mode needle left piece (separator ++ rest))
      (same : Matches mode separator needle)
      (others : Cuts mode needle (left.map (· - 1)) rest pieces) :
      Cuts mode needle left (piece ++ separator ++ rest) (piece :: pieces)

theorem OccursAt.append {i : Nat} (occurs : OccursAt mode needle piece i) (sought : needle ≠ []) :
    OccursAt mode needle (piece ++ rest) i := by
  have within := occurs.le_length sought
  obtain ⟨before, found, after, rfl, rfl, same⟩ := (occursAt_iff (by omega)).mp occurs
  refine (occursAt_iff (by simp)).mpr ⟨before, found, after ++ rest, ?_, rfl, same⟩
  rw [List.append_assoc]

theorem Uncut.not_contains (uncut : Uncut mode needle left piece rest) (allowed : left ≠ some 0)
    (sought : needle ≠ []) : ¬Contains mode needle piece := by
  rintro ⟨i, occurs⟩
  have within := occurs.le_length sought
  have := List.length_pos_iff.mpr sought
  exact uncut.resolve_left allowed i (by omega) (occurs.append sought)

/-! ### Cutting by searches -/

theorem remaining_lt {start i : Nat} (sought : needle ≠ [])
    (found : find? mode needle text start = some i) :
    text.length - (i + needle.length) < text.length - start := by
  obtain ⟨after, occurs, -⟩ := find?_eq_some sought found
  have := occurs.le_length sought
  have := List.length_pos_iff.mpr sought
  omega

/-- The pieces of a text from a position on, if each separator is searched behind the one that was
found before. -/
def searchedPieces (mode : CompareMode) (needle text : List Char) (sought : needle ≠ [])
    (left : Option Nat) (start : Nat) : List (List Char) :=
  if left = some 0 then [text.drop start]
  else
    match _ : find? mode needle text start with
    | none => [text.drop start]
    | some i =>
      (text.drop start).take (i - start) ::
        searchedPieces mode needle text sought (left.map (· - 1)) (i + needle.length)
termination_by text.length - start
decreasing_by exact remaining_lt sought ‹_›

theorem searchedPieces_of_none {start : Nat} (sought : needle ≠ [])
    (none : find? mode needle text start = none) :
    searchedPieces mode needle text sought left start = [text.drop start] := by
  rw [searchedPieces]
  split
  · rfl
  · split
    · rfl
    · next found => cases none.symm.trans found

theorem searchedPieces_of_some {start i : Nat} (sought : needle ≠ []) (allowed : left ≠ some 0)
    (found : find? mode needle text start = some i) :
    searchedPieces mode needle text sought left start = (text.drop start).take (i - start) ::
      searchedPieces mode needle text sought (left.map (· - 1)) (i + needle.length) := by
  rw [searchedPieces, if_neg allowed]
  split
  · next none => cases none.symm.trans found
  · next found' =>
    cases found'.symm.trans found
    rfl

theorem drop_eq_of_le {start i : Nat} (text : List Char) (after : start ≤ i) (n : Nat) :
    text.drop start =
      (text.drop start).take (i - start) ++ (text.drop i).take n ++ text.drop (i + n) := by
  have behind : text.drop i = (text.drop start).drop (i - start) := by
    rw [List.drop_drop, Nat.add_sub_cancel' after]
  rw [List.append_assoc, ← List.drop_drop, List.take_append_drop, behind, List.take_append_drop]

/-- Searches cut a text. -/
theorem cuts_searchedPieces (mode : CompareMode) (text : List Char) (sought : needle ≠ [])
    (left : Option Nat) (start : Nat) :
    Cuts mode needle left (text.drop start)
      (searchedPieces mode needle text sought left start) := by
  induction left, start using searchedPieces.induct mode needle text sought with
  | case1 start =>
    rw [searchedPieces, if_pos rfl]
    exact .last (.inl rfl)
  | case2 left start allowed none =>
    rw [searchedPieces_of_none sought none]
    refine .last (.inr fun j within => ?_)
    rw [List.append_nil, occursAt_drop]
    exact find?_eq_none sought none (start + j) (Nat.le_add_right start j)
  | case3 left start allowed i found ih =>
    obtain ⟨after, occurs, first⟩ := find?_eq_some sought found
    have parts := drop_eq_of_le text after needle.length
    have uncut : Uncut mode needle left ((text.drop start).take (i - start))
        ((text.drop i).take needle.length ++ text.drop (i + needle.length)) := by
      refine .inr fun j within => ?_
      rw [List.length_take] at within
      rw [← List.append_assoc, ← parts, occursAt_drop]
      exact first (start + j) (by omega) (Nat.le_add_right start j)
    have cuts := Cuts.cut allowed uncut occurs ih
    rwa [← parts, ← searchedPieces_of_some sought allowed found] at cuts

/-! ### Splitting and replacing -/

theorem Uncut.head {c : Char} (uncut : Uncut mode needle left (c :: piece) rest) :
    (cutsLeft left && startsWith mode needle (c :: (piece ++ rest))) = false := by
  rcases uncut with rfl | nowhere
  · rfl
  · have differs := mt startsWith_iff.mp (nowhere 0 (Nat.succ_pos _))
    rw [Bool.and_eq_false_iff]
    exact .inr (Bool.eq_false_of_not_eq_true differs)

theorem Uncut.tail {c : Char} (uncut : Uncut mode needle left (c :: piece) rest) :
    Uncut mode needle left piece rest := by
  refine uncut.imp_right fun nowhere i within => ?_
  exact nowhere (i + 1) (Nat.succ_lt_succ within)

theorem cuts_at_separator (allowed : left ≠ some 0) (same : Matches mode separator needle)
    (rest : List Char) :
    (cutsLeft left && startsWith mode needle (separator ++ rest)) = true := by
  rw [Bool.and_eq_true]
  refine ⟨bne_iff_ne.mpr allowed, startsWith_iff.mpr ?_⟩
  exact (occursAt_iff (Nat.zero_le _)).mpr ⟨[], separator, rest, rfl, rfl, same⟩

theorem cut_uncut (uncut : Uncut mode needle left piece rest) (done : List Char)
    (pieces : List (List Char)) :
    cut mode needle left 0 done pieces (piece ++ rest) =
      cut mode needle left 0 (piece.reverse ++ done) pieces rest := by
  induction piece generalizing done with
  | nil => rfl
  | cons c piece ih =>
    rw [List.cons_append, cut, uncut.head, if_neg Bool.false_ne_true, ih uncut.tail,
      List.reverse_cons, List.append_assoc, List.singleton_append]

theorem cut_skip (skipped : List Char) (left : Option Nat) (done : List Char)
    (pieces : List (List Char)) :
    cut mode needle left skipped.length done pieces (skipped ++ rest) =
      cut mode needle left 0 done pieces rest := by
  induction skipped with
  | nil => rfl
  | cons c skipped ih => exact ih

theorem cut_separator (allowed : left ≠ some 0) (same : Matches mode separator needle)
    (sought : needle ≠ []) (done : List Char) (pieces : List (List Char)) :
    cut mode needle left 0 done pieces (separator ++ rest) =
      cut mode needle (left.map (· - 1)) 0 [] (done.reverse :: pieces) rest := by
  have starts := cuts_at_separator allowed same rest
  obtain ⟨c, tail, rfl, size⟩ := same.exists_cons sought
  rw [List.cons_append] at starts ⊢
  rw [cut, if_pos starts, size, cut_skip]

theorem cut_eq_of_cuts (cuts : Cuts mode needle left text pieces) (sought : needle ≠ [])
    (done : List (List Char)) :
    cut mode needle left 0 [] done text = done.reverse ++ pieces := by
  induction cuts generalizing done with
  | @last left piece uncut =>
    have passed := cut_uncut uncut [] done
    rw [List.append_nil, List.append_nil] at passed
    rw [passed, cut, List.reverse_reverse, List.reverse_cons]
  | @cut left piece separator rest pieces allowed uncut same others ih =>
    rw [List.append_assoc, cut_uncut uncut, List.append_nil, cut_separator allowed same sought, ih,
      List.reverse_reverse, List.reverse_cons, List.append_assoc, List.singleton_append]

theorem substitute_uncut (uncut : Uncut mode needle left piece rest) (new done : List Char) :
    substitute mode needle new left 0 done (piece ++ rest) =
      substitute mode needle new left 0 (piece.reverse ++ done) rest := by
  induction piece generalizing done with
  | nil => rfl
  | cons c piece ih =>
    rw [List.cons_append, substitute, uncut.head, if_neg Bool.false_ne_true, ih uncut.tail,
      List.reverse_cons, List.append_assoc, List.singleton_append]

theorem substitute_skip (skipped : List Char) (left : Option Nat) (done : List Char) :
    substitute mode needle new left skipped.length done (skipped ++ rest) =
      substitute mode needle new left 0 done rest := by
  induction skipped with
  | nil => rfl
  | cons c skipped ih => exact ih

theorem substitute_separator (allowed : left ≠ some 0) (same : Matches mode separator needle)
    (sought : needle ≠ []) (done : List Char) :
    substitute mode needle new left 0 done (separator ++ rest) =
      substitute mode needle new (left.map (· - 1)) 0 (new.reverse ++ done) rest := by
  have starts := cuts_at_separator allowed same rest
  obtain ⟨c, tail, rfl, size⟩ := same.exists_cons sought
  rw [List.cons_append] at starts ⊢
  rw [substitute, if_pos starts, size, substitute_skip]

theorem Cuts.pieces_ne_nil (cuts : Cuts mode needle left text pieces) : pieces ≠ [] := by
  cases cuts <;> exact List.cons_ne_nil _ _

theorem substitute_eq_of_cuts (cuts : Cuts mode needle left text pieces) (sought : needle ≠ [])
    (done : List Char) :
    substitute mode needle new left 0 done text = done.reverse ++ new.intercalate pieces := by
  induction cuts generalizing done with
  | @last left piece uncut =>
    have passed := substitute_uncut uncut new done
    rw [List.append_nil] at passed
    rw [passed, substitute, List.reverse_append, List.reverse_reverse, List.intercalate_singleton]
  | @cut left piece separator rest pieces allowed uncut same others ih =>
    rw [List.append_assoc, substitute_uncut uncut, substitute_separator allowed same sought, ih,
      List.intercalate_cons_of_ne_nil others.pieces_ne_nil]
    simp only [List.reverse_append, List.reverse_reverse, List.append_assoc]

theorem split_eq_iff (sought : needle ≠ []) (given : text ≠ []) :
    split mode needle text left = pieces ↔ Cuts mode needle left text pieces := by
  have follows {pieces : List (List Char)} (cuts : Cuts mode needle left text pieces) :
      split mode needle text left = pieces := by
    rw [split, if_neg (mt List.isEmpty_iff.mp given), if_neg (mt List.isEmpty_iff.mp sought),
      cut_eq_of_cuts cuts sought, List.reverse_nil, List.nil_append]
  constructor
  · rintro rfl
    have cuts := cuts_searchedPieces mode text sought left 0
    rwa [List.drop_zero, ← follows cuts] at cuts
  · exact follows

theorem split_eq_searchedPieces (sought : needle ≠ []) (given : text ≠ []) :
    split mode needle text left = searchedPieces mode needle text sought left 0 := by
  apply (split_eq_iff sought given).mpr
  exact cuts_searchedPieces mode text sought left 0

theorem replace_eq_of_cuts (cuts : Cuts mode needle left text pieces) (sought : needle ≠ []) :
    replace mode needle new text left = new.intercalate pieces := by
  rw [replace, if_neg (mt List.isEmpty_iff.mp sought), substitute_eq_of_cuts cuts sought]
  rfl

theorem replace_eq_intercalate_split (sought : needle ≠ []) :
    replace mode needle new text left = new.intercalate (split mode needle text left) := by
  by_cases given : text = []
  · subst given
    simp [replace, split, substitute]
  · exact replace_eq_of_cuts ((split_eq_iff sought given).mp rfl) sought

/-! ### What the pieces are -/

namespace Cuts

theorem intercalate_eq (cuts : Cuts .binary needle left text pieces) :
    needle.intercalate pieces = text := by
  induction cuts with
  | last uncut => exact List.intercalate_singleton
  | cut allowed uncut same others ih =>
    rw [List.intercalate_cons_of_ne_nil others.pieces_ne_nil, ih, same.eq]

theorem exists_separators (cuts : Cuts mode needle left text pieces) :
    ∃ separators : List (List Char), separators.length + 1 = pieces.length ∧
      (∀ separator ∈ separators, Matches mode separator needle) ∧
      (pieces.zipWith (· ++ ·) (separators ++ [[]])).flatten = text := by
  induction cuts with
  | last uncut => exact ⟨[], rfl, nofun, by simp⟩
  | @cut left piece separator rest pieces allowed uncut same others ih =>
    obtain ⟨separators, count, matching, whole⟩ := ih
    refine ⟨separator :: separators, congrArg (· + 1) count,
      List.forall_mem_cons.mpr ⟨same, matching⟩, ?_⟩
    rw [List.cons_append, List.zipWith_cons_cons, List.flatten_cons, whole]

theorem length_le {n : Nat} (cuts : Cuts mode needle (some n) text pieces) :
    pieces.length ≤ n + 1 := by
  generalize bound : some n = left at cuts
  induction cuts generalizing n with
  | last uncut => exact Nat.succ_le_succ (Nat.zero_le n)
  | cut allowed uncut same others ih =>
    subst bound
    have positive : n ≠ 0 := fun zero => allowed (congrArg some zero)
    have fewer : _ ≤ n - 1 + 1 := ih rfl
    rw [List.length_cons]
    omega

theorem not_contains_of_mem_dropLast (cuts : Cuts mode needle left text pieces)
    (sought : needle ≠ []) : ∀ piece ∈ pieces.dropLast, ¬Contains mode needle piece := by
  induction cuts with
  | last uncut => exact nofun
  | cut allowed uncut same others ih =>
    rw [List.dropLast_cons_of_ne_nil others.pieces_ne_nil]
    exact List.forall_mem_cons.mpr ⟨uncut.not_contains allowed sought, ih⟩

theorem not_contains_of_mem (cuts : Cuts mode needle none text pieces) (sought : needle ≠ []) :
    ∀ piece ∈ pieces, ¬Contains mode needle piece := by
  generalize bound : none = left at cuts
  induction cuts with
  | last uncut =>
    subst bound
    exact List.forall_mem_singleton.mpr (uncut.not_contains nofun sought)
  | cut allowed uncut same others ih =>
    subst bound
    exact List.forall_mem_cons.mpr ⟨uncut.not_contains allowed sought, ih rfl⟩

end Cuts
end ServerScript.Text
