import Mathlib.Data.List.Induction
import Mathlib.Order.Defs.PartialOrder
import Mathlib.Tactic.Common
import ServerScript.Host.Report

/-! The bytes that a report marks. A place is what the text in front of it makes it, one step for
each character, and every step leads to a later place. So the walk over a source stops at the
character that a place names and nowhere before it, and the bytes in front of that character are its
offset. -/
namespace ServerScript

variable {p q : Position} {c : Char} {as bs cs : List Char}

namespace Position

instance : Preorder Position where
  le_refl p := .inr ⟨rfl, Nat.le_refl p.column⟩
  le_trans p q r first second := by
    rw [le_iff] at *
    omega

/-- The place behind a text: its line is one more than the line feeds of the text, and its column is
one more than the characters since the last of them. -/
def behind (cs : List Char) : Position :=
  ⟨cs.count '\n' + 1, (cs.reverse.takeWhile (· ≠ '\n')).length + 1⟩

/-- A place names the character behind a text that a source starts with, or the end of the source if
nothing is left. The end is also named by every other place past the last character. -/
inductive Names (p : Position) (source : String) : String → Prop
  | here {front rest : String} (parts : source = front ++ rest)
      (place : p = behind front.toList) : Names p source front
  | past {init : List Char} {last : Char} (parts : source.toList = init ++ [last])
      (beyond : behind init < p) : Names p source source

def next (p : Position) (c : Char) : Position :=
  if c = '\n' then ⟨p.line + 1, 1⟩ else ⟨p.line, p.column + 1⟩

/-! ### Places in order -/

theorem le_of_both (line : p.line ≤ q.line) (column : p.column ≤ q.column) : p ≤ q := by
  rw [le_iff]
  omega

theorem le_next (p : Position) (c : Char) : p ≤ p.next c := by
  rw [next, le_iff]
  split <;> simp

theorem not_next_le (p : Position) (c : Char) : ¬p.next c ≤ p := by
  rw [next, le_iff]
  split <;> simp

theorem le_foldl_next (p : Position) (cs : List Char) : p ≤ cs.foldl next p := by
  induction cs generalizing p with
  | nil => exact le_refl p
  | cons c cs ih => exact le_trans (p.le_next c) (ih (p.next c))

theorem not_foldl_next_le (p : Position) (c : Char) (cs : List Char) :
    ¬(c :: cs).foldl next p ≤ p := by
  intro back
  exact p.not_next_le c (le_trans ((p.next c).le_foldl_next cs) back)

theorem behind_eq_foldl (cs : List Char) : behind cs = cs.foldl next {} := by
  induction cs using List.reverseRecOn with
  | nil => rfl
  | append_singleton cs c ih =>
    rw [List.foldl_append, List.foldl_cons, List.foldl_nil, ← ih, behind, behind, next,
      List.count_append, List.reverse_append, List.reverse_singleton, List.singleton_append]
    split
    · rename_i feed
      rw [feed, List.takeWhile_cons_of_neg (by simp)]
      rfl
    · rename_i other
      rw [List.takeWhile_cons_of_pos (by simpa using other), List.count_singleton,
        if_neg (by simpa using other)]
      rfl

theorem behind_mono (front : as <+: bs) : behind as ≤ behind bs := by
  obtain ⟨rest, rfl⟩ := front
  rw [behind_eq_foldl, behind_eq_foldl, List.foldl_append]
  exact le_foldl_next _ rest

theorem not_behind_append_le (as : List Char) (c : Char) (bs : List Char) :
    ¬behind (as ++ c :: bs) ≤ behind as := by
  rw [behind_eq_foldl, behind_eq_foldl, List.foldl_append]
  exact not_foldl_next_le _ c bs

end Position

/-! ### Bytes -/

theorem utf8ByteSize_ofList_cons (c : Char) (cs : List Char) :
    (String.ofList (c :: cs)).utf8ByteSize = c.utf8Size + (String.ofList cs).utf8ByteSize := by
  rw [← List.singleton_append, String.ofList_append, String.utf8ByteSize_append,
    ← String.singleton_eq_ofList, String.utf8ByteSize_singleton]

theorem bytesBefore_append {front rest : List Char} {line column : Nat}
    (passes : ∀ as c bs, front = as ++ c :: bs →
      ¬p ≤ as.foldl Position.next ⟨line + 1, column + 1⟩)
    (stops : rest = [] ∨ p = front.foldl Position.next ⟨line + 1, column + 1⟩) :
    bytesBefore p line column (front ++ rest) = (String.ofList front).utf8ByteSize := by
  induction front generalizing line column with
  | nil =>
    cases rest with
    | nil => rfl
    | cons c rest =>
      obtain rfl := stops.resolve_left (List.cons_ne_nil c rest)
      exact if_pos ⟨Nat.le_refl _, Nat.le_refl _⟩
  | cons c front ih =>
    -- The walk stops where neither number is ahead, so the place would not be a later one.
    have goesOn : ¬(p.line ≤ line + 1 ∧ p.column ≤ column + 1) := fun both =>
      passes [] c front rfl (Position.le_of_both both.1 both.2)
    have others (as d bs) (parts : front = as ++ d :: bs) := passes (c :: as) d bs (parts ▸ rfl)
    simp only [List.foldl_cons, Position.next] at others stops
    rw [List.cons_append, bytesBefore, if_neg goesOn, utf8ByteSize_ofList_cons]
    split
    · rename_i feed
      simp only [if_pos feed] at others stops
      rw [ih others stops]
    · rename_i other
      simp only [if_neg other] at others stops
      rw [ih others stops]

theorem exists_bytesBefore_eq (p : Position) (line column : Nat) (cs : List Char) :
    ∃ front rest, cs = front ++ rest ∧
      bytesBefore p line column cs = (String.ofList front).utf8ByteSize := by
  induction cs generalizing line column with
  | nil => exact ⟨[], [], rfl, rfl⟩
  | cons c cs ih =>
    rw [bytesBefore]
    split
    · exact ⟨[], c :: cs, rfl, rfl⟩
    · split
      · obtain ⟨front, rest, rfl, bytes⟩ := ih (line + 1) 0
        exact ⟨c :: front, rest, rfl, by rw [bytes, utf8ByteSize_ofList_cons]⟩
      · obtain ⟨front, rest, rfl, bytes⟩ := ih line (column + 1)
        exact ⟨c :: front, rest, rfl, by rw [bytes, utf8ByteSize_ofList_cons]⟩

theorem Position.isValid_offset (p : Position) (source : String) :
    String.Pos.Raw.IsValid source ⟨p.offset source⟩ := by
  obtain ⟨front, rest, parts, bytes⟩ := exists_bytesBefore_eq p 0 0 source.toList
  refine String.Pos.Raw.isValid_iff_exists_append.mpr ⟨.ofList front, .ofList rest, ?_, ?_⟩
  · rw [← String.ofList_append, ← parts, String.ofList_toList]
  · exact congrArg String.Pos.Raw.mk bytes

namespace Position.Names

variable {source front through : String}

theorem isPrefix (names : p.Names source front) : front.toList <+: source.toList := by
  cases names with
  | here parts =>
    rw [parts, String.toList_append]
    exact List.prefix_append _ _
  | past => exact List.prefix_rfl

theorem passes (names : p.Names source front) (split : front.toList = as ++ c :: bs) :
    ¬p ≤ behind as := by
  cases names with
  | here parts place =>
    rw [place, split]
    exact not_behind_append_le as c bs
  | @past init last parts beyond =>
    have whole : as ++ c :: bs = init ++ [last] := split.symm.trans parts
    have shorter : as.length ≤ init.length := by
      have lengths := congrArg List.length whole
      simp only [List.length_append, List.length_cons, List.length_nil] at lengths
      omega
    have front : as <+: init :=
      List.prefix_of_prefix_length_le ⟨c :: bs, whole⟩ (List.prefix_append init [last]) shorter
    exact fun back => beyond.2 (le_trans back (behind_mono front))

theorem offset (names : p.Names source front) : p.offset source = front.utf8ByteSize := by
  obtain ⟨rest, parts⟩ := names.isPrefix
  have stops : rest = [] ∨ p = front.toList.foldl next {} := by
    cases names with
    | here _ place => exact .inr (place.trans (behind_eq_foldl front.toList))
    | past => exact .inl (by simpa using parts)
  have passes (as : List Char) (c bs) (split : front.toList = as ++ c :: bs) :
      ¬p ≤ as.foldl next {} := behind_eq_foldl as ▸ names.passes split
  rw [Position.offset, ← parts, bytesBefore_append passes stops, String.ofList_toList]

theorem isPrefix_of_le (start : p.Names source front) (stop : q.Names source through)
    (ordered : p ≤ q) : front.toList <+: through.toList := by
  have later := stop.isPrefix
  cases stop with
  | past => exact start.isPrefix
  | here _ place =>
    rcases List.prefix_or_prefix_of_prefix start.isPrefix later with before | ⟨between, after⟩
    · exact before
    · cases between with
      | nil => exact ⟨[], by rw [← after, List.append_nil, List.append_nil]⟩
      | cons c rest => exact absurd (place ▸ ordered) (start.passes after.symm)

end Position.Names

/-- A report marks the bytes from the character that its range starts at to the one that it ends at,
and at least one byte. -/
theorem error_span_exact (e : EvalError) {source front through : String} {range : Range}
    (known : source ≠ "") (start : range.start.Names source front)
    (stop : range.stop.Names source through) (ordered : range.start ≤ range.stop) :
    ∃ between rest, source = front ++ between ++ rest ∧ through = front ++ between ∧
      (Report.ofError source e range).span =
        ⟨front.utf8ByteSize, max 1 between.utf8ByteSize⟩ ∧
      String.Pos.Raw.IsValid source ⟨(Report.ofError source e range).span.offset⟩ := by
  have span : (Report.ofError source e range).span = range.span source := if_neg known
  obtain ⟨between, middle⟩ := start.isPrefix_of_le stop ordered
  obtain ⟨rest, whole⟩ := stop.isPrefix
  have through_eq : through = front ++ String.ofList between := by
    rw [← String.toList_inj, String.toList_append, String.toList_ofList, middle]
  refine ⟨String.ofList between, String.ofList rest, ?_, through_eq, ?_, ?_⟩
  · rw [← through_eq, ← String.toList_inj, String.toList_append, String.toList_ofList, whole]
  · rw [span, Range.span, start.offset, stop.offset, through_eq, String.utf8ByteSize_append,
      Nat.add_sub_cancel_left, Nat.max_comm]
  · rw [span]
    exact range.start.isValid_offset source

def Range.fromEmptyLine : Range := ⟨⟨2, 1⟩, ⟨3, 2⟩⟩

theorem empty_line_to_end_marked :
    "ä\n\nb" ≠ "" ∧ Range.fromEmptyLine.start.Names "ä\n\nb" "ä\n" ∧
      Range.fromEmptyLine.stop.Names "ä\n\nb" "ä\n\nb" ∧
      Range.fromEmptyLine.start ≤ Range.fromEmptyLine.stop ∧
      (Report.ofError "ä\n\nb" .divisionByZero Range.fromEmptyLine).span = ⟨3, 2⟩ := by
  have known : "ä\n\nb" ≠ "" := by decide
  have start : Range.fromEmptyLine.start.Names "ä\n\nb" "ä\n" :=
    .here (rfl : _ = "ä\n" ++ "\nb") (by decide)
  have stop : Range.fromEmptyLine.stop.Names "ä\n\nb" "ä\n\nb" :=
    .here (rfl : _ = "ä\n\nb" ++ "") (by decide)
  have ordered : Range.fromEmptyLine.start ≤ Range.fromEmptyLine.stop := by decide
  obtain ⟨between, -, -, through, span, -⟩ :=
    error_span_exact .divisionByZero known start stop ordered
  obtain rfl : between = "\nb" := (String.append_right_inj _).mp through.symm
  exact ⟨known, start, stop, ordered, span⟩

end ServerScript
