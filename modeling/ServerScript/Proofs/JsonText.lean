import Mathlib.Tactic.IntervalCases
import ServerScript.Json.Printer
import ServerScript.Json.Reader

/-! Reading back what was written. A JSON value whose numbers are integers is read back from its
indented text, as long as its arrays and objects do not nest deeper than a reader follows. A text
literal is read one character at a time, whichever way the character is escaped; an integer ends
where its digits end, which is why the text behind it must not go on like a number. -/
namespace ServerScript

namespace Number

theorem spanDigits_append {ds rest : List Char} (digits : ∀ c ∈ ds, isDigit c)
    (stops : ∀ c ∈ rest.head?, isDigit c = false) : spanDigits (ds ++ rest) = (ds, rest) := by
  have tail : rest.takeWhile isDigit = [] ∧ rest.dropWhile isDigit = rest := by
    cases rest with
    | nil => simp
    | cons c more => simp [stops c rfl]
  simp [spanDigits, List.takeWhile_append_of_pos digits, List.dropWhile_append_of_pos digits, tail]

theorem isDigit_of_mem_toDigits {n : Nat} {c : Char} (member : c ∈ Nat.toDigits 10 n) :
    isDigit c := by
  have digit := Nat.isDigit_of_mem_toDigits (by omega) (by omega) member
  simpa [Char.isDigit, isDigit, Char.le_def] using digit

theorem head?_toDigits {n : Nat} (positive : 0 < n) : (Nat.toDigits 10 n).head? ≠ some '0' := by
  induction n using Nat.strongRecOn with
  | ind n ih =>
    rw [Nat.toDigits_eq_if (by omega)]
    split
    · rename_i small
      interval_cases n <;> decide
    · have front := ih (n / 10) (by omega) (by omega)
      cases digits : Nat.toDigits 10 (n / 10) with
      | nil => exact absurd digits Nat.toDigits_ne_nil
      | cons c more => simpa [digits] using front

theorem digitValue_of_isDigit {c : Char} (digit : isDigit c) :
    digitValue c = c.toNat - '0'.toNat ∧ digitValue c < 10 := by
  simp only [isDigit, Bool.and_eq_true, decide_eq_true_eq] at digit
  have value : digitValue c = c.toNat - '0'.toNat := if_pos digit
  have high : c.toNat ≤ '9'.toNat := digit.2
  have bounds : '0'.toNat = 48 ∧ '9'.toNat = 57 := ⟨rfl, rfl⟩
  omega

theorem foldl_digitValue {ds : List Char} (digits : ∀ c ∈ ds, isDigit c) (n : Nat) :
    ds.foldl (fun n c => n * 10 + digitValue c) n = Nat.ofDigitChars 10 ds n := by
  induction ds generalizing n with
  | nil => simp
  | cons c ds ih =>
    rw [List.forall_mem_cons] at digits
    rw [List.foldl_cons, ih digits.2, Nat.ofDigitChars_cons, (digitValue_of_isDigit digits.1).1,
      Nat.mul_comm]

theorem digits?_toDigits (n : Nat) : digits? 10 (Nat.toDigits 10 n) = some n := by
  have digits : ∀ c ∈ Nat.toDigits 10 n, isDigit c := fun _ => isDigit_of_mem_toDigits
  have small : (Nat.toDigits 10 n).all (digitValue · < 10) := by
    simpa using fun c member => (digitValue_of_isDigit (digits c member)).2
  rw [digits?, if_pos ⟨Nat.toDigits_ne_nil, small⟩, foldl_digitValue digits,
    Nat.ofDigitChars_ten_toDigits]

theorem wordDigits?_toDigits {n : Nat} (small : n < 10 ^ 64) :
    wordDigits? 10 (Nat.toDigits 10 n) = some n := by
  have short : (significant (Nat.toDigits 10 n)).length ≤ 64 :=
    Nat.le_trans (List.dropWhile_sublist _).length_le
      ((Nat.length_toDigits_le_iff (by omega) (by omega)).mpr small)
  rw [wordDigits?, if_neg (by omega), digits?_toDigits]

end Number

namespace Json

open Number

-- The readers' equations are derived here, not by several of the proofs below at once.
attribute [local simp] textBody value? items? fields?

/-- How many arrays and objects are inside of one another. -/
def nesting : Json → Nat
  | .array items => ofItems items + 1
  | .object fields => ofFields fields + 1
  | _ => 0
where
  ofItems : List Json → Nat
    | [] => 0
    | item :: rest => max (nesting item) (ofItems rest)
  ofFields : List (String × Json) → Nat
    | [] => 0
    | (_, item) :: rest => max (nesting item) (ofFields rest)

/-- A value that is readable and has no numbers but integers. -/
inductive Plain : Json → Prop
  | null : Plain .null
  | bool (b : Bool) : Plain (.bool b)
  | int (n : Int) : Plain (.int n)
  | string (text : String) : Plain (.string text)
  | array {items : List Json} (all : ∀ item ∈ items, Plain item) : Plain (.array items)
  | object {fields : List (String × Json)} (all : ∀ field ∈ fields, Plain field.2) :
      Plain (.object fields)

theorem toList_toString (n : Int) :
    (toString n).toList = (if n < 0 then ['-'] else []) ++ Nat.toDigits 10 n.natAbs := by
  have written : toString n = n.repr := rfl
  rw [written, Int.repr_eq_if]
  split
  · have absolute : n.toNat = n.natAbs := by omega
    simp [Nat.repr_eq_ofList_toDigits, absolute, Int.not_lt.mpr ‹0 ≤ n›]
  · have absolute : (-n).toNat = n.natAbs := by omega
    simp [Nat.repr_eq_ofList_toDigits, absolute, Int.not_le.mp ‹¬0 ≤ n›]

def Ends (rest : List Char) : Prop := ∀ c ∈ rest.head?, c = ',' ∨ c = '\n'

theorem Ends.not_isDigit {rest : List Char} (ends : Ends rest) :
    ∀ c ∈ rest.head?, isDigit c = false := by
  intro c first
  rcases ends c first with rfl | rfl <;> rfl

theorem isWhole_toDigits (n : Nat) : isWhole (Nat.toDigits 10 n) := by
  rcases Nat.eq_zero_or_pos n with rfl | positive
  · rfl
  · have leads := head?_toDigits positive
    cases digits : Nat.toDigits 10 n with
    | nil => exact absurd digits Nat.toDigits_ne_nil
    | cons c more =>
      have leads : c ≠ '0' := by simpa [digits] using leads
      simp [isWhole, leads]

theorem takeMinus_toDigits (n : Nat) (rest : List Char) :
    takeMinus (Nat.toDigits 10 n ++ rest) = ([], Nat.toDigits 10 n ++ rest) := by
  cases digits : Nat.toDigits 10 n with
  | nil => exact absurd digits Nat.toDigits_ne_nil
  | cons c more =>
    have digit : isDigit c := isDigit_of_mem_toDigits (n := n) (by simp [digits])
    have other : c ≠ '-' := by
      rintro rfl
      cases digit
    simp [takeMinus, other]

theorem takeFraction?_of_ends {rest : List Char} (ends : Ends rest) :
    takeFraction? rest = some ([], rest) := by
  cases rest with
  | nil => rfl
  | cons c more => rcases ends c rfl with rfl | rfl <;> rfl

theorem takePower?_of_ends {rest : List Char} (ends : Ends rest) :
    takePower? rest = some ([], rest) := by
  cases rest with
  | nil => rfl
  | cons c more => rcases ends c rfl with rfl | rfl <;> rfl

theorem numberToken?_toString (n : Int) {rest : List Char} (ends : Ends rest) :
    numberToken? ((toString n).toList ++ rest) = some (toString n, rest) := by
  have written : String.ofList (toString n).toList = toString n := String.ofList_toList
  have sign : takeMinus ((toString n).toList ++ rest) =
      (if n < 0 then ['-'] else [], Nat.toDigits 10 n.natAbs ++ rest) := by
    rw [toList_toString]
    split
    · rfl
    · exact takeMinus_toDigits n.natAbs rest
  have span : spanDigits (Nat.toDigits 10 n.natAbs ++ rest) = (Nat.toDigits 10 n.natAbs, rest) :=
    spanDigits_append (fun _ => isDigit_of_mem_toDigits) ends.not_isDigit
  rw [numberToken?, sign]
  simp only [span, isWhole_toDigits, if_true, takeFraction?_of_ends ends, takePower?_of_ends ends,
    Option.bind_some, Option.map_some, List.append_nil, ← toList_toString, written]

theorem takeSign_toDigits (n : Nat) :
    takeSign (Nat.toDigits 10 n) = (false, Nat.toDigits 10 n) := by
  cases digits : Nat.toDigits 10 n with
  | nil => rfl
  | cons c more =>
    have digit : isDigit c := isDigit_of_mem_toDigits (n := n) (by simp [digits])
    have other : c ≠ '-' ∧ c ≠ '+' := by
      constructor <;> rintro rfl <;> cases digit
    simp [takeSign, other]

theorem tokenOf_toString (n : Int) :
    tokenOf (toString n) = ⟨decide (n < 0), Nat.toDigits 10 n.natAbs, [], none⟩ := by
  have sign : takeSign (toString n).toList = (decide (n < 0), Nat.toDigits 10 n.natAbs) := by
    rw [toList_toString]
    split
    · simp [takeSign, *]
    · simp [takeSign_toDigits, *]
  have span : spanDigits (Nat.toDigits 10 n.natAbs ++ []) = (Nat.toDigits 10 n.natAbs, []) :=
    spanDigits_append (fun _ => isDigit_of_mem_toDigits) nofun
  rw [List.append_nil] at span
  rw [tokenOf, sign]
  simp only [span, if_true]

theorem any_toString_eq_false (n : Int) :
    ((toString n).toList.any fun c => c = '.' || c = 'e' || c = 'E') = false := by
  rw [toList_toString, List.any_eq_false]
  intro c member
  have plain : c = '-' ∨ isDigit c := by
    rcases List.mem_append.mp member with sign | digit
    · split at sign
      · exact .inl (List.mem_singleton.mp sign)
      · cases sign
    · exact .inr (isDigit_of_mem_toDigits digit)
  rcases plain with rfl | digit
  · decide
  · intro found
    simp only [Bool.or_eq_true, decide_eq_true_eq] at found
    rcases found with (rfl | rfl) | rfl <;> cases digit

theorem int?_tokenOf {n : Int} (small : n.natAbs < 10 ^ 64) :
    (tokenOf (toString n)).int? (toString n) = some n := by
  have signed : Number.signed (decide (n < 0)) n.natAbs = n := by
    simp only [Number.signed, decide_eq_true_eq]
    split <;> omega
  have noZero : ¬(decide (n < 0) = true ∧ n.natAbs = 0) := by
    simp only [decide_eq_true_eq]
    omega
  rw [tokenOf_toString, Token.int?, any_toString_eq_false]
  simp only [Bool.false_eq_true, if_false, wordDigits?_toDigits small, Option.bind_some,
    if_neg noZero, signed]

theorem word?_int (w : Int64) : word? (.int w.toInt) = some w := by
  have low : -0x8000000000000000 ≤ w.toInt := by simpa using Int64.minValue_le_toInt w
  have high : w.toInt ≤ 0x7fffffffffffffff := Int64.toInt_le w
  have small : w.toInt.natAbs < 10 ^ 64 := by omega
  rw [int, word?, int?_tokenOf small, Option.bind_some, word?_toInt]

theorem nat?_nat {n limit : Nat} (bound : n ≤ limit) (small : limit < 10 ^ 64) :
    nat? limit (.nat n) = some n := by
  have written : toString n = toString (n : Int) := rfl
  have absolute : (n : Int).natAbs < 10 ^ 64 := by omega
  rw [nat, written, nat?, int?_tokenOf absolute]
  simp [bound]

theorem textBody_escapeChar (fuel : Nat) (acc : List Char) (readable : Bool) (c : Char)
    (rest : List Char) : textBody (fuel + 1) acc readable (escapeChar c ++ rest) =
      textBody fuel (c :: acc) readable rest := by
  unfold escapeChar
  split
  · rfl
  · rfl
  · rfl
  · rfl
  · rfl
  · rfl
  · rfl
  · split
    · rename_i control
      obtain ⟨n, small, rfl⟩ : ∃ n < 0x20, c = Char.ofNat n :=
        ⟨c.toNat, control, (Char.ofNat_toNat c).symm⟩
      interval_cases n <;> rfl
    · rename_i noQuote noSlash _ _ _ _ _ plain
      rw [List.singleton_append, textBody.eq_def]
      split <;> simp_all

theorem textBody_literal (cs acc rest : List Char) (readable : Bool) {fuel : Nat}
    (enough : cs.length ≤ fuel) :
    textBody fuel acc readable (cs.flatMap escapeChar ++ '"' :: rest) =
      some (if readable then some (String.ofList (acc.reverse ++ cs)) else none, rest) := by
  induction cs generalizing acc fuel with
  | nil => simp [textBody]
  | cons c cs ih =>
    cases fuel with
    | zero => cases enough
    | succ fuel =>
      rw [List.flatMap_cons, List.append_assoc, textBody_escapeChar,
        ih (c :: acc) (Nat.le_of_succ_le_succ enough)]
      simp

/-! ### Values -/

theorem skipGaps_append {gaps : List Char} (all : ∀ c ∈ gaps, isGap c) (cs : List Char) :
    skipGaps (gaps ++ cs) = skipGaps cs := List.dropWhile_append_of_pos all

theorem value?_append {gaps : List Char} (all : ∀ c ∈ gaps, isGap c) (fuel depth : Nat)
    (cs : List Char) : value? fuel depth (gaps ++ cs) = value? fuel depth cs := by
  cases fuel with
  | zero => rfl
  | succ fuel => rw [value?, value?, skipGaps_append all]

theorem isGap_lineStart (level : Nat) : ∀ c ∈ (lineStart level).toList, isGap c := by
  intro c member
  simp only [lineStart, String.toList_append, String.toList_ofList] at member
  rcases List.mem_append.mp member with line | blank
  · obtain rfl := List.mem_singleton.mp line
    rfl
  · rw [List.eq_of_mem_replicate blank]
    rfl

theorem value?_number {c : Char} (first : c = '-' ∨ isDigit c) (fuel depth : Nat)
    (cs : List Char) : value? (fuel + 1) depth (c :: cs) =
      (numberToken? (c :: cs)).map fun (token, rest) => (.number token, rest) := by
  have other : ∀ x, ¬(x = '-' ∨ isDigit x) → c ≠ x := by
    rintro x no rfl
    exact no first
  have gap : isGap c = false := by
    simp [isGap, other ' ' (by decide), other '\n' (by decide), other '\t' (by decide),
      other '\r' (by decide)]
  have stays : skipGaps (c :: cs) = c :: cs := by simp [skipGaps, gap]
  simp [value?, stays, other 'n' (by decide), other 't' (by decide), other 'f' (by decide),
    other '"' (by decide), other '[' (by decide), other '\x7b' (by decide)]

theorem exists_cons_toString (n : Int) :
    ∃ c more, (toString n).toList = c :: more ∧ (c = '-' ∨ isDigit c) := by
  rw [toList_toString]
  split
  · exact ⟨'-', _, rfl, .inl rfl⟩
  · cases digits : Nat.toDigits 10 n.natAbs with
    | nil => exact absurd digits Nat.toDigits_ne_nil
    | cons c more =>
      exact ⟨c, more, rfl, .inr (isDigit_of_mem_toDigits (n := n.natAbs) (by simp [digits]))⟩

theorem value?_int (n : Int) {rest : List Char} (ends : Ends rest) (fuel depth : Nat) :
    value? (fuel + 1) depth ((toString n).toList ++ rest) = some (.int n, rest) := by
  have token := numberToken?_toString n ends
  obtain ⟨c, more, shown, first⟩ := exists_cons_toString n
  rw [shown, List.cons_append] at token ⊢
  rw [value?_number first, token]
  rfl

theorem toList_literal (text : String) :
    (literal text).toList = '"' :: (text.toList.flatMap escapeChar ++ ['"']) := by
  simp [literal]

theorem textBody_toList (text : String) (rest : List Char) {fuel : Nat}
    (enough : text.toList.length ≤ fuel) :
    textBody fuel [] true (text.toList.flatMap escapeChar ++ '"' :: rest) =
      some (some text, rest) := by
  simpa using textBody_literal text.toList [] rest true enough

theorem length_le_literal (text : String) :
    text.toList.length + 2 ≤ (literal text).toList.length := by
  have longer : ∀ cs : List Char, cs.length ≤ (cs.flatMap escapeChar).length := by
    intro cs
    induction cs with
    | nil => simp
    | cons c cs ih =>
      have one : 1 ≤ (escapeChar c).length := by
        unfold escapeChar
        repeat' split
        all_goals simp
      simp only [List.flatMap_cons, List.length_append, List.length_cons]
      omega
  have := longer text.toList
  simp only [toList_literal, List.length_cons, List.length_append, List.length_nil]
  omega

theorem value?_string (text : String) (rest : List Char) {fuel : Nat} (depth : Nat)
    (enough : text.toList.length ≤ fuel) :
    value? (fuel + 1) depth ((literal text).toList ++ rest) = some (.string text, rest) := by
  have stays : ∀ cs, skipGaps ('"' :: cs) = '"' :: cs := fun _ => rfl
  simp [toList_literal, value?, stays, textBody_toList text rest enough]

def ReadsBack (j : Json) : Prop :=
  ∀ (fuel depth level : Nat) (rest : List Char), j.nesting ≤ depth →
    2 * (j.indented level).toList.length ≤ fuel → Ends rest →
    value? fuel depth ((j.indented level).toList ++ rest) = some (j, rest)

theorem ends_lineStart (level : Nat) (rest : List Char) :
    Ends ((lineStart level).toList ++ rest) := by
  intro c first
  simp only [lineStart, String.toList_append, String.toList_ofList] at first
  obtain rfl := Option.some.inj first
  exact .inr rfl

theorem ends_comma (rest : List Char) : Ends (',' :: rest) := by
  intro c first
  obtain rfl := Option.some.inj first
  exact .inl rfl

theorem items?_indented {items : List Json} (filled : items ≠ []) {level fuel depth : Nat}
    (outer : Nat) (rest : List Char) (all : ∀ item ∈ items, item.ReadsBack)
    (shallow : nesting.ofItems items ≤ depth)
    (enough : 2 * (",".intercalate (indentedItems level items)).toList.length + 2 ≤ fuel) :
    items? fuel depth ((",".intercalate (indentedItems level items)).toList ++
      ((lineStart outer).toList ++ ']' :: rest)) = some (items, rest) := by
  have comma : ",".toList = [','] := rfl
  have stays : ∀ cs, skipGaps (',' :: cs) = ',' :: cs := fun _ => rfl
  induction items generalizing fuel with
  | nil => exact absurd rfl filled
  | cons item others ih =>
    rw [List.forall_mem_cons] at all
    rw [nesting.ofItems] at shallow
    obtain ⟨fuel, rfl⟩ : ∃ n, fuel = n + 1 := ⟨fuel - 1, by omega⟩
    cases others with
    | nil =>
      simp only [indentedItems, String.intercalate_singleton, String.toList_append,
        List.length_append] at enough ⊢
      have first := all.1 fuel depth level _ (by omega) (by omega)
        (ends_lineStart outer (']' :: rest))
      rw [items?, List.append_assoc, value?_append (isGap_lineStart level), first]
      simp only [skipGaps_append (isGap_lineStart outer)]
      rfl
    | cons next more =>
      have lines : indentedItems level (item :: next :: more) =
          (lineStart level ++ indented level item) :: indentedItems level (next :: more) := rfl
      have several : indentedItems level (next :: more) ≠ [] := nofun
      simp only [lines, String.intercalate_cons_of_ne_nil several, String.toList_append,
        List.length_append, List.append_assoc] at enough ⊢
      rw [comma, List.length_singleton] at enough
      rw [items?, value?_append (isGap_lineStart level), comma, List.singleton_append,
        all.1 fuel depth level _ (by omega) (by omega) (ends_comma _)]
      have less : 2 * (",".intercalate (indentedItems level (next :: more))).toList.length + 2 ≤
          fuel := by omega
      simp only [stays, ih (List.cons_ne_nil _ _) all.2 (by omega) less, Option.map_some]

theorem fields?_field {name : String} {item : Json} {level fuel depth : Nat} {rest : List Char}
    (reads : item.ReadsBack) (shallow : item.nesting ≤ depth)
    (enough : 2 * (lineStart level ++ literal name ++ ": " ++ indented level item).toList.length ≤
      fuel) (ends : Ends rest) :
    fields? (fuel + 1) depth
        ((lineStart level ++ literal name ++ ": " ++ indented level item).toList ++ rest) =
      match skipGaps rest with
      | ',' :: rest =>
        (fields? fuel depth rest).map fun (fields, rest) => (fields.map ((name, item) :: ·), rest)
      | '\x7d' :: rest => some (some [(name, item)], rest)
      | _ => none := by
  have colon : ": ".toList = [':', ' '] := rfl
  have stays : ∀ c cs, isGap c = false → skipGaps (c :: cs) = c :: cs := fun c cs gap => by
    simp [skipGaps, gap]
  have blank : ∀ cs, value? fuel depth (' ' :: cs) = value? fuel depth cs := fun cs =>
    value?_append (show ∀ c ∈ [' '], isGap c by simp [isGap]) fuel depth cs
  have long := length_le_literal name
  simp only [String.toList_append, List.length_append] at enough
  have short : name.toList.length ≤ fuel := by omega
  have first := reads fuel depth level rest shallow (by omega) ends
  simp only [String.toList_append, List.append_assoc]
  rw [fields?, skipGaps_append (isGap_lineStart level), toList_literal]
  simp only [List.cons_append, List.append_assoc, List.nil_append, colon, stays '"' _ rfl,
    stays ':' _ rfl, textBody_toList name _ short, blank]
  rw [first]
  rfl

theorem fields?_indented {fields : List (String × Json)} (filled : fields ≠ [])
    {level fuel depth : Nat} (outer : Nat) (rest : List Char)
    (all : ∀ field ∈ fields, field.2.ReadsBack) (shallow : nesting.ofFields fields ≤ depth)
    (enough : 2 * (",".intercalate (indentedFields level fields)).toList.length + 2 ≤ fuel) :
    fields? fuel depth ((",".intercalate (indentedFields level fields)).toList ++
      ((lineStart outer).toList ++ '\x7d' :: rest)) = some (some fields, rest) := by
  have comma : ",".toList = [','] := rfl
  have stays : ∀ cs, skipGaps (',' :: cs) = ',' :: cs := fun _ => rfl
  induction fields generalizing fuel with
  | nil => exact absurd rfl filled
  | cons field others ih =>
    obtain ⟨name, item⟩ := field
    obtain ⟨reads, all⟩ := List.forall_mem_cons.mp all
    have reads : item.ReadsBack := reads
    rw [nesting.ofFields] at shallow
    obtain ⟨fuel, rfl⟩ : ∃ n, fuel = n + 1 := ⟨fuel - 1, by omega⟩
    cases others with
    | nil =>
      simp only [indentedFields, String.intercalate_singleton] at enough ⊢
      rw [fields?_field reads (by omega) (by omega) (ends_lineStart outer ('\x7d' :: rest)),
        skipGaps_append (isGap_lineStart outer)]
      rfl
    | cons next more =>
      have lines : indentedFields level ((name, item) :: next :: more) =
          (lineStart level ++ literal name ++ ": " ++ indented level item) ::
            indentedFields level (next :: more) := rfl
      have several : indentedFields level (next :: more) ≠ [] := nofun
      rw [lines, String.intercalate_cons_of_ne_nil several, String.toList_append,
        String.toList_append, comma] at enough ⊢
      rw [List.length_append, List.length_append, List.length_singleton] at enough
      have less : 2 * (",".intercalate (indentedFields level (next :: more))).toList.length + 2 ≤
          fuel := by omega
      simp only [List.append_assoc, List.cons_append, List.nil_append]
      rw [fields?_field reads (by omega) (by omega) (ends_comma _)]
      simp only [stays, ih (List.cons_ne_nil _ _) all (by omega) less]
      rfl

theorem value?_array {fuel depth : Nat} {cs rest : List Char} {items : List Json}
    (inner : items? fuel depth cs = some (items, rest)) :
    value? (fuel + 1) (depth + 1) ('[' :: cs) = some (.array items, rest) := by
  have stays : skipGaps ('[' :: cs) = '[' :: cs := rfl
  -- An item does not start with the closing bracket.
  have filled : ∀ more, skipGaps cs ≠ ']' :: more := by
    intro more closed
    match fuel with
    | 0 => cases inner
    | 1 => cases inner
    | fuel + 2 =>
      have nothing : value? (fuel + 1) depth cs = none := by
        rw [value?, closed]
        rfl
      rw [items?, nothing] at inner
      cases inner
  simp [value?, stays, inner]

theorem value?_object {fuel depth : Nat} {cs rest : List Char} {fields : List (String × Json)}
    (inner : fields? fuel depth cs = some (some fields, rest)) :
    value? (fuel + 1) (depth + 1) ('\x7b' :: cs) = some (.object fields, rest) := by
  have stays : skipGaps ('\x7b' :: cs) = '\x7b' :: cs := rfl
  -- A name does not start with the closing brace.
  have filled : ∀ more, skipGaps cs ≠ '\x7d' :: more := by
    intro more closed
    cases fuel with
    | zero => cases inner
    | succ fuel =>
      rw [fields?, closed] at inner
      cases inner
  simp [value?, stays, inner]

theorem readsBack_array {items : List Json} (all : ∀ item ∈ items, item.ReadsBack) :
    (Json.array items).ReadsBack := by
  intro fuel depth level rest shallow enough _
  rw [nesting] at shallow
  obtain ⟨depth, rfl⟩ : ∃ n, depth = n + 1 := ⟨depth - 1, by omega⟩
  cases items with
  | nil =>
    have shown : ((Json.array []).indented level).toList = ['[', ']'] := by simp [indented]
    rw [shown] at enough ⊢
    obtain ⟨fuel, rfl⟩ : ∃ n, fuel = n + 1 := ⟨fuel - 1, by simp at enough; omega⟩
    simp [value?, skipGaps, isGap]
  | cons item others =>
    have shown : ((Json.array (item :: others)).indented level).toList =
        '[' :: ((",".intercalate (indentedItems (level + 1) (item :: others))).toList ++
          ((lineStart level).toList ++ [']'])) := by
      simp [indented]
    rw [shown] at enough ⊢
    simp only [List.length_cons, List.length_append, List.length_nil] at enough
    obtain ⟨fuel, rfl⟩ : ∃ n, fuel = n + 1 := ⟨fuel - 1, by omega⟩
    simp only [List.cons_append, List.append_assoc, List.nil_append]
    exact value?_array (items?_indented (List.cons_ne_nil item others) level rest all (by omega)
      (by omega))

theorem readsBack_object {fields : List (String × Json)}
    (all : ∀ field ∈ fields, field.2.ReadsBack) : (Json.object fields).ReadsBack := by
  intro fuel depth level rest shallow enough _
  rw [nesting] at shallow
  obtain ⟨depth, rfl⟩ : ∃ n, depth = n + 1 := ⟨depth - 1, by omega⟩
  cases fields with
  | nil =>
    have shown : ((Json.object []).indented level).toList = ['\x7b', '\x7d'] := by
      simp [indented, openBrace, closeBrace]
    rw [shown] at enough ⊢
    obtain ⟨fuel, rfl⟩ : ∃ n, fuel = n + 1 := ⟨fuel - 1, by simp at enough; omega⟩
    simp [value?, skipGaps, isGap]
  | cons field others =>
    have shown : ((Json.object (field :: others)).indented level).toList =
        '\x7b' :: ((",".intercalate (indentedFields (level + 1) (field :: others))).toList ++
          ((lineStart level).toList ++ ['\x7d'])) := by
      simp [indented, openBrace, closeBrace]
    rw [shown] at enough ⊢
    simp only [List.length_cons, List.length_append, List.length_nil] at enough
    obtain ⟨fuel, rfl⟩ : ∃ n, fuel = n + 1 := ⟨fuel - 1, by omega⟩
    simp only [List.cons_append, List.append_assoc, List.nil_append]
    exact value?_object (fields?_indented (List.cons_ne_nil field others) level rest all (by omega)
      (by omega))

theorem Plain.readsBack {j : Json} (plain : j.Plain) : j.ReadsBack := by
  induction plain with
  | null =>
    intro fuel depth level rest _ enough _
    obtain ⟨fuel, rfl⟩ : ∃ n, fuel = n + 1 := ⟨fuel - 1, by simp [indented] at enough; omega⟩
    simp [indented, value?, skipGaps, isGap]
  | bool b =>
    intro fuel depth level rest _ enough _
    cases b with
    | false =>
      obtain ⟨fuel, rfl⟩ : ∃ n, fuel = n + 1 := ⟨fuel - 1, by simp [indented] at enough; omega⟩
      simp [indented, value?, skipGaps, isGap]
    | true =>
      obtain ⟨fuel, rfl⟩ : ∃ n, fuel = n + 1 := ⟨fuel - 1, by simp [indented] at enough; omega⟩
      simp [indented, value?, skipGaps, isGap]
  | int n =>
    intro fuel depth level rest _ enough ends
    have shown : (Json.int n).indented level = toString n := by rw [Json.int, indented]
    obtain ⟨c, more, digits, -⟩ := exists_cons_toString n
    rw [shown, digits, List.length_cons] at enough
    obtain ⟨fuel, rfl⟩ : ∃ n, fuel = n + 1 := ⟨fuel - 1, by omega⟩
    rw [shown]
    exact value?_int n ends fuel depth
  | string text =>
    intro fuel depth level rest _ enough _
    have long := length_le_literal text
    rw [indented] at enough ⊢
    obtain ⟨fuel, rfl⟩ : ∃ n, fuel = n + 1 := ⟨fuel - 1, by omega⟩
    exact value?_string text rest depth (by omega)
  | array _ ih => exact readsBack_array ih
  | object _ ih => exact readsBack_object ih

/-- A plain value that does not nest too deep is what its text says. -/
theorem parse?_pretty {j : Json} (plain : j.Plain) (shallow : j.nesting ≤ depthLimit) :
    parse? j.pretty = some j := by
  have read := plain.readsBack (2 * j.pretty.toList.length + 2) depthLimit 0 [] shallow
    (by rw [pretty]; omega) nofun
  rw [List.append_nil, ← pretty] at read
  rw [parse?, read]
  rfl

end Json
end ServerScript
