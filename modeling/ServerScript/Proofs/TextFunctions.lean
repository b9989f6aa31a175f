import ServerScript.Function.Table
import ServerScript.Proofs.ArrayBuilding
import ServerScript.Proofs.Computation
import ServerScript.Proofs.Pieces

/-! The functions that search, split, join and replace, as a script calls them. Replacing is
splitting and joining with the new text, joining with the old one restores what was split, and
searches from both ends tell the first and the last place of a text, each the mirror image of the
other. -/
namespace ServerScript.Function

theorem Arity.admits_between {least most n : Nat} :
    (between least most).admits n = true ↔ least ≤ n ∧ n ≤ most := by
  rw [admits, between, Option.all_some, Bool.and_eq_true, decide_eq_true_iff, decide_eq_true_iff]

/-- A call of a function by its name has a value and leaves a machine behind. -/
def Yields (name : String) (args : List Value) (m : Machine) (v : Value) (m' : Machine) : Prop :=
  (call? name args).exec m = (.ok (some v), m')

variable {name : String} {args : List Value} {m m' : Machine} {v : Value}

theorem yields_of_run {f : Builtin} (found : builtin? name = some f)
    (admitted : f.arity.admits args.length = true) (done : (f.run args).exec m = (.ok v, m')) :
    Yields name args m v m' := by
  rw [Yields, call?, found]
  dsimp only
  rw [if_pos admitted, Run.exec_bind_ok done]
  rfl

theorem yields_of_answer {arity : Arity} {f : List Value → Answer}
    (found : builtin? name = some (.ofAnswer name arity f))
    (admitted : arity.admits args.length = true) (done : f args = .ok v) :
    Yields name args m v m := by
  refine yields_of_run found admitted ?_
  rw [Builtin.ofAnswer, Run.exec_ofStop, done]

/-! ### Splitting, joining and replacing -/

theorem joinTexts_ofChars (separator : String) (pieces : List (List Char)) :
    joinTexts separator (pieces.map ofChars) =
      String.ofList (separator.toList.intercalate pieces) := by
  have texts : (pieces.map ofChars).map (String.toList ∘ Value.toText) = pieces := by
    rw [List.map_map]
    exact (List.map_congr_left fun _ _ => String.toList_ofList).trans (List.map_id _)
  rw [joinTexts, ← String.toList_inj, String.toList_intercalate, List.map_map, texts,
    String.toList_ofList]

theorem yields_split {s d : String} {options : List Value} (few : options.length ≤ 2)
    (m : Machine) :
    ∃ cell m', Yields "split" (.string s :: .string d :: options) m (.array cell) m' ∧
      m'.heap.array? cell =
        some ⟨0, ((splitPieces (.string s :: .string d :: options)).map ofChars).toArray⟩ ∧
      ∀ w : String, Yields "join" [.array cell, .string w] m' (ofChars
        (w.toList.intercalate (splitPieces (.string s :: .string d :: options)))) m' := by
  generalize pieces_eq : splitPieces (.string s :: .string d :: options) = pieces
  let content : ArrayCell := ⟨0, (pieces.map ofChars).toArray⟩
  let m' : Machine := { m with heap := (m.heap.allocArray content).1 }
  have found : m'.heap.array? m.heap.arrays.size = some content := by
    rw [Heap.array?_allocArray, if_pos rfl]
  refine ⟨m.heap.arrays.size, m', yields_of_run rfl ?_ ?_, found, fun w => ?_⟩
  · exact Arity.admits_between.mpr
      ⟨Nat.le_add_left 1 (options.length + 1), Nat.add_le_add_right few 2⟩
  · dsimp only
    rw [split, pieces_eq]
    rfl
  · have items : (itemsArg [.array m.heap.arrays.size, .string w] "Join").exec m' =
        (.ok content, m') := by
      change (Except.ok ((m'.heap.array? m.heap.arrays.size).getD {}), m') = _
      rw [found]
      rfl
    refine yields_of_run rfl rfl ?_
    dsimp only
    rw [join, Run.exec_bind_ok items, Run.exec_pure, ofChars, ← joinTexts_ofChars]
    rfl

/-- A text with the occurrences of another replaced is what splitting at that one and joining with
the new text gives. -/
def ReplacesBySplitting (s f w : String) (replacing splitting : List Value) (m : Machine) : Prop :=
  ∃ (result : String) (cell : Nat) (m' : Machine),
    Yields "replace" (.string s :: .string f :: .string w :: replacing) m (.string result) m ∧
    Yields "split" (.string s :: .string f :: splitting) m (.array cell) m' ∧
    Yields "join" [.array cell, .string w] m' (.string result) m'

theorem replacesBySplitting {s f w : String} {replacing splitting : List Value} (m : Machine)
    (sought : f ≠ "") (few : splitting.length ≤ 2)
    (admitted : replacing.length ≤ 3) (start : wordArg replacing 0 1 = 1)
    (mode : modeArg replacing 2 = modeArg splitting 1)
    (limit : bound (wordArg replacing 1 (-1)).toInt = cutsOf (wordArg splitting 0 (-1))) :
    ReplacesBySplitting s f w replacing splitting m := by
  have needle : f.toList ≠ [] := mt String.toList_eq_nil_iff.mp sought
  obtain ⟨cell, m', parted, -, joined⟩ := yields_split (s := s) (d := f) few m
  refine ⟨_, cell, m', ?_, parted, joined w⟩
  refine yields_of_answer rfl ?_ ?_
  · exact Arity.admits_between.mpr
      ⟨Nat.le_add_left 3 replacing.length, Nat.add_le_add_right admitted 3⟩
  · have first : positionFrom (wordArg (.string s :: .string f :: .string w :: replacing) 3 1)
        "Replace" = .ok 0 := by
      change positionFrom (wordArg replacing 0 1) _ = _
      rw [start]
      rfl
    rw [replace, passNull, if_neg (by exact Bool.false_ne_true), first]
    change Except.ok (ofChars (Text.replace (modeArg replacing 2) f.toList w.toList s.toList
      (bound (wordArg replacing 1 (-1)).toInt))) = _
    rw [mode, limit, Text.replace_eq_intercalate_split needle]
    rfl

/-- Replacing is splitting and joining with the new text: with a number of replacements, which is
one less than the number of pieces, without a bound, and in the short forms. -/
theorem replacing_is_splitting_and_joining (s w : String) {f : String} (sought : f ≠ "")
    (mode : Value) (m : Machine) :
    (∀ count limit : Int64, 0 ≤ count.toInt → limit.toInt = count.toInt + 1 →
      ReplacesBySplitting s f w [.integer 1, .integer count, mode] [.integer limit, mode] m) ∧
    (∀ count limit : Value, (wordArg [count] 0 (-1)).toInt < 0 →
      (wordArg [limit] 0 (-1)).toInt < 0 →
      ReplacesBySplitting s f w [.integer 1, count, mode] [limit, mode] m) ∧
    ReplacesBySplitting s f w [] [] m := by
  refine ⟨fun count limit positive next => ?_, fun count limit unlimited unlimited' => ?_, ?_⟩
  · refine replacesBySplitting m sought (by simp) (by simp) rfl rfl ?_
    change bound count.toInt = cutsOf limit
    rw [bound, cutsOf, next, if_neg (by omega), if_neg (by omega)]
    congr 2
    omega
  · refine replacesBySplitting m sought (by simp) (by simp) rfl rfl ?_
    change bound (wordArg [count] 0 (-1)).toInt = cutsOf (wordArg [limit] 0 (-1))
    rw [bound, cutsOf, if_pos unlimited, if_pos unlimited']
  · exact replacesBySplitting m sought (by simp) (by simp) rfl rfl rfl

theorem overlapping_replaced_alike :
    ("aA" ≠ "" ∧ 0 ≤ (1 : Int64).toInt ∧ (2 : Int64).toInt = (1 : Int64).toInt + 1) ∧
      ReplacesBySplitting "aAaAa" "aA" "-" [.integer 1, .integer 1, .integer 1]
        [.integer 2, .integer 1] {} := by
  have sought : "aA" ≠ "" := by decide
  have positive : 0 ≤ (1 : Int64).toInt := by decide
  have next : (2 : Int64).toInt = (1 : Int64).toInt + 1 := by decide
  obtain ⟨counted, -, -⟩ := replacing_is_splitting_and_joining "aAaAa" "-" sought (.integer 1) {}
  exact ⟨⟨sought, positive, next⟩, counted 1 2 positive next⟩

theorem pieces_of_split (mode : CompareMode) (text separator : List Char) (limit : Int64) :
    let pieces := Text.split mode separator text (cutsOf limit)
    (mode = .binary → separator.intercalate pieces = text) ∧
    (limit.toInt < 0 → separator ≠ [] → ∀ piece ∈ pieces, ¬Text.Contains mode separator piece) ∧
    (1 ≤ limit.toInt → (pieces.length : Int) ≤ limit.toInt ∧
      ∀ piece ∈ pieces.dropLast, ¬Text.Contains mode separator piece) ∧
    (text ≠ [] → ∃ separators : List (List Char), separators.length + 1 = pieces.length ∧
      (∀ x ∈ separators, Text.Matches mode x separator) ∧
      (pieces.zipWith (· ++ ·) (separators ++ [[]])).flatten = text) := by
  intro pieces
  by_cases given : text = []
  · have none : pieces = [] := by simp [pieces, given, Text.split]
    rw [none]
    exact ⟨fun _ => given.symm, fun _ _ => List.forall_mem_nil _,
      fun positive => ⟨by simp; omega, List.forall_mem_nil _⟩, fun other => absurd given other⟩
  by_cases sought : separator = []
  · have whole : pieces = [text] := by
      simp [pieces, sought, Text.split, given]
    rw [whole]
    refine ⟨fun _ => List.intercalate_singleton, fun _ other => absurd sought other,
      fun positive => ⟨by simpa using positive, List.forall_mem_nil _⟩,
      fun _ => ⟨[], rfl, List.forall_mem_nil _, by simp⟩⟩
  have cuts : Text.Cuts mode separator (cutsOf limit) text pieces :=
    (Text.split_eq_iff sought given).mp rfl
  refine ⟨fun binary => ?_, fun unlimited _ => ?_, fun positive => ?_, fun _ =>
    cuts.exists_separators⟩
  · subst binary
    exact cuts.intercalate_eq
  · rw [cutsOf, if_pos unlimited] at cuts
    exact cuts.not_contains_of_mem sought
  · refine ⟨?_, cuts.not_contains_of_mem_dropLast sought⟩
    rw [cutsOf, if_neg (by omega)] at cuts
    have := cuts.length_le
    omega

theorem join_zipWith_ofList (pieces separators : List (List Char)) :
    String.join ((pieces.map String.ofList).zipWith (· ++ ·) (separators.map String.ofList)) =
      String.ofList (pieces.zipWith (· ++ ·) separators).flatten := by
  have texts : (pieces.map String.ofList).zipWith (· ++ ·) (separators.map String.ofList) =
      (pieces.zipWith (· ++ ·) separators).map String.ofList := by
    rw [List.zipWith_map, List.map_zipWith]
    simp only [String.ofList_append]
  rw [texts, ← String.toList_inj, String.toList_join, List.flatMap_map, String.toList_ofList]
  simp [List.flatMap_id']

/-- Joining the pieces of a text with the separator restores it, whatever the limit is; a separator
is left in a last piece only, and what was cut out differs from it at most in case. -/
theorem splitting_loses_nothing (s d : String) {options : List Value} (few : options.length ≤ 2)
    (m : Machine) :
    let limit := (wordArg options 0 (-1)).toInt
    let mode := modeArg options 1
    ∃ (cell : Nat) (pieces : List String) (m' : Machine),
      Yields "split" (.string s :: .string d :: options) m (.array cell) m' ∧
      m'.heap.array? cell = some ⟨0, (pieces.map .string).toArray⟩ ∧
      (mode = .binary → Yields "join" [.array cell, .string d] m' (.string s) m') ∧
      (limit < 0 → d ≠ "" → ∀ piece ∈ pieces, ¬Text.Contains mode d.toList piece.toList) ∧
      (1 ≤ limit → (pieces.length : Int) ≤ limit ∧
        ∀ piece ∈ pieces.dropLast, ¬Text.Contains mode d.toList piece.toList) ∧
      (s ≠ "" → ∃ separators : List String, separators.length + 1 = pieces.length ∧
        (∀ x ∈ separators, Text.Matches mode x.toList d.toList) ∧
        String.join (pieces.zipWith (· ++ ·) (separators ++ [""])) = s) := by
  intro limit mode
  obtain ⟨cell, m', parted, content, joined⟩ := yields_split (s := s) (d := d) few m
  obtain ⟨whole, unlimited, limited, interleaved⟩ :=
    pieces_of_split mode s.toList d.toList (wordArg options 0 (-1))
  generalize parts_eq : Text.split mode d.toList s.toList (cutsOf (wordArg options 0 (-1))) = parts
    at *
  have known : splitPieces (.string s :: .string d :: options) = parts := parts_eq
  rw [known] at content joined
  refine ⟨cell, parts.map String.ofList, m', parted, ?_, fun binary => ?_, fun none sought => ?_,
    fun positive => ⟨?_, ?_⟩, fun given => ?_⟩
  · rw [content, List.map_map]
    rfl
  · have restored := joined d
    rwa [whole binary, ofChars, String.ofList_toList] at restored
  · refine List.forall_mem_map.mpr fun piece member => ?_
    rw [String.toList_ofList]
    exact unlimited none (mt String.toList_eq_nil_iff.mp sought) piece member
  · rw [List.length_map]
    exact (limited positive).1
  · rw [← List.map_dropLast]
    refine List.forall_mem_map.mpr fun piece member => ?_
    rw [String.toList_ofList]
    exact (limited positive).2 piece member
  · obtain ⟨separators, count, matching, together⟩ :=
      interleaved (mt String.toList_eq_nil_iff.mp given)
    refine ⟨separators.map String.ofList, ?_, ?_, ?_⟩
    · rw [List.length_map, List.length_map, count]
    · refine List.forall_mem_map.mpr fun x member => ?_
      rw [String.toList_ofList]
      exact matching x member
    · have last : separators.map String.ofList ++ [""] =
          (separators ++ [[]]).map String.ofList := by
        rw [List.map_append]
        rfl
      rw [last, join_zipWith_ofList, together, String.ofList_toList]

theorem commas_split_twice :
    [Value.integer 3].length ≤ 2 ∧ ∃ (cell : Nat) (pieces : List String) (m' : Machine),
      Yields "split" [.string ",a,,b", .string ",", .integer 3] {} (.array cell) m' ∧
      Yields "join" [.array cell, .string ","] m' (.string ",a,,b") m' ∧
      (pieces.length : Int) ≤ 3 ∧
      ∀ piece ∈ pieces.dropLast, ¬Text.Contains .binary [','] piece.toList := by
  have few : [Value.integer 3].length ≤ 2 := by decide
  obtain ⟨cell, pieces, m', parted, -, joined, -, limited, -⟩ :=
    splitting_loses_nothing ",a,,b" "," few {}
  obtain ⟨count, cutOff⟩ := limited (by decide)
  exact ⟨few, cell, pieces, m', parted, joined rfl, count, cutOff⟩

/-! ### Searching -/

section

variable {h n : Value} {start stop : Int64}

theorem inStr_eq (known : h.isNull = false) (known' : n.isNull = false)
    (positive : 1 ≤ start.toInt) (mode : Value) :
    inStr [.integer start, h, n, mode] = .ok (.ofNat ((Text.find? (.ofValue mode)
      n.toText.toList h.toText.toList (start.toInt - 1).toNat).elim 0 (· + 1))) := by
  have first : positionFrom start "InStr" = .ok (start.toInt - 1).toNat := if_neg (by omega)
  rw [inStr]
  change (if (h.isNull || n.isNull) = true then _ else positionFrom start "InStr" >>= _) = _
  rw [known, known', first]
  rfl

theorem inStrRev_eq (known : h.isNull = false) (known' : n.isNull = false)
    (sought : n.toText.toList ≠ []) {last : Nat}
    (place : inStrRevStop stop h.toText.toList.length = .ok last) (mode : Value) :
    inStrRev [h, n, .integer stop, mode] =
      .ok (.ofNat (if h.toText.toList.length < last then 0 else (Text.findLast? (.ofValue mode)
        n.toText.toList h.toText.toList last).elim 0 (· + 1))) := by
  have given : ([h, n, .integer stop, mode].take 2).any Value.isNull = false := by
    change (h.isNull || (n.isNull || false)) = false
    rw [known, known']
    rfl
  have text : charsArg [h, n, .integer stop, mode] 0 = h.toText.toList := rfl
  have needle : charsArg [h, n, .integer stop, mode] 1 = n.toText.toList := rfl
  have asked : wordArg [h, n, .integer stop, mode] 2 (-1) = stop := rfl
  have compared : modeArg [h, n, .integer stop, mode] 3 = .ofValue mode := rfl
  rw [inStrRev, given, text, needle, asked, compared, if_neg Bool.false_ne_true]
  dsimp only
  rw [place]
  dsimp only [bind, Except.bind, pure, Except.pure]
  split
  · rfl
  · cases Text.findLast? (.ofValue mode) n.toText.toList h.toText.toList last with
    | none => rfl
    | some i =>
      dsimp only
      rw [if_neg (mt List.isEmpty_iff.mp sought)]
      rfl

theorem inStr_pair (h n : Value) : inStr [h, n] = inStr [.integer 1, h, n, .empty] := rfl

theorem inStrRev_pair (h n : Value) :
    inStrRev [h, n] = inStrRev [h, n, .integer (-1), .empty] := rfl

theorem strReverse_eq (known : h.isNull = false) :
    onText (onChars List.reverse) [h] = .ok (.string (String.ofList h.toText.toList.reverse)) := by
  rw [onText, passNull]
  change (if h.isNull = true then _ else _) = _
  rw [known]
  rfl

theorem inStr_first (known : h.isNull = false) (known' : n.isNull = false)
    (sought : n.toText ≠ "") (positive : 1 ≤ start.toInt) (mode : Value) :
    ∃ p : Nat, inStr [.integer start, h, n, mode] = .ok (.ofNat p) ∧
      Text.IsFirst {q ∈ Text.places (.ofValue mode) n.toText.toList h.toText.toList |
        start.toInt ≤ q} p := by
  have first := Text.isFirst_find? (.ofValue mode) h.toText.toList (start.toInt - 1).toNat
    (mt String.toList_eq_nil_iff.mp sought)
  have same (q : Nat) : (start.toInt - 1).toNat < q ↔ start.toInt ≤ q := by omega
  simp only [same] at first
  exact ⟨_, inStr_eq known known' positive mode, first⟩

/-- The place at which a search backwards starts, the end of the text if none is asked for. -/
def lastPlace (stop : Int64) (length : Nat) : Int := if stop = -1 then length else stop.toInt

theorem inStrRev_last (known : h.isNull = false) (known' : n.isNull = false)
    (sought : n.toText ≠ "") (positive : stop = -1 ∨ 1 ≤ stop.toInt) (mode : Value) :
    ∃ p : Nat, inStrRev [h, n, .integer stop, mode] = .ok (.ofNat p) ∧
      if h.toText.toList.length < lastPlace stop h.toText.toList.length then p = 0
      else Text.IsLast {q ∈ Text.places (.ofValue mode) n.toText.toList h.toText.toList |
        q + n.toText.toList.length - 1 ≤ lastPlace stop h.toText.toList.length} p := by
  obtain ⟨last, place, meant⟩ : ∃ last : Nat,
      inStrRevStop stop h.toText.toList.length = .ok last ∧
        lastPlace stop h.toText.toList.length = last := by
    unfold inStrRevStop lastPlace
    by_cases whole : stop = -1
    · exact ⟨_, if_pos whole, if_pos whole⟩
    · have placed := positive.resolve_left whole
      refine ⟨stop.toInt.toNat, ?_, ?_⟩
      · rw [if_neg whole, if_neg (by omega)]
      · rw [if_neg whole]
        omega
  have found := Text.isLast_findLast? (.ofValue mode) h.toText.toList last
    (mt String.toList_eq_nil_iff.mp sought)
  have same (q : Nat) : q + n.toText.toList.length ≤ last + 1 ↔
      (q + n.toText.toList.length - 1 : Int) ≤ last := by omega
  simp only [same] at found
  refine ⟨_, inStrRev_eq known known' (mt String.toList_eq_nil_iff.mp sought) place mode, ?_⟩
  rw [meant]
  by_cases beyond : h.toText.toList.length < last
  · rw [if_pos (Int.ofNat_lt.mpr beyond), if_pos beyond]
  · rw [if_neg (mt Int.ofNat_lt.mp beyond), if_neg beyond]
    exact found

theorem inStr_whole (known : h.isNull = false) (known' : n.isNull = false)
    (sought : n.toText ≠ "") (mode : Value) :
    ∃ p : Nat, inStr [.integer 1, h, n, mode] = .ok (.ofNat p) ∧
      Text.IsFirst (Text.places (.ofValue mode) n.toText.toList h.toText.toList) p := by
  have one : 1 ≤ (1 : Int64).toInt := by decide
  obtain ⟨p, ends, first⟩ := inStr_first known known' sought one mode
  have whole : {q ∈ Text.places (.ofValue mode) n.toText.toList h.toText.toList |
      (1 : Int64).toInt ≤ q} = Text.places (.ofValue mode) n.toText.toList h.toText.toList :=
    Set.sep_eq_self_iff_mem_true.mpr fun q member => Int.ofNat_le.mpr member.1
  rw [whole] at first
  exact ⟨p, ends, first⟩

theorem inStrRev_whole (known : h.isNull = false) (known' : n.isNull = false)
    (sought : n.toText ≠ "") (mode : Value) :
    ∃ p : Nat, inStrRev [h, n, .integer (-1), mode] = .ok (.ofNat p) ∧
      Text.IsLast (Text.places (.ofValue mode) n.toText.toList h.toText.toList) p := by
  obtain ⟨p, ends, last⟩ := inStrRev_last known known' sought (.inl (Eq.refl (-1))) mode
  have bound : lastPlace (-1) h.toText.toList.length = h.toText.toList.length := if_pos rfl
  rw [bound, if_neg (Int.lt_irrefl _)] at last
  have whole : {q ∈ Text.places (.ofValue mode) n.toText.toList h.toText.toList |
      (q + n.toText.toList.length - 1 : Int) ≤ h.toText.toList.length} =
        Text.places (.ofValue mode) n.toText.toList h.toText.toList := by
    refine Set.sep_eq_self_iff_mem_true.mpr fun q member => ?_
    have := Text.le_of_mem_places member (mt String.toList_eq_nil_iff.mp sought)
    omega
  rw [whole] at last
  exact ⟨p, ends, last⟩

/-- Searches from both ends tell the first and the last place of a text within their bounds, and
the places of the reversed texts mirror those of the texts. -/
theorem first_and_last_place {h n : Value} (known : h.isNull = false) (known' : n.isNull = false)
    (sought : n.toText ≠ "") (mode : Value) (m : Machine) :
    let text := h.toText.toList
    let needle := n.toText.toList
    let places := Text.places (.ofValue mode) needle text
    (∀ start : Int64, 1 ≤ start.toInt → ∃ p : Nat,
      Yields "instr" [.integer start, h, n, mode] m (.ofNat p) m ∧
        Text.IsFirst {q ∈ places | start.toInt ≤ q} p) ∧
    (∀ stop : Int64, stop = -1 ∨ 1 ≤ stop.toInt → ∃ p : Nat,
      Yields "instrrev" [h, n, .integer stop, mode] m (.ofNat p) m ∧
        if text.length < lastPlace stop text.length then p = 0
        else Text.IsLast {q ∈ places | q + needle.length - 1 ≤ lastPlace stop text.length} p) ∧
    (∃ p q : Nat, Yields "instr" [.integer 1, h, n, mode] m (.ofNat p) m ∧
      Yields "instrrev" [h, n, .integer (-1), mode] m (.ofNat q) m ∧ (p = 0 ↔ q = 0)) ∧
    ((Text.places .binary needle text).Nonempty → ∃ (h' n' : Value) (p q : Nat),
      Yields "strreverse" [h] m h' m ∧ Yields "strreverse" [n] m n' m ∧
      Yields "instr" [h', n'] m (.ofNat p) m ∧ Yields "instrrev" [h, n] m (.ofNat q) m ∧
      (q : Int) = text.length - needle.length + 2 - p) := by
  intro text needle places
  refine ⟨fun start positive => ?_, fun stop positive => ?_, ?_, fun occurs => ?_⟩
  · obtain ⟨p, ends, first⟩ := inStr_first known known' sought positive mode
    exact ⟨p, yields_of_answer rfl rfl ends, first⟩
  · obtain ⟨p, ends, last⟩ := inStrRev_last known known' sought positive mode
    exact ⟨p, yields_of_answer rfl rfl ends, last⟩
  · obtain ⟨p, ends, first⟩ := inStr_whole known known' sought mode
    obtain ⟨q, ends', last⟩ := inStrRev_whole known known' sought mode
    refine ⟨p, q, yields_of_answer rfl rfl ends, yields_of_answer rfl rfl ends', ?_⟩
    rw [Text.eq_zero_iff_of_mem_places Set.Subset.rfl (first.imp_left And.left),
      Text.eq_zero_iff_of_mem_places Set.Subset.rfl (last.imp_left And.left)]
  · let h' : Value := .string (String.ofList text.reverse)
    let n' : Value := .string (String.ofList needle.reverse)
    have needle' : n'.toText.toList = needle.reverse := String.toList_ofList
    have text' : h'.toText.toList = text.reverse := String.toList_ofList
    have given : needle ≠ [] := mt String.toList_eq_nil_iff.mp sought
    have sought' : n'.toText ≠ "" := by
      rw [Ne, ← String.toList_eq_nil_iff, needle']
      exact mt List.reverse_eq_nil_iff.mp given
    have binary : CompareMode.ofValue .empty = .binary := rfl
    obtain ⟨p, ends, first⟩ := inStr_whole (h := h') (n := n') rfl rfl sought' .empty
    obtain ⟨q, ends', last⟩ := inStrRev_whole known known' sought .empty
    refine ⟨h', n', p, q, yields_of_answer rfl rfl (strReverse_eq known),
      yields_of_answer rfl rfl (strReverse_eq known'), yields_of_answer rfl rfl ?_,
      yields_of_answer rfl rfl ?_, ?_⟩
    · exact (inStr_pair h' n').trans ends
    · exact (inStrRev_pair h n).trans ends'
    · rw [needle', text', binary] at first
      rw [binary] at last
      have mirrored := Text.IsFirst.mirror given occurs first last
      omega

theorem letters_found_from_both_ends :
    let h : Value := .string "ANanAn"
    let n : Value := .string "an"
    let places := Text.places (.ofValue (.integer 1)) n.toText.toList h.toText.toList
    (h.isNull = false ∧ n.isNull = false ∧ n.toText ≠ "") ∧
    (∃ p : Nat, Yields "instr" [.integer 2, h, n, .integer 1] {} (.ofNat p) {} ∧
      Text.IsFirst {q ∈ places | (2 : Int64).toInt ≤ q} p) ∧
    ∃ (h' n' : Value) (p q : Nat), Yields "strreverse" [h] {} h' {} ∧
      Yields "strreverse" [n] {} n' {} ∧ Yields "instr" [h', n'] {} (.ofNat p) {} ∧
      Yields "instrrev" [h, n] {} (.ofNat q) {} ∧
      (q : Int) = h.toText.toList.length - n.toText.toList.length + 2 - p := by
  intro h n places
  have sought : n.toText ≠ "" := by decide
  obtain ⟨forwards, -, -, mirrored⟩ :=
    first_and_last_place (h := h) (n := n) rfl rfl sought (.integer 1) {}
  obtain ⟨p, ends, first⟩ := forwards 2 (by decide)
  have occurs : 3 ∈ Text.places .binary n.toText.toList h.toText.toList :=
    Text.succ_mem_places.mpr (by decide)
  exact ⟨⟨rfl, rfl, sought⟩, ⟨p, ends, first⟩, mirrored ⟨3, occurs⟩⟩

end

end ServerScript.Function
