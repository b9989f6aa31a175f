import ServerScript.Text.CodeRanges

/-! Blank characters and the trimming of texts. Blanks are the white-space code points of the
whole character set, so a no-break space is trimmed as well as a tab. -/
namespace ServerScript.Text

def blankCodes : CodeRanges := [
  (0x9, 0xd), (0x20, 0x20), (0x85, 0x85), (0xa0, 0xa0), (0x1680, 0x1680), (0x2000, 0x200a),
  (0x2028, 0x2029), (0x202f, 0x202f), (0x205f, 0x205f), (0x3000, 0x3000)]

def isBlank (c : Char) : Bool := blankCodes.holds c.toNat

def trimLeft (drop : Char → Bool) (cs : List Char) : List Char := cs.dropWhile drop

def trimRight (drop : Char → Bool) (cs : List Char) : List Char :=
  (cs.reverse.dropWhile drop).reverse

def trimBoth (drop : Char → Bool) (cs : List Char) : List Char :=
  trimRight drop (trimLeft drop cs)

def trim (text : String) : String := String.ofList (trimBoth isBlank text.toList)

theorem isBlank_of_visible {c : Char} (low : 0x21 ≤ c.toNat) (high : c.toNat < 0x7f) :
    isBlank c = false := by
  rw [isBlank, Bool.eq_false_iff, Ne, CodeRanges.holds_iff]
  rintro ⟨range, member, inside⟩
  have apart : ∀ range ∈ blankCodes, range.2 < 0x21 ∨ 0x7f ≤ range.1 := by decide
  have := apart range member
  omega

theorem trimBoth_eq_self {drop : Char → Bool} {cs : List Char}
    (first : ∀ c ∈ cs.head?, drop c = false) (last : ∀ c ∈ cs.getLast?, drop c = false) :
    trimBoth drop cs = cs := by
  have kept {cs : List Char} (first : ∀ c ∈ cs.head?, drop c = false) :
      cs.dropWhile drop = cs := by
    cases cs with
    | nil => rfl
    | cons c cs => simp [first c rfl]
  rw [trimBoth, trimLeft, kept first, trimRight, kept, List.reverse_reverse]
  rwa [List.head?_reverse]

def words (text : String) : List String :=
  (go text.toList []).filter (· ≠ "")
where
  /-- Collects the current word in reverse. -/
  go : List Char → List Char → List String
    | [], word => [String.ofList word.reverse]
    | c :: rest, word =>
      if isBlank c then String.ofList word.reverse :: go rest [] else go rest (c :: word)

end ServerScript.Text
