import ServerScript.Text.Case
import ServerScript.Code.Expr

/-! Searching a text. Two characters match when they are the same, or in text mode when their
folded forms are; folding keeps one character for each, so positions need no adjustment. -/
namespace ServerScript.Text

def foldIn (mode : CompareMode) (c : Char) : Char :=
  match mode with
  | .binary => c
  | .text => foldChar c

def startsWith (mode : CompareMode) : List Char → List Char → Bool
  | [], _ => true
  | _ :: _, [] => false
  | n :: needle, c :: cs => foldIn mode n == foldIn mode c && startsWith mode needle cs

def findAt? (mode : CompareMode) (needle : List Char) (position : Nat) : List Char → Option Nat
  | [] => if startsWith mode needle [] then some position else none
  | c :: cs =>
    if startsWith mode needle (c :: cs) then some position
    else findAt? mode needle (position + 1) cs

def find? (mode : CompareMode) (needle text : List Char) (start : Nat) : Option Nat :=
  if start ≤ text.length then findAt? mode needle start (text.drop start) else none

/-- The last occurrence, counting positions from `position` on; `best` is the last one before. -/
def findLastAt? (mode : CompareMode) (needle : List Char) (best : Option Nat) (position : Nat) :
    List Char → Option Nat
  | [] => if startsWith mode needle [] then some position else best
  | c :: cs =>
    let best := if startsWith mode needle (c :: cs) then some position else best
    findLastAt? mode needle best (position + 1) cs

/-- The last occurrence that ends within the first `stop` characters. -/
def findLast? (mode : CompareMode) (needle text : List Char) (stop : Nat) : Option Nat :=
  findLastAt? mode needle none 0 (text.take stop)

def cutsLeft (left : Option Nat) : Bool := left != some 0

/-- Cuts a text at the occurrences of a text that is not empty. `skip` characters of a cut are
still to be dropped, `piece` and `pieces` hold what was collected in reverse. -/
def cut (mode : CompareMode) (needle : List Char) :
    Option Nat → Nat → List Char → List (List Char) → List Char → List (List Char)
  | _, _, piece, pieces, [] => (piece.reverse :: pieces).reverse
  | left, skip + 1, piece, pieces, _ :: cs => cut mode needle left skip piece pieces cs
  | left, 0, piece, pieces, c :: cs =>
    if cutsLeft left && startsWith mode needle (c :: cs) then
      cut mode needle (left.map (· - 1)) (needle.length - 1) [] (piece.reverse :: pieces) cs
    else cut mode needle left 0 (c :: piece) pieces cs

/-- The pieces of a text between the occurrences of another, with at most `left` cuts. An empty
text has no pieces and an empty separator does not cut. -/
def split (mode : CompareMode) (separator text : List Char) (left : Option Nat) : List (List Char) :=
  if text.isEmpty then []
  else if separator.isEmpty then [text]
  else cut mode separator left 0 [] [] text

/-- Puts `new` in the place of occurrences, of which `left` are still to be replaced. -/
def substitute (mode : CompareMode) (needle new : List Char) :
    Option Nat → Nat → List Char → List Char → List Char
  | _, _, done, [] => done.reverse
  | left, skip + 1, done, _ :: cs => substitute mode needle new left skip done cs
  | left, 0, done, c :: cs =>
    if cutsLeft left && startsWith mode needle (c :: cs) then
      substitute mode needle new (left.map (· - 1)) (needle.length - 1) (new.reverse ++ done) cs
    else substitute mode needle new left 0 (c :: done) cs

/-- Replaces at most `left` occurrences. Nothing is replaced for an empty sought text. -/
def replace (mode : CompareMode) (needle new text : List Char) (left : Option Nat) : List Char :=
  if needle.isEmpty then text else substitute mode needle new left 0 [] text

end ServerScript.Text
