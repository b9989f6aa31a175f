/-! Virtual paths of a site. A path that starts with a slash starts at the root, any other at the
directory of the running script, and stepping up never leaves the root. -/
namespace ServerScript.Path

def prepend (c : Char) (parts : List (List Char)) : List (List Char) :=
  if c = '/' then [] :: parts
  else
    match parts with
    | part :: parts => (c :: part) :: parts
    | [] => [[c]]

def split (cs : List Char) : List (List Char) := cs.foldr prepend [[]]

def stays (part : List Char) : Bool := part = [] || part = ['.']

/-- Takes one part after those that are kept, the last one first: nothing for a part that stays,
one part less for the parent. -/
def step (kept : List (List Char)) (part : List Char) : List (List Char) :=
  if stays part then kept
  else if part = ['.', '.'] then kept.tail
  else part :: kept

def resolve (cs : List Char) : List (List Char) := ((split cs).foldl step []).reverse

def directory (script : List Char) : List Char :=
  ((script.reverse.dropWhile (· != '/')).drop 1).reverse

def join (directory : String) (parts : List (List Char)) : String :=
  if parts = [] then directory
  else
    let slash :=
      if directory = "" ∨ directory.toList.getLast? = some '/' then "" else "/"
    directory ++ slash ++ "/".intercalate (parts.map String.ofList)

def slashes (text : String) : List Char := text.toList.map fun c => if c = '\\' then '/' else c

def absolute (script path : String) : List Char :=
  let cs := slashes path
  if cs.head? = some '/' then cs else directory script.toList ++ '/' :: cs

def map (root script path : String) : String := join root (resolve (absolute script path))

end ServerScript.Path
