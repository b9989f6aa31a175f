import ServerScript.Host.Path

/-! A directory of texts and the reading of relative paths in it, so that the command can be run
on files that are given as values. -/
namespace ServerScript.Command

/-- Files below one directory, each under the parts of its path. -/
structure Folder where
  files : List (List (List Char) × String) := []

namespace Folder

def ofFiles (files : List (String × String)) : Folder :=
  ⟨files.map fun (name, text) => (Path.resolve name.toList, text)⟩

/-- Whether the parts lead to a directory: to the folder itself, or above one of its files. -/
def isDirectory (folder : Folder) (parts : List (List Char)) : Bool :=
  parts = [] || folder.files.any fun file => parts.isPrefixOf file.1 && parts != file.1

/-- Follows the parts of a path. Each of them has to be taken from a directory, and nothing above
the folder can be seen. -/
def walk (folder : Folder) (here : List (List Char)) :
    List (List Char) → Option (List (List Char))
  | [] => some here
  | part :: rest =>
    if !folder.isDirectory here then none
    else if Path.stays part then walk folder here rest
    else if part = ['.', '.'] then
      if here = [] then none else walk folder here.dropLast rest
    else walk folder (here ++ [part]) rest

def read? (folder : Folder) (path : String) : Option String :=
  if path.toList.head? = some '/' then none
  else
    (folder.walk [] (Path.split path.toList)).bind fun found =>
      (folder.files.find? (·.1 == found)).map (·.2)

end Folder
end ServerScript.Command
