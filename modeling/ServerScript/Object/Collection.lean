import ServerScript.Value.Convert

/-! Read-only collections of named texts, such as the query of a request. Names ignore the case
of ASCII letters and the values of a repeated name are joined. -/
namespace ServerScript.Collection

/-- Adds a pair; a known name takes the value into its first entry. -/
def push (c : Collection) (key value : String) : Collection :=
  { c with entries := go c.entries }
where
  /-- Walks to the entry of the name. -/
  go : List (String × List String) → List (String × List String)
    | [] => [(key, [value])]
    | e :: rest => if Text.asciiEq e.1 key then (e.1, e.2 ++ [value]) :: rest else e :: go rest

def ofPairs (title : String) (pairs : List (String × String)) : Collection :=
  pairs.foldl (fun c pair => c.push pair.1 pair.2) { title }

def joined (values : List String) : String := ", ".intercalate values

def get? (c : Collection) (key : String) : Option String :=
  (c.entries.find? fun e => Text.asciiEq e.1 key).map fun e => joined e.2

/-- The values of a name, or those at a position for a numeric key. -/
def item (c : Collection) (key : Value) : Except Fault Value :=
  let found : Except Fault (Option String) :=
    if key.isPosition then
      key.position.map fun position => position.bind fun i => (c.entries[i]?).map (joined ·.2)
    else .ok (c.get? key.toText)
  found.map fun text => text.elim .empty .string

def keyAt (c : Collection) (key : Value) : Except Fault Value :=
  key.position.map fun position =>
    (position.bind fun i => (c.entries[i]?).map (·.1)).elim .empty .string

def size (c : Collection) : Nat := c.entries.length

def names (c : Collection) : List Value := c.entries.map fun e => .string e.1

end ServerScript.Collection
