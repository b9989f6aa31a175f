import ServerScript.Member.Basic

/-! The members of dictionaries. -/
namespace ServerScript.Members

def modeNumber : CompareMode → Value
  | .binary => .integer 0
  | .text => .integer 1

def changeDictionary (cell : Nat) (error? : Option EvalError) (change : Dictionary → Dictionary) :
    Run Unit :=
  match error? with
  | some e => Run.error e
  | none => Run.modifyHeap (·.modifyDictionary cell change)

/-- A dictionary by its cell. The comparison can be chosen only while there are no entries. -/
def dictionary (cell : Nat) : Members where
  read name := do
    let d := (← get).heap.dictionary cell
    match name with
    | "count" => return Value.ofNat d.size
    | "comparemode" => return modeNumber d.mode
    | "keys" => Run.newArray d.keys
    | "items" => Run.newArray d.items
    | _ => unknown "Dictionary" name
  write name value := do
    let d := (← get).heap.dictionary cell
    match name with
    | "comparemode" =>
      let refused := if d.size = 0 then none else some (.invalidArgument "CompareMode")
      changeDictionary cell refused fun d => { d with mode := CompareMode.ofValue value }
    | _ => unknown "Dictionary" name
  call name args := do
    let d := (← get).heap.dictionary cell
    let key := Value.arg args 0
    match name with
    | "add" =>
      answerEmpty (changeDictionary cell (d.addError? key) (·.push key (Value.arg args 1)))
    | "exists" => return .bool (d.contains key)
    | "item" | "" => return d.item key
    | "remove" => answerEmpty (changeDictionary cell (d.removeError? key) (·.remove key))
    | "removeall" => answerEmpty (changeDictionary cell none (·.clear))
    | "keys" => Run.newArray d.keys
    | "items" => Run.newArray d.items
    | "count" => return Value.ofNat d.size
    | _ => unknown "Dictionary" name
  writeItem args value := changeDictionary cell none (·.insert (Value.arg args 0) value)
  entries := do return some ((← get).heap.dictionary cell).keys

end ServerScript.Members
