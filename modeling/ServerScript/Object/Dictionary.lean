import Std.Data.HashMap
import ServerScript.Value.Compare

/-! Dictionaries: entries in the order in which their keys were added, and an index of their
positions. Two keys are the same entry when they have one text and are both numbers or both
not. -/
namespace ServerScript

/-- What identifies a key: whether it is a number that is not written as text, and its text. -/
abbrev DictionaryKey := Bool × String

structure Dictionary where
  entries : Array (Value × Value) := #[]
  /-- The position of every entry by its key. -/
  index : Std.HashMap DictionaryKey Nat := {}
  mode : CompareMode := .binary

namespace Dictionary

def keyOf (mode : CompareMode) (key : Value) : DictionaryKey :=
  let text := key.toText
  (key.toNumeric?.isSome && !key.isString, if mode = .text then Text.lower text else text)

def position? (d : Dictionary) (key : Value) : Option Nat := d.index[keyOf d.mode key]?

def contains (d : Dictionary) (key : Value) : Bool := (d.position? key).isSome

def item (d : Dictionary) (key : Value) : Value :=
  (((d.position? key).bind fun i => d.entries[i]?).map (·.2)).getD .empty

def push (d : Dictionary) (key item : Value) : Dictionary :=
  { d with
    index := d.index.insert (keyOf d.mode key) d.entries.size
    entries := d.entries.push (key, item) }

def insert (d : Dictionary) (key item : Value) : Dictionary :=
  match d.position? key with
  | some i => { d with entries := d.entries.modify i fun e => (e.1, item) }
  | none => d.push key item

def addError? (d : Dictionary) (key : Value) : Option EvalError :=
  if d.contains key then some (.duplicateKey key.toText) else none

def indexOf (mode : CompareMode) (entries : Array (Value × Value)) :
    Std.HashMap DictionaryKey Nat :=
  (entries.foldl (fun (index, i) e => (index.insert (keyOf mode e.1) i, i + 1)) ({}, 0)).1

def remove (d : Dictionary) (key : Value) : Dictionary :=
  match d.position? key with
  | some i =>
    let entries := d.entries.eraseIdxIfInBounds i
    { d with entries, index := indexOf d.mode entries }
  | none => d

/-- Why a key cannot be removed: only keys of entries can. -/
def removeError? (d : Dictionary) (key : Value) : Option EvalError :=
  if d.contains key then none
  else some (.invalidArgument ("key '" ++ key.toText ++ "' not found"))

def clear (d : Dictionary) : Dictionary := { d with entries := #[], index := {} }

def keys (d : Dictionary) : List Value := d.entries.toList.map (·.1)

def items (d : Dictionary) : List Value := d.entries.toList.map (·.2)

def size (d : Dictionary) : Nat := d.entries.size

end Dictionary
end ServerScript
