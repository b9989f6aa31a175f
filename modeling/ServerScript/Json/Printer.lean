import ServerScript.Json.Basic

/-! Writing JSON values, either in one line or over several lines indented by two blanks. -/
namespace ServerScript.Json

private def hexDigit (n : Nat) : Char := (Nat.toDigits 16 n).headD '0'

/-- One character of a text literal; only quotes, backslashes and controls are escaped. -/
def escapeChar (c : Char) : List Char :=
  match c with
  | '"' => ['\\', '"']
  | '\\' => ['\\', '\\']
  | '\n' => ['\\', 'n']
  | '\r' => ['\\', 'r']
  | '\t' => ['\\', 't']
  | '\x08' => ['\\', 'b']
  | '\x0c' => ['\\', 'f']
  | c =>
    if c.toNat < 0x20 then
      ['\\', 'u', '0', '0', hexDigit (c.toNat / 16), hexDigit (c.toNat % 16)]
    else [c]

def literal (text : String) : String :=
  String.ofList ('"' :: text.toList.flatMap escapeChar ++ ['"'])

def openBrace : String := "\x7b"

def closeBrace : String := "\x7d"

mutual

def compact : Json → String
  | .null => "null"
  | .unreadable => "null"
  | .bool b => if b then "true" else "false"
  | .number token => token
  | .string text => literal text
  | .array items => "[" ++ ",".intercalate (compactItems items) ++ "]"
  | .object fields => openBrace ++ ",".intercalate (compactFields fields) ++ closeBrace

def compactItems : List Json → List String
  | [] => []
  | item :: rest => compact item :: compactItems rest

def compactFields : List (String × Json) → List String
  | [] => []
  | (name, item) :: rest => (literal name ++ ":" ++ compact item) :: compactFields rest

end

def lineStart (level : Nat) : String := "\n" ++ String.ofList (List.replicate (2 * level) ' ')

mutual

/-- The value over several lines, starting at an indentation level. -/
def indented (level : Nat) : Json → String
  | .null => "null"
  | .unreadable => "null"
  | .bool b => if b then "true" else "false"
  | .number token => token
  | .string text => literal text
  | .array [] => "[]"
  | .array (item :: rest) =>
    let lines := indentedItems (level + 1) (item :: rest)
    "[" ++ ",".intercalate lines ++ lineStart level ++ "]"
  | .object [] => openBrace ++ closeBrace
  | .object (field :: rest) =>
    let lines := indentedFields (level + 1) (field :: rest)
    openBrace ++ ",".intercalate lines ++ lineStart level ++ closeBrace

def indentedItems (level : Nat) : List Json → List String
  | [] => []
  | item :: rest => (lineStart level ++ indented level item) :: indentedItems level rest

def indentedFields (level : Nat) : List (String × Json) → List String
  | [] => []
  | (name, item) :: rest =>
    (lineStart level ++ literal name ++ ": " ++ indented level item) :: indentedFields level rest

end

def pretty (json : Json) : String := indented 0 json

end ServerScript.Json
