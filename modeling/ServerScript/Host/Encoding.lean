/-! Texts made safe for markup, for queries and for paths. -/
namespace ServerScript.Encoding

def htmlChar (c : Char) : List Char :=
  match c with
  | '&' => ['&', 'a', 'm', 'p', ';']
  | '<' => ['&', 'l', 't', ';']
  | '>' => ['&', 'g', 't', ';']
  | '"' => ['&', 'q', 'u', 'o', 't', ';']
  | c => [c]

def html (text : String) : String := String.ofList (text.toList.flatMap htmlChar)

def hexDigit (n : Nat) : Char := ((Nat.toDigits 16 n).headD '0').toUpper

def percent (byte : UInt8) : List Char :=
  ['%', hexDigit (byte.toNat / 16), hexDigit (byte.toNat % 16)]

def percentChar (c : Char) : List Char := (String.singleton c).toUTF8.toList.flatMap percent

def plainInQuery (c : Char) : Bool := c.isAlphanum || c = '-' || c = '_' || c = '.'

def queryChar (c : Char) : List Char :=
  if c = ' ' then ['+'] else if plainInQuery c then [c] else percentChar c

/-- A text in a query or a form, blanks written as plus signs. -/
def query (text : String) : String := String.ofList (text.toList.flatMap queryChar)

def plainInPath (c : Char) : Bool :=
  0x20 < c.toNat && c.toNat < 0x7f &&
    !(c = '"' || c = '#' || c = '<' || c = '>' || c = '`' || c = '\x7b' || c = '\x7d')

def pathChar (c : Char) : List Char := if plainInPath c then [c] else percentChar c

def path (text : String) : String := String.ofList (text.toList.flatMap pathChar)

end ServerScript.Encoding
