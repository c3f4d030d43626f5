import NativeBinding.Number.Shortest

/-!
JSON values and their text. Members of an object keep their order. Text is written in ASCII, with a
space after each comma and colon; beyond that range a character is written as its UTF-16 units.
-/

namespace NativeBinding

inductive Json
  | null
  | bool (b : Bool)
  | int (n : Int)
  | float (x : Number.Binary64)
  | notANumber
  | str (s : String)
  | arr (items : List Json)
  | obj (members : List (String × Json))

namespace Json

def unit16 (n : Nat) : List Char :=
  '\\' :: 'u' :: Text.hexText 4 n

def units16 (n : Nat) : List Nat :=
  if n < 0x10000 then [n]
  else [0xd800 + (n - 0x10000) / 0x400, 0xdc00 + (n - 0x10000) % 0x400]

def escapeChar (c : Char) : List Char :=
  match c with
  | '"' => ['\\', '"']
  | '\\' => ['\\', '\\']
  | '\n' => ['\\', 'n']
  | '\r' => ['\\', 'r']
  | '\t' => ['\\', 't']
  | '\x08' => ['\\', 'b']
  | '\x0c' => ['\\', 'f']
  | c => if 0x20 ≤ c.toNat && c.toNat ≤ 0x7e then [c] else (units16 c.toNat).flatMap unit16

def quote (s : String) : String :=
  "\"" ++ String.ofList (s.toList.flatMap escapeChar) ++ "\""

def floatText (x : Number.Binary64) : String :=
  match x.magnitude with
  | .infinite => if x.negative then "-Infinity" else "Infinity"
  | .finite _ _ => x.text

mutual

def render : Json → String
  | .null => "null"
  | .bool b => if b then "true" else "false"
  | .int n => toString n
  | .float x => floatText x
  | .notANumber => "NaN"
  | .str s => quote s
  | .arr items => "[" ++ ", ".intercalate (renderItems items) ++ "]"
  | .obj members => "\x7b" ++ ", ".intercalate (renderMembers members) ++ "\x7d"

def renderItems : List Json → List String
  | [] => []
  | v :: vs => v.render :: renderItems vs

def renderMembers : List (String × Json) → List String
  | [] => []
  | (key, v) :: ms => (quote key ++ ": " ++ v.render) :: renderMembers ms

end

/-- The member with a key; of several the last. -/
def member? (key : String) : List (String × Json) → Option Json
  | [] => none
  | (k, v) :: ms => (member? key ms).or (if k == key then some v else none)

def ofStrings (xs : List String) : Json :=
  .arr (xs.map .str)

def ofOption {α : Type} (f : α → Json) : Option α → Json
  | none => .null
  | some a => f a

end Json

end NativeBinding
