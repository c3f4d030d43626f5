import NativeBinding.Json.Value
import NativeBinding.Number.Integer
import NativeBinding.Text.Utf8

/-!
Reading JSON. The reader goes through the text once, lexeme by lexeme. What is open is a list of
frames, innermost first, and what may come next is an expectation. Besides the standard's values
`NaN`, `Infinity` and `-Infinity` are read; a lone half of a surrogate pair stands for the
replacement character.
-/

namespace NativeBinding.Json

open Text

inductive ReadError
  | malformed
  | oversized (cause : Number.Oversized)
  deriving DecidableEq

inductive Lexeme
  | openArray
  | closeArray
  | openObject
  | closeObject
  | comma
  | colon
  | value (v : Json)

def hexUnit? : List Char → Option Nat
  | a :: b :: c :: d :: _ =>
      if isHex a && isHex b && isHex c && isHex d then some (hexToNat [a, b, c, d]) else none
  | _ => none

def isHigh (n : Nat) : Bool := 0xd800 ≤ n && n < 0xdc00
def isLow (n : Nat) : Bool := 0xdc00 ≤ n && n < 0xe000

def lowUnit? : List Char → Option Nat
  | '\\' :: 'u' :: cs => (hexUnit? cs).filter isLow
  | _ => none

def readEscape : List Char → Option (Char × Nat)
  | '"' :: _ => some ('"', 1)
  | '\\' :: _ => some ('\\', 1)
  | '/' :: _ => some ('/', 1)
  | 'b' :: _ => some ('\x08', 1)
  | 'f' :: _ => some ('\x0c', 1)
  | 'n' :: _ => some ('\n', 1)
  | 'r' :: _ => some ('\r', 1)
  | 't' :: _ => some ('\t', 1)
  | 'u' :: cs =>
      (hexUnit? cs).map fun n =>
        match if isHigh n then lowUnit? (cs.drop 4) else none with
        | some low =>
            ((scalar? (0x10000 + (n - 0xd800) * 0x400 + (low - 0xdc00))).getD '\ufffd', 11)
        | none => ((scalar? n).getD '\ufffd', 5)
  | _ => none

/-- The content of a string after its opening quote, and its length through the closing one. Control
characters are not allowed in it. -/
def readString : Nat → Nat → List Char → Option (List Char × Nat)
  | _, _, [] => none
  | skip + 1, used, _ :: cs => readString skip (used + 1) cs
  | 0, used, c :: cs =>
      if c == '"' then some ([], used + 1)
      else if c.toNat < 0x20 then none
      else if c == '\\' then
        (readEscape cs).bind fun e =>
          (readString e.2 (used + 1) cs).map fun r => (e.1 :: r.1, r.2)
      else (readString 0 (used + 1) cs).map fun r => (c :: r.1, r.2)

def isAsciiDigit (c : Char) : Bool :=
  '0' ≤ c && c ≤ '9'

def integerPart (cs : List Char) : List Char :=
  match cs with
  | '0' :: _ => ['0']
  | cs => cs.takeWhile isAsciiDigit

def fractionPart : List Char → List Char
  | '.' :: cs => cs.takeWhile isAsciiDigit
  | _ => []

def exponentPart : List Char → Option (Int × Nat)
  | e :: cs =>
      if e != 'e' && e != 'E' then none
      else
        let signed := match cs with
          | '+' :: _ | '-' :: _ => 1
          | _ => 0
        let digits := (cs.drop signed).takeWhile isAsciiDigit
        if digits.isEmpty then none
        else
          let n : Int := digitsToNat digits
          some (if cs.head? == some '-' then -n else n, 1 + signed + digits.length)
  | [] => none

/-- A number, and its length. Without fraction and exponent it is an integer. -/
def readNumber (cs : List Char) : Except ReadError (Json × Nat) :=
  let negative := cs.head? == some '-'
  let unsigned := if negative then cs.tail else cs
  let sign := if negative then 1 else 0
  let whole := integerPart unsigned
  if whole.isEmpty then .error .malformed
  else
    let rest := unsigned.drop whole.length
    let fraction := fractionPart rest
    let pointed := if fraction.isEmpty then 0 else fraction.length + 1
    match exponentPart (rest.drop pointed) with
    | none =>
        if fraction.isEmpty then
          match Number.natOfDigits whole with
          | .ok n => .ok (.int (if negative then -n else n), sign + whole.length)
          | .error e => .error (.oversized e)
        else .ok (float negative whole fraction 0, sign + whole.length + pointed)
    | some (exponent, length) =>
        .ok (float negative whole fraction exponent, sign + whole.length + pointed + length)
where
  float (negative : Bool) (whole fraction : List Char) (exponent : Int) : Json :=
    .float ⟨negative, .ofDecimal (digitsToNat (whole ++ fraction)) (exponent - fraction.length)⟩

def words : List (String × Json) :=
  [("null", .null), ("true", .bool true), ("false", .bool false), ("NaN", .notANumber),
   ("Infinity", .float ⟨false, .infinite⟩), ("-Infinity", .float ⟨true, .infinite⟩)]

def readWord (cs : List Char) : Option (Json × Nat) :=
  (words.find? fun w => w.1.toList.isPrefixOf cs).map fun w => (w.2, w.1.length)

def readLexeme (c : Char) (cs : List Char) : Except ReadError (Lexeme × Nat) :=
  match c with
  | '[' => .ok (.openArray, 1)
  | ']' => .ok (.closeArray, 1)
  | '\x7b' => .ok (.openObject, 1)
  | '\x7d' => .ok (.closeObject, 1)
  | ',' => .ok (.comma, 1)
  | ':' => .ok (.colon, 1)
  | '"' =>
      match readString 0 0 cs with
      | some (content, n) => .ok (.value (.str (String.ofList content)), n + 1)
      | none => .error .malformed
  | _ =>
      match readWord (c :: cs) with
      | some (v, n) => .ok (.value v, n)
      | none => (readNumber (c :: cs)).map fun r => (.value r.1, r.2)

def isSpace (c : Char) : Bool :=
  c == ' ' || c == '\t' || c == '\n' || c == '\r'

/-- A container being read; an object with the key of the member in progress. -/
inductive Frame
  | arr (items : List Json)
  | obj (members : List (String × Json)) (key : String)

inductive Expectation
  | value
  | valueOrEnd
  | key (members : List (String × Json))
  | keyOrEnd
  | colon (members : List (String × Json)) (key : String)
  | after (v : Json)

structure State where
  frames : List Frame := []
  next : Expectation := .value

def State.start (frames : List Frame) : Lexeme → Option State
  | .openArray => some ⟨.arr [] :: frames, .valueOrEnd⟩
  | .openObject => some ⟨frames, .keyOrEnd⟩
  | .value v => some ⟨frames, .after v⟩
  | _ => none

def State.feed (s : State) (l : Lexeme) : Option State :=
  match s.next, l with
  | .value, l => State.start s.frames l
  | .valueOrEnd, .closeArray =>
      match s.frames with
      | .arr items :: frames => some ⟨frames, .after (.arr items)⟩
      | _ => none
  | .valueOrEnd, l => State.start s.frames l
  | .keyOrEnd, .closeObject => some ⟨s.frames, .after (.obj [])⟩
  | .keyOrEnd, .value (.str key) => some ⟨s.frames, .colon [] key⟩
  | .key members, .value (.str key) => some ⟨s.frames, .colon members key⟩
  | .colon members key, .colon => some ⟨.obj members key :: s.frames, .value⟩
  | .after v, l =>
      match s.frames, l with
      | .arr items :: frames, .comma => some ⟨.arr (items ++ [v]) :: frames, .value⟩
      | .arr items :: frames, .closeArray => some ⟨frames, .after (.arr (items ++ [v]))⟩
      | .obj members key :: frames, .comma => some ⟨frames, .key (members ++ [(key, v)])⟩
      | .obj members key :: frames, .closeObject =>
          some ⟨frames, .after (.obj (members ++ [(key, v)]))⟩
      | _, _ => none
  | _, _ => none

/-- Whether a value may stand here. Elsewhere even an oversized integer is malformed. -/
def State.takesValue (s : State) : Bool :=
  match s.next with
  | .value | .valueOrEnd => true
  | _ => false

def readFrom : Nat → State → List Char → Except ReadError Json
  | _, s, [] =>
      match s.frames, s.next with
      | [], .after v => .ok v
      | _, _ => .error .malformed
  | skip + 1, s, _ :: cs => readFrom skip s cs
  | 0, s, c :: cs =>
      if isSpace c then readFrom 0 s cs
      else
        match readLexeme c cs with
        | .error e => .error (if s.takesValue then e else .malformed)
        | .ok (l, n) =>
            match s.feed l with
            | some next => readFrom (n - 1) next cs
            | none => .error .malformed

def read (text : List Char) : Except ReadError Json :=
  readFrom 0 {} text

end NativeBinding.Json
