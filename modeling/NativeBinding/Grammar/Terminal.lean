import NativeBinding.Span
import NativeBinding.Text.Blank
import NativeBinding.Text.Digit

/-!
Terminals of the declaration grammar. A terminal has one spelling, or it is a class of lexemes with
a rule that measures the one at the head of a text. `priority` lists the terminals in the order in
which a reader tries them; the first that fits wins, whatever its length.
-/

namespace NativeBinding.Grammar

open Text

inductive Terminal
  | docComment | ident | lifetime | string | number | initializer
  | asyncWord | constWord | falseWord | implWord | selfWord | trueWord | dynWord | mutWord
  | pubWord | fnWord
  | colons | arrow
  | wildcard | bang | hash | amp | lparen | rparen | plus | comma | colon | semicolon | less
  | equals | greater | lbracket | rbracket | lbrace | rbrace
  deriving DecidableEq

namespace Terminal

def spelling? : Terminal → Option String
  | docComment | ident | lifetime | string | number | initializer => none
  | asyncWord => "async"
  | constWord => "const"
  | falseWord => "false"
  | implWord => "impl"
  | selfWord => "self"
  | trueWord => "true"
  | dynWord => "dyn"
  | mutWord => "mut"
  | pubWord => "pub"
  | fnWord => "fn"
  | colons => "::"
  | arrow => "->"
  | wildcard => "_"
  | bang => "!"
  | hash => "#"
  | amp => "&"
  | lparen => "("
  | rparen => ")"
  | plus => "+"
  | comma => ","
  | colon => ":"
  | semicolon => ";"
  | less => "<"
  | equals => "="
  | greater => ">"
  | lbracket => "["
  | rbracket => "]"
  | lbrace => "\x7b"
  | rbrace => "\x7d"

/-- Longer spellings stand before shorter ones. -/
def spelled : List Terminal :=
  [asyncWord, constWord, falseWord, implWord, selfWord, trueWord, dynWord, mutWord, pubWord, fnWord,
   colons, arrow, wildcard, bang, hash, amp, lparen, rparen, plus, comma, colon, semicolon, less,
   equals, greater, lbracket, rbracket, lbrace, rbrace]

end Terminal

def isIdentStart (c : Char) : Bool :=
  c.isAlpha || c == '_'

def isIdentRest (c : Char) : Bool :=
  c.isAlphanum || c == '_'

def nameLength : List Char → Option Nat
  | c :: cs => if isIdentStart c then some ((cs.takeWhile isIdentRest).length + 1) else none
  | [] => none

def identLength (cs : List Char) : Option Nat :=
  match cs with
  | 'r' :: '#' :: rest => ((nameLength rest).map (· + 2)).or (nameLength cs)
  | _ => nameLength cs

def lifetimeLength : List Char → Option Nat
  | '\'' :: cs => (nameLength cs).map (· + 1)
  | _ => none

def stringRest : List Char → Option Nat
  | '\\' :: _ :: cs => (stringRest cs).map (· + 2)
  | '\\' :: [] => none
  | '"' :: _ => some 1
  | _ :: cs => (stringRest cs).map (· + 1)
  | [] => none

def stringLength : List Char → Option Nat
  | '"' :: cs => (stringRest cs).map (· + 1)
  | _ => none

/-- Digits, and a point with digits after it. -/
def unsignedLength (cs : List Char) : Option Nat :=
  match (cs.takeWhile isDigit).length with
  | 0 => none
  | whole + 1 =>
      match cs.drop (whole + 1) with
      | '.' :: rest =>
          match (rest.takeWhile isDigit).length with
          | 0 => some (whole + 1)
          | fraction + 1 => some (whole + 1 + 1 + (fraction + 1))
      | _ => some (whole + 1)

def numberLength : List Char → Option Nat
  | '-' :: cs => (unsignedLength cs).map (· + 1)
  | cs => unsignedLength cs

def docCommentLength : List Char → Option Nat
  | '/' :: '/' :: '/' :: cs => some (3 + (cs.takeWhile (· != '\n')).length)
  | _ => none

/-- Everything up to a semicolon. A blank character cannot be the first. -/
def initializerLength : List Char → Option Nat
  | c :: cs =>
      if c == ';' || isBlank c then none else some (1 + (cs.takeWhile (· != ';')).length)
  | [] => none

def spellingLength (word : String) (cs : List Char) : Option Nat :=
  if word.toList.isPrefixOf cs then some word.length else none

def Terminal.lexemeLength (t : Terminal) (cs : List Char) : Option Nat :=
  match t with
  | docComment => docCommentLength cs
  | ident => identLength cs
  | lifetime => lifetimeLength cs
  | string => stringLength cs
  | number => numberLength cs
  | initializer => initializerLength cs
  | word => (word.spelling?).bind (spellingLength · cs)

/-- Text between lexemes. Line comments stand apart from the others, since they come after the
initializer in priority. -/
inductive Gap
  | blockComment | space | lineComment
  deriving DecidableEq

def isGapSpace (c : Char) : Bool :=
  c == ' ' || c == '\t' || c == '\x0c' || c == '\r' || c == '\n'

def commentRest : List Char → Option Nat
  | '*' :: '/' :: _ => some 2
  | _ :: cs => (commentRest cs).map (· + 1)
  | [] => none

def Gap.length : Gap → List Char → Option Nat
  | .blockComment, '/' :: '*' :: cs => (commentRest cs).map (· + 2)
  | .space, cs =>
      match (cs.takeWhile isGapSpace).length with
      | 0 => none
      | n + 1 => some (n + 1)
  | .lineComment, '/' :: '/' :: cs => some (2 + (cs.takeWhile (· != '\n')).length)
  | _, _ => none

inductive Kind
  | terminal (t : Terminal)
  | gap (g : Gap)
  deriving DecidableEq

def Kind.length : Kind → List Char → Option Nat
  | .terminal t, cs => t.lexemeLength cs
  | .gap g, cs => g.length cs

def priority : List Kind :=
  [.terminal .docComment, .terminal .ident, .terminal .lifetime, .terminal .string,
   .gap .blockComment, .terminal .number, .gap .space, .terminal .initializer, .gap .lineComment] ++
  Terminal.spelled.map .terminal

inductive Piece
  | gap (length : Nat)
  | lexeme (kind : Terminal) (length : Nat)
  | unknown
  deriving DecidableEq

/-- An identifier whose text is the spelling of an expected terminal is that terminal. -/
def identKind (expected : List Terminal) (text : List Char) : Terminal :=
  (Terminal.spelled.find? fun t =>
    expected.contains t && t.spelling?.any (·.toList == text)).getD .ident

def scan (expected : List Terminal) (cs : List Char) : Piece :=
  let fits (k : Kind) : Option (Kind × Nat) :=
    match k with
    | .terminal t => if expected.contains t then (k.length cs).map (k, ·) else none
    | .gap _ => (k.length cs).map (k, ·)
  match priority.findSome? fits with
  | some (.gap _, n) => .gap n
  | some (.terminal .ident, n) => .lexeme (identKind expected (cs.take n)) n
  | some (.terminal t, n) => .lexeme t n
  | none => .unknown

/-- What would stand at the head of a text if the grammar set no expectation. The initializer then
takes nearly every character, so of the fixed spellings only the semicolon is left. -/
def scanAnything (cs : List Char) : Option Nat :=
  [Terminal.docComment, .ident, .lifetime, .string, .number, .initializer, .semicolon].findSome?
    (·.lexemeLength cs)

structure Lexeme (kind : Terminal) where
  text : String
  start : Position
  stop : Position
  deriving DecidableEq

structure Token where
  kind : Terminal
  lexeme : Lexeme kind

namespace Token

def text (t : Token) : String := t.lexeme.text
def start (t : Token) : Position := t.lexeme.start
def stop (t : Token) : Position := t.lexeme.stop

end Token

def spanOf (file : Option String) : List Token → Span
  | [] => { file }
  | t :: ts => .between file t.start ((t :: ts).getLast (by simp)).stop

end NativeBinding.Grammar
