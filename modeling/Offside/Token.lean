import Offside.Position

/-!
This module contains the tokens of the language: keywords, symbols, literals and names that stand in
the text of a line, and the layout tokens that tell where statements and blocks begin and end.
-/

namespace Offside

inductive Keyword where
  | kwDef
  | kwPrint
  | kwWhile
  | kwIf
  | kwElse
  | kwReturn
  | kwStruct
  | kwNew
  | kwBreak
  | kwVal
deriving DecidableEq, Repr

namespace Keyword

def text : Keyword → String
  | .kwDef => "def"
  | .kwPrint => "print"
  | .kwWhile => "while"
  | .kwIf => "if"
  | .kwElse => "else"
  | .kwReturn => "return"
  | .kwStruct => "struct"
  | .kwNew => "new"
  | .kwBreak => "break"
  | .kwVal => "val"

def all : List Keyword :=
  [.kwDef, .kwPrint, .kwWhile, .kwIf, .kwElse, .kwReturn, .kwStruct, .kwNew, .kwBreak, .kwVal]

def ofText? (word : String) : Option Keyword :=
  all.find? (·.text == word)

theorem mem_all (keyword : Keyword) : keyword ∈ all := by
  cases keyword <;> decide

theorem text_injective {lhs rhs : Keyword} (h : lhs.text = rhs.text) : lhs = rhs := by
  cases lhs <;> cases rhs <;> first | rfl | simp [text] at h

end Keyword

inductive Symbol where
  | plus
  | minus
  | star
  | assign
  | equal
  | notEqual
  | less
  | greater
  | ampersand
  | arrow
  | leftParen
  | rightParen
  | leftBracket
  | rightBracket
  | comma
  | colon
  | dot
deriving DecidableEq, Repr

namespace Symbol

def text : Symbol → String
  | .plus => "+"
  | .minus => "-"
  | .star => "*"
  | .assign => "="
  | .equal => "=="
  | .notEqual => "!="
  | .less => "<"
  | .greater => ">"
  | .ampersand => "&"
  | .arrow => "->"
  | .leftParen => "("
  | .rightParen => ")"
  | .leftBracket => "["
  | .rightBracket => "]"
  | .comma => ","
  | .colon => ":"
  | .dot => "."

def all : List Symbol :=
  [.plus, .minus, .star, .assign, .equal, .notEqual, .less, .greater, .ampersand, .arrow,
    .leftParen, .rightParen, .leftBracket, .rightBracket, .comma, .colon, .dot]

def ofText? (text : String) : Option Symbol :=
  all.find? (·.text == text)

theorem mem_all (symbol : Symbol) : symbol ∈ all := by
  cases symbol <;> decide

theorem text_injective {lhs rhs : Symbol} (h : lhs.text = rhs.text) : lhs = rhs := by
  cases lhs <;> cases rhs <;> first | rfl | simp [text] at h

end Symbol

/--
The kinds of tokens. Integer literals, string literals and names carry what they stand for.
-/
inductive TokenKind where
  | keyword (word : Keyword)
  | symbol (sign : Symbol)
  | int (value : Int64)
  /-- A string literal, without its quotes. -/
  | string (text : String)
  | ident (name : String)
  | newline
  | indent
  | dedent
  | eof
deriving DecidableEq, Repr

namespace TokenKind

def text : TokenKind → String
  | .keyword word => word.text
  | .symbol sign => sign.text
  | .int value => value.toInt.repr
  | .string text => "\"" ++ text ++ "\""
  | .ident name => name
  | .newline => "NEWLINE"
  | .indent => "INDENT"
  | .dedent => "DEDENT"
  | .eof => "EOF"

def isKeyword : TokenKind → Bool
  | .keyword _ => true
  | _ => false

def isLiteral : TokenKind → Bool
  | .int _ | .string _ => true
  | _ => false

def isLayout : TokenKind → Bool
  | .newline | .indent | .dedent | .eof => true
  | _ => false

def sameShape : TokenKind → TokenKind → Bool
  | .int _, .int _ | .string _, .string _ | .ident _, .ident _ => true
  | lhs, rhs => lhs == rhs

end TokenKind

structure Token where
  kind : TokenKind
  span : Span
deriving DecidableEq, Repr

namespace Token

def isEof (token : Token) : Bool :=
  token.kind == .eof

def text (token : Token) : String :=
  token.kind.text ++ " at " ++ token.span.start.line.toNat.repr ++ ":" ++
    token.span.start.column.toNat.repr

end Token

end Offside
