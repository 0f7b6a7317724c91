import Offside.Json.Basic
import Offside.LexicalError
import Offside.Options

/-!
This module contains the JSON forms of the tokenizer's options, tokens and errors. Records are
written as objects and may be read from arrays too, which hold the fields in their order. The cases
of an enumeration are written by their names.
-/

namespace Offside

namespace Options

def toJson (options : Options) : Json :=
  .obj [("file_id", .int options.fileId.toNat), ("emit_eof", .bool options.markEnd),
    ("strict_indent_step", .bool options.singleStep)]

def ofJson? (json : Json) : Option Options :=
  if json.isRecord 3 then do
    let fileId ← json.optional 0 "file_id" 0 Json.uint32?
    let markEnd ← json.optional 1 "emit_eof" false Json.bool?
    let singleStep ← json.optional 2 "strict_indent_step" false Json.bool?
    return { fileId, markEnd, singleStep }
  else
    none

end Options

namespace Position

def toJson (pos : Position) : Json :=
  .obj [("line", .int pos.line.toNat), ("column", .int pos.column.toNat),
    ("offset", .int pos.offset.toNat)]

def ofJson? (json : Json) : Option Position :=
  if json.isRecord 3 then do
    let line ← json.required 0 "line" Json.uint32?
    let column ← json.required 1 "column" Json.uint32?
    let offset ← json.required 2 "offset" Json.uint64?
    return { line, column, offset }
  else
    none

end Position

namespace Span

def toJson (span : Span) : Json :=
  .obj [("start", span.start.toJson), ("end", span.stop.toJson),
    ("file_id", .int span.fileId.toNat)]

def ofJson? (json : Json) : Option Span :=
  if json.isRecord 3 then do
    let start ← json.required 0 "start" Position.ofJson?
    let stop ← json.required 1 "end" Position.ofJson?
    let fileId ← json.required 2 "file_id" Json.uint32?
    return { start, stop, fileId }
  else
    none

end Span

def Keyword.name : Keyword → String
  | .kwDef => "Def"
  | .kwPrint => "Print"
  | .kwWhile => "While"
  | .kwIf => "If"
  | .kwElse => "Else"
  | .kwReturn => "Return"
  | .kwStruct => "Struct"
  | .kwNew => "New"
  | .kwBreak => "Break"
  | .kwVal => "Val"

def Symbol.name : Symbol → String
  | .plus => "Plus"
  | .minus => "Minus"
  | .star => "Star"
  | .assign => "Eq"
  | .equal => "EqEq"
  | .notEqual => "Ne"
  | .less => "Lt"
  | .greater => "Gt"
  | .ampersand => "Ampersand"
  | .arrow => "Arrow"
  | .leftParen => "LParen"
  | .rightParen => "RParen"
  | .leftBracket => "LBracket"
  | .rightBracket => "RBracket"
  | .comma => "Comma"
  | .colon => "Colon"
  | .dot => "Dot"

namespace TokenKind

def name : TokenKind → String
  | .keyword word => word.name
  | .symbol sign => sign.name
  | .int _ => "IntLit"
  | .string _ => "StringLit"
  | .ident _ => "Ident"
  | .newline => "Newline"
  | .indent => "Indent"
  | .dedent => "Dedent"
  | .eof => "Eof"

def plain : List TokenKind :=
  Keyword.all.map .keyword ++ Symbol.all.map .symbol ++ [.newline, .indent, .dedent, .eof]

/--
A kind without payload is written as its name, any other as an object from its name to the payload.
-/
def toJson (kind : TokenKind) : Json :=
  match kind with
  | .int value => .obj [(kind.name, .int value.toInt)]
  | .string text => .obj [(kind.name, .str text)]
  | .ident name => .obj [(kind.name, .str name)]
  | _ => .str kind.name

def ofJson? (json : Json) : Option TokenKind :=
  match json with
  | .obj [("IntLit", payload)] => payload.int64?.map .int
  | .obj [("StringLit", payload)] => payload.str?.map .string
  | .obj [("Ident", payload)] => payload.str?.map .ident
  | _ => json.caseName?.bind fun name => plain.find? (·.name == name)

end TokenKind

namespace Token

def toJson (token : Token) : Json :=
  .obj [("kind", token.kind.toJson), ("span", token.span.toJson)]

def ofJson? (json : Json) : Option Token :=
  if json.isRecord 2 then do
    let kind ← json.required 0 "kind" TokenKind.ofJson?
    let span ← json.required 1 "span" Span.ofJson?
    return { kind, span }
  else
    none

end Token

namespace LexicalErrorKind

def all : List LexicalErrorKind := [.invalidIndentation, .inconsistentDedent, .invalidToken]

def toJson (kind : LexicalErrorKind) : Json :=
  .str kind.name

def ofJson? (json : Json) : Option LexicalErrorKind :=
  json.caseName?.bind fun name => all.find? (·.name == name)

end LexicalErrorKind

namespace LexicalError

def toJson (error : LexicalError) : Json :=
  .obj [("kind", error.kind.toJson), ("line", .int error.line.toNat),
    ("column", .int error.column.toNat), ("message", .str error.message)]

def ofJson? (json : Json) : Option LexicalError :=
  if json.isRecord 4 then do
    let kind ← json.required 0 "kind" LexicalErrorKind.ofJson?
    let line ← json.required 1 "line" Json.uint32?
    let column ← json.required 2 "column" Json.uint32?
    let message ← json.required 3 "message" Json.str?
    return { kind, line, column, message }
  else
    none

end LexicalError

end Offside
