import Scriptlet.Number.Basic

/-!
# Tokens

A token is a piece of the source with its class. Literals carry the value that
they stand for; operators, punctuation and words are told apart by how they are
spelled.
-/

namespace Scriptlet

/-- The classes of tokens. -/
inductive TokenKind
  | number (value : Number)
  | string (value : String)
  /-- A string with holes; its parts are read later. -/
  | template
  | char (value : Char)
  | identifier
  | keyword
  | symbol
  | comment
  | blank
  | eof

/-- A token: its class, the characters it was read from, and the byte of the
    source at which they start. -/
structure Token where
  kind : TokenKind
  lexeme : List Char
  start : Nat

/-- The reserved words. -/
def keywords : List String :=
  ["as", "bool", "break", "byte", "case", "catch", "char", "continue", "decimal", "default",
    "do", "double", "else", "false", "finally", "float", "for", "foreach", "goto", "if", "in",
    "int", "is", "long", "new", "null", "object", "return", "sbyte", "short", "sizeof", "string",
    "switch", "throw", "true", "try", "typeof", "uint", "ulong", "ushort", "var", "void", "while"]

/-- Whether a word is reserved. -/
def isKeyword (word : String) : Bool := keywords.contains word

namespace TokenKind

/-- Whether the token is an operator or a punctuation mark. -/
def isSymbol : TokenKind → Bool
  | symbol => true
  | _ => false

/-- Whether the token is a reserved word. -/
def isKeyword : TokenKind → Bool
  | keyword => true
  | _ => false

/-- Whether the token is a name that is not reserved. -/
def isIdentifier : TokenKind → Bool
  | identifier => true
  | _ => false

/-- Whether the token is a comment. -/
def isComment : TokenKind → Bool
  | comment => true
  | _ => false

/-- Whether the token is the end of the source. -/
def isEof : TokenKind → Bool
  | eof => true
  | _ => false

/-- The name of a class. -/
def name : TokenKind → String
  | number _ => "NUMBER"
  | string _ => "STRING"
  | template => "INTERPOLATED"
  | char _ => "CHAR"
  | identifier => "IDENTIFIER"
  | keyword => "KEYWORD"
  | symbol => "SYMBOL"
  | comment => "COMMENT"
  | blank => "WHITESPACE"
  | eof => "EOF"

/-- The text of the value of a literal. -/
def valueText : TokenKind → String
  | number n => n.text ++ ":" ++ n.kind.name
  | string s => s
  | char c => c.toString
  | _ => "null"

end TokenKind

namespace Token

/-- The characters of a token as a text. -/
def word (t : Token) : String := String.ofList t.lexeme

/-- Whether the token is the end of the source. -/
def isEof (t : Token) : Bool := t.kind.isEof

/-- Whether the token is this symbol or reserved word. -/
def is (t : Token) (text : String) : Bool :=
  (t.kind.isSymbol || t.kind.isKeyword) && t.lexeme == text.toList

/-- Whether the token is a name, reserved or not. -/
def isWord (t : Token) : Bool := t.kind.isIdentifier || t.kind.isKeyword

/-- What stands in messages for the token. -/
def found (t : Token) : String := if t.isEof then "end of input" else t.word

/-- The class, the characters and the value of a token. -/
def text (t : Token) : String := t.kind.name ++ " " ++ t.word ++ " " ++ t.kind.valueText

end Token

end Scriptlet
