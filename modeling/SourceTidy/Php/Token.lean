import SourceTidy.Text.CodePoint

/-!
# PHP tokens

The kinds of token that a PHP source is cut into, their names in a hierarchy of dotted words, and the classes of kinds
that the checks ask for.
-/

namespace SourceTidy.Php

/-- What a piece of a PHP source is. -/
inductive TokenKind where
  /-- An opening or closing tag of PHP code. -/
  | tag
  /-- Text outside of PHP code. -/
  | html
  | space
  /-- A line feed at which the reading starts anew. -/
  | reset
  /-- A code point that no rule covers. -/
  | error
  | lineComment
  | blockComment
  | docComment
  | operator
  | punctuation
  | keyword
  | constant
  | variableName
  /-- Any other name. -/
  | name
  /-- A name after `->` or `::`. -/
  | member
  | className
  | functionName
  | magicFunction
  | decorator
  | float
  | octal
  | hexadecimal
  | integer
  /-- The text of a heredoc. -/
  | heredoc
  /-- The name that delimits a heredoc. -/
  | delimiter
  | singleQuoted
  | backquoted
  | doubleQuoted
  | escape
  | interpolation
  deriving DecidableEq, Repr

namespace TokenKind

/-- The dotted name of a kind: a kind is below another when its name continues the other's. -/
def dotted : TokenKind → String
  | tag => "Comment.Preproc"
  | html => "Other"
  | space => "Text"
  | reset => "Text.Whitespace"
  | error => "Error"
  | lineComment => "Comment.Single"
  | blockComment => "Comment.Multiline"
  | docComment => "Literal.String.Doc"
  | operator => "Operator"
  | punctuation => "Punctuation"
  | keyword => "Keyword"
  | constant => "Name.Constant"
  | variableName => "Name.Variable"
  | name => "Name.Other"
  | member => "Name.Attribute"
  | className => "Name.Class"
  | functionName => "Name.Function"
  | magicFunction => "Name.Function.Magic"
  | decorator => "Name.Decorator"
  | float => "Literal.Number.Float"
  | octal => "Literal.Number.Oct"
  | hexadecimal => "Literal.Number.Hex"
  | integer => "Literal.Number.Integer"
  | heredoc => "Literal.String"
  | delimiter => "Literal.String.Delimiter"
  | singleQuoted => "Literal.String.Single"
  | backquoted => "Literal.String.Backtick"
  | doubleQuoted => "Literal.String.Double"
  | escape => "Literal.String.Escape"
  | interpolation => "Literal.String.Interpol"

/-- String data, comments of documentation left out. -/
def isStringData : TokenKind → Bool
  | heredoc | delimiter | singleQuoted | backquoted | doubleQuoted | escape | interpolation => true
  | _ => false

/-- Data rather than code: string data and text outside of PHP code. -/
def isData (k : TokenKind) : Bool := k.isStringData || k == html

/-- What code is read over: blanks, tags and comments of every form. -/
def isTrivia : TokenKind → Bool
  | space | reset | tag | lineComment | blockComment | docComment => true
  | _ => false

/-- A name of any form. -/
def isName : TokenKind → Bool
  | constant | variableName | name | member | className | functionName | magicFunction | decorator => true
  | _ => false

/-- Plain text and escapes of a double quoted string. -/
def isDoubleQuotedText : TokenKind → Bool
  | doubleQuoted | escape => true
  | _ => false

end TokenKind

/-- A piece of a PHP source: where it starts, what it is and its text. -/
structure Token where
  offset : Nat
  kind : TokenKind
  text : Text
  deriving DecidableEq, Repr

end SourceTidy.Php
