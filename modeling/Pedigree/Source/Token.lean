/-! The tokens of the family tree language. A token keeps the text it was written with. -/

namespace Pedigree.Source

inductive Token where
  | familyTree
  | maritalLink
  | familialLink
  | leftParen
  | rightParen
  | leftBrace
  | rightBrace
  | terminator
  | range
  | date (text : String)
  | name (text : String)
  | comment (text : String)
deriving DecidableEq, Repr

namespace Token

inductive Kind where
  | familyTree
  | maritalLink
  | familialLink
  | leftParen
  | rightParen
  | leftBrace
  | rightBrace
  | terminator
  | range
  | date
  | name
  | comment
deriving DecidableEq, Repr

def kind : Token → Kind
  | familyTree => .familyTree
  | maritalLink => .maritalLink
  | familialLink => .familialLink
  | leftParen => .leftParen
  | rightParen => .rightParen
  | leftBrace => .leftBrace
  | rightBrace => .rightBrace
  | terminator => .terminator
  | range => .range
  | date _ => .date
  | name _ => .name
  | comment _ => .comment

def Kind.text : Kind → String
  | familyTree => "family_tree"
  | maritalLink => "<=>"
  | familialLink => "->"
  | leftParen => "("
  | rightParen => ")"
  | leftBrace => "\x7b"
  | rightBrace => "\x7d"
  | terminator => ";"
  | range => "-"
  | date => "date"
  | name => "name"
  | comment => "comment"

def value? : Token → Option String
  | date text | name text | comment text => some text
  | _ => none

def text : Token → String
  | date text | name text => text
  | comment text => "//" ++ text
  | token => token.kind.text

def chars (token : Token) : List Char := token.text.toList

end Token
end Pedigree.Source
