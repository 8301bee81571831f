import ShelfQuery.Number.Text

set_option autoImplicit false

namespace ShelfQuery.Expression

inductive Keyword where
  | and | or | not | in | is | null | true | false | between | like | ilike
  deriving DecidableEq

inductive Mark where
  | plus | minus | star | slash | eq | ne | lt | le | gt | ge
  | openParen | closeParen | comma | openTotal | closeTotal
  deriving DecidableEq

inductive TokenKind where
  | column (name : String)
  | word (name : String)
  | reference (name : String)
  | int (value : Int)
  | float (value : Float)
  | text (value : String)
  | keyword (keyword : Keyword)
  | mark (mark : Mark)
  | eof

structure Token where
  kind : TokenKind
  pos : Nat

namespace Keyword

def name : Keyword → String
  | .and => "AND"
  | .or => "OR"
  | .not => "NOT"
  | .in => "IN"
  | .is => "IS"
  | .null => "NULL"
  | .true => "TRUE"
  | .false => "FALSE"
  | .between => "BETWEEN"
  | .like => "LIKE"
  | .ilike => "ILIKE"

def all : List Keyword :=
  [.and, .or, .not, .in, .is, .null, .true, .false, .between, .like, .ilike]

def ofWord? (word : String) : Option Keyword := all.find? fun k => Text.sameIgnoringCase k.name word

end Keyword

def Mark.spelling : Mark → String
  | .plus => "+"
  | .minus => "-"
  | .star => "*"
  | .slash => "/"
  | .eq => "="
  | .ne => "!="
  | .lt => "<"
  | .le => "<="
  | .gt => ">"
  | .ge => ">="
  | .openParen => "("
  | .closeParen => ")"
  | .comma => ","
  | .openTotal => "\x7b\x7b"
  | .closeTotal => "\x7d\x7d"

namespace TokenKind

def describe : TokenKind → String
  | .column name => "column [" ++ name ++ "]"
  | .word name => "'" ++ name ++ "'"
  | .reference name => "@" ++ name
  | .int n => toString n
  | .float x => Number.plain x
  | .text s => "\"" ++ s ++ "\""
  | .keyword k => k.name
  | .mark m => "'" ++ m.spelling ++ "'"
  | .eof => "end of expression"

def isKeyword (k : Keyword) : TokenKind → Bool
  | .keyword k' => k == k'
  | _ => false

def isMark (m : Mark) : TokenKind → Bool
  | .mark m' => m == m'
  | _ => false

def isEof : TokenKind → Bool
  | .eof => true
  | _ => false

end TokenKind

end ShelfQuery.Expression
