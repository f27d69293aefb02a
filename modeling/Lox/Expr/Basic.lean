import Lox.Token.Basic

/-!
# Expressions

An expression is a literal value, a grouping, or an operator token with one or two operands. Its
text is in prefix form, every compound expression in parentheses; a grouping is headed by the word
`group`. Strings stand bare, and numbers are always positional, without a `.0`.
-/
namespace Lox

inductive Value
  | nil
  | bool (b : Bool)
  | number (x : Binary64)
  | string (s : List Char)
  deriving DecidableEq, Repr

namespace Value

def style : Decimal.Style where
  positional _ := true
  wholePoint := false
  exponentPlus := false
  tie := .up

def ofLiteral : Literal → Value
  | .string s => .string s
  | .number x => .number x

def write : Value → List Char
  | nil => "nil".toList
  | bool true => "true".toList
  | bool false => "false".toList
  | number x => style.write x
  | string s => s

/-- Numbers are compared by value. -/
def same : Value → Value → Bool
  | nil, nil => true
  | bool a, bool b => a == b
  | number x, number y => x.same y
  | string s, string t => s == t
  | _, _ => false

end Value

inductive Expr
  | literal (v : Value)
  | grouping (e : Expr)
  | unary (operator : Token) (right : Expr)
  | binary (left : Expr) (operator : Token) (right : Expr)
  deriving DecidableEq, Repr

namespace Expr

def write : Expr → List Char
  | literal v => v.write
  | grouping e => "(group ".toList ++ e.write ++ [')']
  | unary operator right => '(' :: operator.lexeme ++ ' ' :: (right.write ++ [')'])
  | binary left operator right =>
    '(' :: operator.lexeme ++ ' ' :: (left.write ++ ' ' :: (right.write ++ [')']))

/-- Equality of shape, operator tokens and values. -/
def same : Expr → Expr → Bool
  | literal v, literal w => v.same w
  | grouping e, grouping f => e.same f
  | unary op e, unary op' e' => op.same op' && e.same e'
  | binary e op f, binary e' op' f' => e.same e' && op.same op' && f.same f'
  | _, _ => false

end Expr
end Lox
