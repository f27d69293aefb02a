import Lox.Expr.Basic

/-!
# Postfix construction of expressions

Expressions are built on a stack, top first: an operand is pushed, and an operator takes its
operands from the stack and pushes the expression made of them. A step without enough operands
fails.
-/
namespace Lox
namespace Expr

inductive Step
  | push (v : Value)
  | group
  | unary (operator : Token)
  | binary (operator : Token)
  | copy
  | compare        -- takes two expressions, pushes whether they are the same
  deriving DecidableEq, Repr

abbrev Stack := List Expr

def Step.run? : Step → Stack → Option Stack
  | push v, s => some (literal v :: s)
  | group, e :: s => some (grouping e :: s)
  | unary op, e :: s => some (Expr.unary op e :: s)
  | binary op, right :: left :: s => some (Expr.binary left op right :: s)
  | copy, e :: s => some (e :: e :: s)
  | compare, right :: left :: s => some (literal (.bool (left.same right)) :: s)
  | _, _ => none

/-- The top of the stack after each step. -/
def tops? (s : Stack) : List Step → Option (List Expr)
  | [] => some []
  | step :: steps => do
    let s' ← step.run? s
    let top ← s'.head?
    return top :: (← tops? s' steps)

end Expr
end Lox
