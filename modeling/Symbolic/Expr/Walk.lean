import Symbolic.Expr.Basic

/-!
Pre-order walks, and the names of the variables that a walk meets, sorted by code point.
-/

namespace Symbolic

/-- The order of names by their first differing code point. -/
def nameBefore : List Char → List Char → Bool
  | _, [] => false
  | [], _ :: _ => true
  | a :: as, b :: bs => a.toNat < b.toNat || (a = b && nameBefore as bs)

def insertName (x : String) : List String → List String
  | [] => [x]
  | y :: ys =>
    if x = y then y :: ys
    else if nameBefore x.toList y.toList then x :: y :: ys
    else y :: insertName x ys

namespace Expr

/-- The nodes met by a walk that goes below a node only if `down` says so, followed by `rest`. -/
def walkOnto (down : Expr → Bool) : Expr → List Expr → List Expr
  | .num n, rest => .num n :: rest
  | .var x, rest => .var x :: rest
  | .sum l r, rest =>
    .sum l r :: if down (.sum l r) then l.walkOnto down (r.walkOnto down rest) else rest
  | .prod l r, rest =>
    .prod l r :: if down (.prod l r) then l.walkOnto down (r.walkOnto down rest) else rest

def walk (down : Expr → Bool) (e : Expr) : List Expr :=
  e.walkOnto down []

def name? : Expr → Option String
  | .var x => some x
  | _ => none

def freeNames (e : Expr) : List String :=
  ((e.walk fun _ => true).filterMap name?).foldl (fun names x => insertName x names) []

end Expr

end Symbolic
