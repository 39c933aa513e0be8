/-!
# Fresh names

The first name of a numbered family that is not taken. Among `limit + 1` consecutive members one
is free whenever at most `limit` names are taken, so the search needs no more steps than that.
-/
namespace QueryCompiler

/-- The first number from `start` on whose name is not taken, looking at `limit` numbers. -/
def firstFree (taken : String → Bool) (name : Nat → String) : (limit start : Nat) → Nat
  | 0, start => start
  | limit + 1, start =>
    if taken (name start) then firstFree taken name limit (start + 1) else start

end QueryCompiler
