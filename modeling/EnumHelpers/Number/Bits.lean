/-!
# Number — bits of integers

Bitwise operations on integers of any size, a negative integer standing for infinitely many
leading ones: `-(n + 1)` has the complemented bits of `n`.
-/

namespace EnumHelpers.Number

/-- The bits set in both. -/
def bitAnd : Int → Int → Int
  | .ofNat m, .ofNat n => .ofNat (m &&& n)
  | .ofNat m, .negSucc n => .ofNat (m - (m &&& n))
  | .negSucc m, .ofNat n => .ofNat (n - (n &&& m))
  | .negSucc m, .negSucc n => .negSucc (m ||| n)

/-- The bits set in at least one. -/
def bitOr : Int → Int → Int
  | .ofNat m, .ofNat n => .ofNat (m ||| n)
  | .ofNat m, .negSucc n => .negSucc (n - (n &&& m))
  | .negSucc m, .ofNat n => .negSucc (m - (m &&& n))
  | .negSucc m, .negSucc n => .negSucc (m &&& n)

/-- The bits set in exactly one. -/
def bitXor : Int → Int → Int
  | .ofNat m, .ofNat n => .ofNat (m ^^^ n)
  | .ofNat m, .negSucc n => .negSucc (m ^^^ n)
  | .negSucc m, .ofNat n => .negSucc (m ^^^ n)
  | .negSucc m, .negSucc n => .ofNat (m ^^^ n)

/-- The complement of every bit. -/
def bitNot (n : Int) : Int := -n - 1

/-- The integer without its lowest `k` bits. -/
def shiftDown (n : Int) (k : Nat) : Int :=
  if n.natAbs.log2 < k then (if n < 0 then -1 else 0) else n >>> k

end EnumHelpers.Number
