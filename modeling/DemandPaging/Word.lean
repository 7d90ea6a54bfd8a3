/-!
# Machine words

Addresses, lengths and counts enter as 64-bit words.  They are kept as natural
numbers: no operation of this library wraps, so every sum and product that may
leave the word range says what happens there.

* `Word.add?`, `Word.mul?`, `Word.roundUp?` answer `none` once the result needs
  more than 64 bits.  What that means is the caller's decision: a refused request
  in one place, a stopped kernel in another.
* `hex` is the only way a word is written: lower case, `0x`, no padding.
-/

namespace DemandPaging

/-- One past the largest machine word. -/
def wordLimit : Nat := 0x10000000000000000

/-- The most bytes that one piece of the kernel's own bookkeeping can take. -/
def largestAllocation : Nat := 0x7fffffffffffffff

/-- The least multiple of `step` that is not below `n`. -/
def roundUp (n step : Nat) : Nat := (n + (step - 1)) / step * step

/-- How many blocks of `step` it takes to hold `n`. -/
def blocksFor (n step : Nat) : Nat := (n + (step - 1)) / step

namespace Word

/-- The sum, while it is a machine word. -/
def add? (a b : Nat) : Option Nat := if a + b < wordLimit then some (a + b) else none

/-- The product, while it is a machine word. -/
def mul? (a b : Nat) : Option Nat := if a * b < wordLimit then some (a * b) else none

/-- The next multiple of `step`, while it is a machine word. -/
def roundUp? (n step : Nat) : Option Nat :=
  if roundUp n step < wordLimit then some (roundUp n step) else none

theorem add?_eq_some_iff {a b c : Nat} :
    add? a b = some c ↔ a + b < wordLimit ∧ a + b = c := by
  simp [add?]

theorem mul?_eq_some_iff {a b c : Nat} :
    mul? a b = some c ↔ a * b < wordLimit ∧ a * b = c := by
  simp [mul?]

theorem roundUp?_eq_some_iff {n step c : Nat} :
    roundUp? n step = some c ↔ roundUp n step < wordLimit ∧ roundUp n step = c := by
  simp [roundUp?]

end Word

/-- A word in lower-case hexadecimal, marked `0x` and without padding. -/
def hex (n : Nat) : String := "0x" ++ String.ofList (Nat.toDigits 16 n)

end DemandPaging
