import Mathlib.Data.Int.Basic

/-!
# The parts of C the applications rely on

32-bit `int` arithmetic and glibc's decimal conversions. The platform is LP64: `long` has
64 bits, `int` has 32.
-/

namespace DdsApps.Infra

/-! ## `int` -/

/-- The result of an `int` operation: the exact value reduced modulo 2^32, read as signed. -/
@[irreducible] def wrapInt (z : Int) : Int := z.bmod 4294967296

theorem wrapInt_of_range {z : Int} (h1 : -2147483648 ≤ z) (h2 : z < 2147483648) :
    wrapInt z = z := by
  unfold wrapInt
  rw [Int.bmod_def]
  split <;> omega

/-- Wrapping takes away a multiple of 2^32. -/
theorem wrapInt_eq_sub (z : Int) : ∃ k, wrapInt z = z - 4294967296 * k := by
  unfold wrapInt
  rw [Int.bmod_def]
  split
  · exact ⟨z / 4294967296, by omega⟩
  · exact ⟨z / 4294967296 + 1, by omega⟩

/-- Read as `int`, only the lower half of the unsigned numbers is above a natural number. -/
theorem lt_of_lt_wrapInt {u r : Nat} (hu : u < 4294967296) (hr : (r : Int) < wrapInt u) :
    u < 2147483648 ∧ r < u := by
  by_cases hlt : u < 2147483648
  · rw [wrapInt_of_range (by omega) (by omega)] at hr
    exact ⟨hlt, by omega⟩
  · -- the upper half is read as negative
    unfold wrapInt at hr
    rw [Int.bmod_def] at hr
    omega

/-! ## `strtol` and `atoi` -/

/-- `isspace` in the "C" locale: the blank and the five characters from tab to return. -/
def isSpace (c : Char) : Bool := c == ' ' || (0x09 ≤ c.toNat && c.toNat ≤ 0x0D)

/-- An optional sign: whether it is `-`, and what follows it. -/
def readSign : List Char → Bool × List Char
  | '-' :: rest => (true, rest)
  | '+' :: rest => (false, rest)
  | l => (false, l)

/-- The number a list of digits denotes, the most significant first. -/
def decimalValue (ds : List Char) : Nat := ds.foldl (fun n d => 10 * n + (d.toNat - 0x30)) 0

/-- `strtol` saturates at `LONG_MIN` and `LONG_MAX`. -/
def clampLong (z : Int) : Int := max (-9223372036854775808) (min z 9223372036854775807)

/--
`strtol(s, &endptr, 10)`: the value, and the text `endptr` points to.

Without a single digit nothing is converted, and `endptr` is the start of the text.
-/
def strtol (s : List Char) : Int × List Char :=
  let (negative, t) := readSign (s.dropWhile isSpace)
  let ds := t.takeWhile Char.isDigit
  if ds.isEmpty then (0, s)
  else
    (clampLong (if negative then -(decimalValue ds : Int) else decimalValue ds),
      t.dropWhile Char.isDigit)

/-- glibc's `atoi`: `(int) strtol(s, NULL, 10)`. -/
def atoi (s : List Char) : Int := wrapInt (strtol s).1

example : atoi " -12x".toList = -12 := by decide +kernel

end DdsApps.Infra
