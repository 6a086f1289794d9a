import Mathlib.Data.BitVec

/-!
# Lib — the bit operators of JavaScript

An operand of a bit operator is cut to its low 32 bits, whatever its size and sign; the result is
their signed reading, except that the unsigned shift gives a number that is not negative. A number
is a whole number here: sums stay exact up to `2 ^ 53`, and the operators see only the low bits.

* **`word`** — the low 32 bits.
* **`band`**, **`bor`**, **`bxor`**, **`bnot`**, **`shl`**, **`ushr`**, **`toInt32`** — the
  operators. A simp lemma for each says what its result's low bits are, so that a computation can be
  followed on words.
-/

namespace QsBitwarden.JsBits

abbrev Word := BitVec 32

def word (x : Int) : Word := BitVec.ofInt 32 x

/-- `x & y`. -/
def band (x y : Int) : Int := (word x &&& word y).toInt

/-- `x | y`. -/
def bor (x y : Int) : Int := (word x ||| word y).toInt

/-- `x ^ y`. -/
def bxor (x y : Int) : Int := (word x ^^^ word y).toInt

/-- `~x`. -/
def bnot (x : Int) : Int := (~~~word x).toInt

/-- `x << n`. -/
def shl (x : Int) (n : Nat) : Int := (word x <<< (n % 32)).toInt

/-- `x >>> n`. -/
def ushr (x : Int) (n : Nat) : Int := (word x >>> (n % 32)).toNat

/-- `x | 0`. -/
def toInt32 (x : Int) : Int := (word x).toInt

@[simp] theorem word_toInt (x : Word) : word x.toInt = x := BitVec.ofInt_toInt

@[simp] theorem word_toNat (x : Word) : word x.toNat = x := by
  rw [word, BitVec.ofInt_natCast, BitVec.ofNat_toNat, BitVec.setWidth_eq]

@[simp] theorem word_band (x y : Int) : word (band x y) = word x &&& word y := word_toInt _

@[simp] theorem word_bor (x y : Int) : word (bor x y) = word x ||| word y := word_toInt _

@[simp] theorem word_bxor (x y : Int) : word (bxor x y) = word x ^^^ word y := word_toInt _

@[simp] theorem word_bnot (x : Int) : word (bnot x) = ~~~word x := word_toInt _

@[simp] theorem word_shl (x : Int) (n : Nat) : word (shl x n) = word x <<< (n % 32) := word_toInt _

@[simp] theorem word_ushr (x : Int) (n : Nat) : word (ushr x n) = word x >>> (n % 32) :=
  word_toNat _

@[simp] theorem word_toInt32 (x : Int) : word (toInt32 x) = word x := word_toInt _

@[simp] theorem word_add (x y : Int) : word (x + y) = word x + word y :=
  BitVec.ofInt_add x y

end QsBitwarden.JsBits
