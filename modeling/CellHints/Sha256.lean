/-!
# SHA-256 compression

The compression of one block of sixteen big-endian 32-bit words into a state of
eight.  Additions are modulo 2 ^ 32.
-/

namespace CellHints.Sha256

/-- The number of words in a state. -/
def stateWords : Nat := 8

/-- The number of words in a message block. -/
def blockWords : Nat := 16

/-- The words of a state. -/
abbrev State := Vector UInt32 8

/-- The words of a message block. -/
abbrev Block := Vector UInt32 16

/-- The state that hashing starts from. -/
def initial : State :=
  #v[0x6a09e667, 0xbb67ae85, 0x3c6ef372, 0xa54ff53a,
     0x510e527f, 0x9b05688c, 0x1f83d9ab, 0x5be0cd19]

/-- The constants of the sixty-four rounds. -/
def roundConstants : List UInt32 :=
  [0x428a2f98, 0x71374491, 0xb5c0fbcf, 0xe9b5dba5, 0x3956c25b, 0x59f111f1, 0x923f82a4, 0xab1c5ed5,
   0xd807aa98, 0x12835b01, 0x243185be, 0x550c7dc3, 0x72be5d74, 0x80deb1fe, 0x9bdc06a7, 0xc19bf174,
   0xe49b69c1, 0xefbe4786, 0x0fc19dc6, 0x240ca1cc, 0x2de92c6f, 0x4a7484aa, 0x5cb0a9dc, 0x76f988da,
   0x983e5152, 0xa831c66d, 0xb00327c8, 0xbf597fc7, 0xc6e00bf3, 0xd5a79147, 0x06ca6351, 0x14292967,
   0x27b70a85, 0x2e1b2138, 0x4d2c6dfc, 0x53380d13, 0x650a7354, 0x766a0abb, 0x81c2c92e, 0x92722c85,
   0xa2bfe8a1, 0xa81a664b, 0xc24b8b70, 0xc76c51a3, 0xd192e819, 0xd6990624, 0xf40e3585, 0x106aa070,
   0x19a4c116, 0x1e376c08, 0x2748774c, 0x34b0bcb5, 0x391c0cb3, 0x4ed8aa4a, 0x5b9cca4f, 0x682e6ff3,
   0x748f82ee, 0x78a5636f, 0x84c87814, 0x8cc70208, 0x90befffa, 0xa4506ceb, 0xbef9a3f7, 0xc67178f2]

/-- A word turned right by `n` bits, where `n` is between 1 and 31. -/
def rotate (x n : UInt32) : UInt32 := (x >>> n) ||| (x <<< (32 - n))

/-- The mixing of the first word of a round. -/
def upperSigma0 (x : UInt32) : UInt32 := rotate x 2 ^^^ rotate x 13 ^^^ rotate x 22

/-- The mixing of the fifth word of a round. -/
def upperSigma1 (x : UInt32) : UInt32 := rotate x 6 ^^^ rotate x 11 ^^^ rotate x 25

/-- The mixing of the word fifteen places back in the schedule. -/
def lowerSigma0 (x : UInt32) : UInt32 := rotate x 7 ^^^ rotate x 18 ^^^ (x >>> 3)

/-- The mixing of the word two places back in the schedule. -/
def lowerSigma1 (x : UInt32) : UInt32 := rotate x 17 ^^^ rotate x 19 ^^^ (x >>> 10)

/-- Bits of `y` where `x` is set, and of `z` where it is not. -/
def choose (x y z : UInt32) : UInt32 := (x &&& y) ^^^ ((x ^^^ 0xffffffff) &&& z)

/-- Bits set in at least two of three words. -/
def majority (x y z : UInt32) : UInt32 := (x &&& y) ^^^ (x &&& z) ^^^ (y &&& z)

/-- The schedule word that follows a window of sixteen. -/
def nextWord (window : Block) : UInt32 :=
  lowerSigma1 window[14] + window[9] + lowerSigma0 window[1] + window[0]

/-- The window one word further on. -/
def slide (window : Block) : Block := window.tail.push (nextWord window)

/-- One round with a constant and a schedule word. -/
def round (s : State) (constant word : UInt32) : State :=
  let first := s[7] + upperSigma1 s[4] + choose s[4] s[5] s[6] + constant + word
  let second := upperSigma0 s[0] + majority s[0] s[1] s[2]
  #v[first + second, s[0], s[1], s[2], s[3] + first, s[4], s[5], s[6]]

/-- The rounds of the given constants, over the schedule that starts with a window. -/
def rounds (s : State) (window : Block) : List UInt32 → State
  | [] => s
  | constant :: rest => rounds (round s constant window[0]) (slide window) rest

/-- The state after one block. -/
def compress (s : State) (block : Block) : State :=
  Vector.zipWith (· + ·) s (rounds s block roundConstants)

end CellHints.Sha256
