import NativeHardwareAccess.Schemes.LittleEndian

/-! The MD5 message digest (RFC 1321), executable.

    The developments that use a checksum take it as a parameter, a total function to 16 bytes. This
    is the function they are run with: a message is padded to whole 64-byte blocks, each block is
    read as sixteen little-endian words, and 64 rounds per block update four 32-bit words. -/

namespace Scheme.MD5

/-- Sixteen bytes. -/
abbrev Digest := List.Vector UInt8 16

/-- Rotation amounts, one row of four per sixteen rounds. -/
def rotations : List ℕ := [7, 12, 17, 22, 5, 9, 14, 20, 4, 11, 16, 23, 6, 10, 15, 21]

/-- The 64 sine constants. -/
def sines : List ℕ :=
  [0xd76aa478, 0xe8c7b756, 0x242070db, 0xc1bdceee, 0xf57c0faf, 0x4787c62a, 0xa8304613, 0xfd469501,
   0x698098d8, 0x8b44f7af, 0xffff5bb1, 0x895cd7be, 0x6b901122, 0xfd987193, 0xa679438e, 0x49b40821,
   0xf61e2562, 0xc040b340, 0x265e5a51, 0xe9b6c7aa, 0xd62f105d, 0x02441453, 0xd8a1e681, 0xe7d3fbc8,
   0x21e1cde6, 0xc33707d6, 0xf4d50d87, 0x455a14ed, 0xa9e3e905, 0xfcefa3f8, 0x676f02d9, 0x8d2a4c8a,
   0xfffa3942, 0x8771f681, 0x6d9d6122, 0xfde5380c, 0xa4beea44, 0x4bdecfa9, 0xf6bb4b60, 0xbebfbc70,
   0x289b7ec6, 0xeaa127fa, 0xd4ef3085, 0x04881d05, 0xd9d4d039, 0xe6db99e5, 0x1fa27cf8, 0xc4ac5665,
   0xf4292244, 0x432aff97, 0xab9423a7, 0xfc93a039, 0x655b59c3, 0x8f0ccc92, 0xffeff47d, 0x85845dd1,
   0x6fa87e4f, 0xfe2ce6e0, 0xa3014314, 0x4e0811a1, 0xf7537e82, 0xbd3af235, 0x2ad7d2bb, 0xeb86d391]

/-- Complement of a 32-bit word. -/
def not32 (x : ℕ) : ℕ := 0xffffffff - x

/-- Rotate a 32-bit word left. -/
def rotl32 (x s : ℕ) : ℕ := (x <<< s ||| x >>> (32 - s)) % 2 ^ 32

/-- The four working words. -/
structure Words where
  a : ℕ
  b : ℕ
  c : ℕ
  d : ℕ

/-- The mixing function of round `i` and the index of the message word it takes. -/
def mix (i : ℕ) (w : Words) : ℕ × ℕ :=
  if i < 16 then ((w.b &&& w.c) ||| (not32 w.b &&& w.d), i)
  else if i < 32 then ((w.d &&& w.b) ||| (not32 w.d &&& w.c), (5 * i + 1) % 16)
  else if i < 48 then (w.b ^^^ w.c ^^^ w.d, (3 * i + 5) % 16)
  else (w.c ^^^ (w.b ||| not32 w.d), (7 * i) % 16)

/-- Round `i` on a block. -/
def round (block : List ℕ) (w : Words) (i : ℕ) : Words :=
  let f := ((mix i w).1 + w.a + sines.getD i 0 + block.getD (mix i w).2 0) % 2 ^ 32
  ⟨w.d, (w.b + rotl32 f (rotations.getD (4 * (i / 16) + i % 4) 0)) % 2 ^ 32, w.b, w.c⟩

/-- All 64 rounds on a block, added to the words before it. -/
def compress (w : Words) (block : List ℕ) : Words :=
  let w' := (List.range 64).foldl (round block) w
  ⟨(w.a + w'.a) % 2 ^ 32, (w.b + w'.b) % 2 ^ 32, (w.c + w'.c) % 2 ^ 32, (w.d + w'.d) % 2 ^ 32⟩

/-- The bytes of a message with its padding and its length in bits. -/
def pad (l : List UInt8) : List UInt8 :=
  l ++ 0x80 :: List.replicate ((119 - l.length % 64) % 64) 0 ++ toLE 8 (8 * l.length)

/-- `n` consecutive words of a byte list. -/
def wordsOf : ℕ → List UInt8 → List ℕ
  | 0, _ => []
  | n + 1, l => ofLE (l.take 4) :: wordsOf n (l.drop 4)

/-- `n` consecutive blocks of sixteen words. -/
def blocksOf : ℕ → List UInt8 → List (List ℕ)
  | 0, _ => []
  | n + 1, l => wordsOf 16 l :: blocksOf n (l.drop 64)

/-- The working words after all blocks of a message. -/
def digestWords (l : List UInt8) : Words :=
  (blocksOf ((pad l).length / 64) (pad l)).foldl compress
    ⟨0x67452301, 0xefcdab89, 0x98badcfe, 0x10325476⟩

/-- The MD5 digest of a message. -/
def md5 (l : List UInt8) : Digest :=
  ⟨toLE 4 (digestWords l).a ++ toLE 4 (digestWords l).b ++ toLE 4 (digestWords l).c ++
    toLE 4 (digestWords l).d, by simp⟩

end Scheme.MD5
