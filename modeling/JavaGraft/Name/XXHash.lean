/-!
# XXH64

The 64-bit xxHash of a sequence of bytes, with seed zero. The bytes are read as little-endian
words of eight bytes, with at most seven bytes left over. Words are taken four at a time by four
independent accumulators as long as four remain; the accumulators are then merged, the last words
and bytes are folded in, and the result is scrambled once more so that every input bit reaches
every output bit.
-/

namespace JavaGraft.XXHash

/-! ### Constants and steps -/

/-- The first of the five mixing primes. -/
def prime1 : UInt64 := 0x9E3779B185EBCA87
/-- The second mixing prime. -/
def prime2 : UInt64 := 0xC2B2AE3D27D4EB4F
/-- The third mixing prime. -/
def prime3 : UInt64 := 0x165667B19E3779F9
/-- The fourth mixing prime. -/
def prime4 : UInt64 := 0x85EBCA77C2B2AE63
/-- The fifth mixing prime. -/
def prime5 : UInt64 := 0x27D4EB2F165667C5

/-- Rotation to the left; `k` lies strictly between 0 and 64. -/
def rotateLeft (x : UInt64) (k : UInt64) : UInt64 := (x <<< k) ||| (x >>> (64 - k))

/-- One accumulator takes one word. -/
def round (acc word : UInt64) : UInt64 := rotateLeft (acc + word * prime2) 31 * prime1

/-- A finished accumulator is merged into the hash. -/
def merge (hash acc : UInt64) : UInt64 := (hash ^^^ round 0 acc) * prime1 + prime4

/-- A word outside the groups of four is folded in. -/
def foldWord (hash word : UInt64) : UInt64 :=
  rotateLeft (hash ^^^ round 0 word) 27 * prime1 + prime4

/-- A half word of four bytes is folded in. -/
def foldHalf (hash half : UInt64) : UInt64 :=
  rotateLeft (hash ^^^ (half * prime1)) 23 * prime2 + prime3

/-- A single byte is folded in. -/
def foldByte (hash byte : UInt64) : UInt64 := rotateLeft (hash ^^^ (byte * prime5)) 11 * prime1

/-- The final scrambling. -/
def scramble (hash : UInt64) : UInt64 :=
  let a := (hash ^^^ (hash >>> 33)) * prime2
  let b := (a ^^^ (a >>> 29)) * prime3
  b ^^^ (b >>> 32)

/-! ### Reading the bytes -/

/-- The number whose little-endian digits are the bytes. -/
def littleEndian (bytes : List UInt8) : UInt64 :=
  bytes.foldr (fun b acc => (acc <<< 8) ||| b.toUInt64) 0

/-- The words of eight bytes, and the bytes left over. -/
def words : List UInt8 → List UInt64 × List UInt8
  | b0 :: b1 :: b2 :: b3 :: b4 :: b5 :: b6 :: b7 :: rest =>
    let (ws, tail) := words rest
    (littleEndian [b0, b1, b2, b3, b4, b5, b6, b7] :: ws, tail)
  | tail => ([], tail)

/-- The four accumulators. -/
structure Lanes where
  a : UInt64
  b : UInt64
  c : UInt64
  d : UInt64

/-- The accumulators before the first word. -/
def Lanes.start : Lanes := ⟨prime1 + prime2, prime2, 0, 0 - prime1⟩

/-- The accumulators after all groups of four words, and the words left over. -/
def Lanes.absorb (lanes : Lanes) : List UInt64 → Lanes × List UInt64
  | w0 :: w1 :: w2 :: w3 :: rest =>
    Lanes.absorb ⟨round lanes.a w0, round lanes.b w1, round lanes.c w2, round lanes.d w3⟩ rest
  | rest => (lanes, rest)

/-- The four accumulators as one hash. -/
def Lanes.collapse (l : Lanes) : UInt64 :=
  let sum := rotateLeft l.a 1 + rotateLeft l.b 7 + rotateLeft l.c 12 + rotateLeft l.d 18
  merge (merge (merge (merge sum l.a) l.b) l.c) l.d

/-- At most seven bytes are folded in: four of them at once if there are as many. -/
def foldTail (hash : UInt64) : List UInt8 → UInt64
  | b0 :: b1 :: b2 :: b3 :: rest =>
    (rest.map UInt8.toUInt64).foldl foldByte (foldHalf hash (littleEndian [b0, b1, b2, b3]))
  | rest => (rest.map UInt8.toUInt64).foldl foldByte hash

/-! ### The hash -/

/-- **XXH64 with seed zero.** -/
def hashBytes (bytes : List UInt8) : UInt64 :=
  let (ws, tail) := words bytes
  let (start, rest) :=
    if bytes.length < 32 then (prime5, ws)
    else
      let (lanes, rest) := Lanes.start.absorb ws
      (lanes.collapse, rest)
  scramble (foldTail (rest.foldl foldWord (start + bytes.length.toUInt64)) tail)

/-- The hash of a text's UTF-8 encoding. -/
def hashText (text : String) : UInt64 := hashBytes text.toUTF8.toList

end JavaGraft.XXHash
