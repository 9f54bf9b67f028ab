/-!
# The XXH64 digest with seed zero

XXH64 reads its input in stripes of 32 bytes, one 64-bit word for each of four
lanes. What is left after the last whole stripe is absorbed into the merged lanes
by words of eight bytes, then at most one word of four, then single bytes. All
arithmetic is modulo `2 ^ 64`, so the definitions use `UInt64` throughout, and
all words are read in little-endian order.

The digest is only ever used as a number that depends on the bytes of a name.
Nothing else in the library looks inside it.
-/

namespace Cil.Xxh64

def prime1 : UInt64 := 0x9E3779B185EBCA87
def prime2 : UInt64 := 0xC2B2AE3D27D4EB4F
def prime3 : UInt64 := 0x165667B19E3779F9
def prime4 : UInt64 := 0x85EBCA77C2B2AE63
def prime5 : UInt64 := 0x27D4EB2F165667C5

/-- Rotate to the left by `r` bits, for `0 < r < 64`. -/
def rotl (x r : UInt64) : UInt64 :=
  (x <<< r) ||| (x >>> (64 - r))

/-- The little-endian word in the `width` bytes from `start` on. Bytes beyond the
end of the input read as zero; the digest never asks for one. -/
def word (bytes : ByteArray) (start width : Nat) : UInt64 :=
  (List.range width).foldr
    (fun k acc => (acc <<< 8) ||| (bytes[start + k]?.getD 0).toUInt64) 0

/-- Absorb one word into a lane. -/
def round (lane input : UInt64) : UInt64 :=
  rotl (lane + input * prime2) 31 * prime1

/-- The four lanes that absorb whole stripes. -/
structure Lanes where
  a : UInt64
  b : UInt64
  c : UInt64
  d : UInt64

namespace Lanes

def start : Lanes := ⟨prime1 + prime2, prime2, 0, 0 - prime1⟩

/-- Absorb the stripe at `offset`. -/
def absorb (l : Lanes) (bytes : ByteArray) (offset : Nat) : Lanes :=
  ⟨round l.a (word bytes offset 8), round l.b (word bytes (offset + 8) 8),
   round l.c (word bytes (offset + 16) 8), round l.d (word bytes (offset + 24) 8)⟩

/-- Fold one more lane into the merged value. -/
def mergeLane (h lane : UInt64) : UInt64 :=
  (h ^^^ round 0 lane) * prime1 + prime4

/-- The single value that carries on after the last stripe. -/
def merge (l : Lanes) : UInt64 :=
  [l.a, l.b, l.c, l.d].foldl mergeLane
    (rotl l.a 1 + rotl l.b 7 + rotl l.c 12 + rotl l.d 18)

end Lanes

/-- Absorb the whole stripes. An input without one starts from a constant. -/
def stripes (bytes : ByteArray) : UInt64 :=
  let count := bytes.size / 32
  if count = 0 then prime5
  else ((List.range count).foldl (fun l k => l.absorb bytes (32 * k)) Lanes.start).merge

def tailWord8 (h w : UInt64) : UInt64 :=
  rotl (h ^^^ round 0 w) 27 * prime1 + prime4

def tailWord4 (h w : UInt64) : UInt64 :=
  rotl (h ^^^ (w * prime1)) 23 * prime2 + prime3

def tailByte (h b : UInt64) : UInt64 :=
  rotl (h ^^^ (b * prime5)) 11 * prime1

/-- Absorb the fewer than 32 bytes after the last whole stripe. -/
def tail (bytes : ByteArray) (h : UInt64) : UInt64 :=
  let n := bytes.size
  let from8 := n - n % 32
  let from4 := n - n % 8
  let from1 := n - n % 4
  let h := (List.range (n % 32 / 8)).foldl (fun h k => tailWord8 h (word bytes (from8 + 8 * k) 8)) h
  let h := (List.range (n % 8 / 4)).foldl (fun h k => tailWord4 h (word bytes (from4 + 4 * k) 4)) h
  (List.range (n % 4)).foldl (fun h k => tailByte h (word bytes (from1 + k) 1)) h

/-- The final mixing of high bits into low ones. -/
def avalanche (h : UInt64) : UInt64 :=
  let h := (h ^^^ (h >>> 33)) * prime2
  let h := (h ^^^ (h >>> 29)) * prime3
  h ^^^ (h >>> 32)

/-- The digest of a byte string. -/
def digest (bytes : ByteArray) : UInt64 :=
  avalanche (tail bytes (stripes bytes + bytes.size.toUInt64))

/-- The digest of a name is that of its UTF-8 bytes. -/
def ofString (s : String) : UInt64 :=
  digest s.toUTF8

end Cil.Xxh64
