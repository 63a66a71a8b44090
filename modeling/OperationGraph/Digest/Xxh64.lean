/-! # The XXH64 digest

A digest of sixty-four bits of a sequence of bytes, computed with seed zero: stripes of thirty-two
bytes go through four lanes, and what is left over is mixed in by eight, four and one bytes. -/

namespace OperationGraph.Digest

def prime1 : UInt64 := 0x9E3779B185EBCA87
def prime2 : UInt64 := 0xC2B2AE3D27D4EB4F
def prime3 : UInt64 := 0x165667B19E3779F9
def prime4 : UInt64 := 0x85EBCA77C2B2AE63
def prime5 : UInt64 := 0x27D4EB2F165667C5

def rotate (x : UInt64) (n : UInt64) : UInt64 := (x <<< n) ||| (x >>> (64 - n))

def word (bs : List Nat) : UInt64 :=
  bs.foldr (fun b acc => acc * 256 + UInt64.ofNat b) 0

def round (acc input : UInt64) : UInt64 := rotate (acc + input * prime2) 31 * prime1

def mergeRound (acc lane : UInt64) : UInt64 := (acc ^^^ round 0 lane) * prime1 + prime4

structure Lanes where
  a : UInt64 := prime1 + prime2
  b : UInt64 := prime2
  c : UInt64 := 0
  d : UInt64 := 0 - prime1

/-- Mixes one stripe of thirty-two bytes into the lanes. -/
def Lanes.stripe (l : Lanes) (bs : List Nat) : Lanes where
  a := round l.a (word (bs.take 8))
  b := round l.b (word ((bs.drop 8).take 8))
  c := round l.c (word ((bs.drop 16).take 8))
  d := round l.d (word ((bs.drop 24).take 8))

/-- Mixes all full stripes; what is left over comes back. -/
def stripes : Nat → Lanes → List Nat → Lanes × List Nat
  | 0, l, bs => (l, bs)
  | n + 1, l, bs =>
    if (bs.take 32).length = 32 then stripes n (l.stripe (bs.take 32)) (bs.drop 32) else (l, bs)

def Lanes.merge (l : Lanes) : UInt64 :=
  let acc := rotate l.a 1 + rotate l.b 7 + rotate l.c 12 + rotate l.d 18
  [l.a, l.b, l.c, l.d].foldl mergeRound acc

def tail : Nat → UInt64 → List Nat → UInt64
  | 0, acc, _ => acc
  | n + 1, acc, bs =>
    if (bs.take 8).length = 8 then
      tail n (rotate (acc ^^^ round 0 (word (bs.take 8))) 27 * prime1 + prime4) (bs.drop 8)
    else if (bs.take 4).length = 4 then
      tail n (rotate (acc ^^^ (word (bs.take 4) * prime1)) 23 * prime2 + prime3) (bs.drop 4)
    else
      match bs with
      | [] => acc
      | b :: rest => tail n (rotate (acc ^^^ (UInt64.ofNat b * prime5)) 11 * prime1) rest

/-- Spreads every bit over the whole word. -/
def avalanche (x : UInt64) : UInt64 :=
  let x := (x ^^^ (x >>> 33)) * prime2
  let x := (x ^^^ (x >>> 29)) * prime3
  x ^^^ (x >>> 32)

def xxh64 (bs : List Nat) : UInt64 :=
  let size := bs.length
  let (l, rest) := stripes (size / 32) {} bs
  let start := if 32 ≤ size then l.merge else prime5
  avalanche (tail (rest.length + 1) (start + UInt64.ofNat size) rest)

end OperationGraph.Digest
