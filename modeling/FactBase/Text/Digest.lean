import FactBase.Text.Quoted

/-
  This file computes the SHA-256 digest of a byte string.

  Key definitions include:
    * `Digest.padded`
    * `Digest.schedule`
    * `Digest.compress`
    * `Digest.sha256`
    * `Digest.hex`
-/

------------------------------------------------------------
-- Constants
------------------------------------------------------------

namespace FactBase

namespace Digest

/- The initial hash words. -/
def initialWords : List UInt32 :=
  [0x6a09e667, 0xbb67ae85, 0x3c6ef372, 0xa54ff53a,
   0x510e527f, 0x9b05688c, 0x1f83d9ab, 0x5be0cd19]

/- The constants of the 64 rounds. -/
def roundConstants : List UInt32 :=
  [0x428a2f98, 0x71374491, 0xb5c0fbcf, 0xe9b5dba5,
   0x3956c25b, 0x59f111f1, 0x923f82a4, 0xab1c5ed5,
   0xd807aa98, 0x12835b01, 0x243185be, 0x550c7dc3,
   0x72be5d74, 0x80deb1fe, 0x9bdc06a7, 0xc19bf174,
   0xe49b69c1, 0xefbe4786, 0x0fc19dc6, 0x240ca1cc,
   0x2de92c6f, 0x4a7484aa, 0x5cb0a9dc, 0x76f988da,
   0x983e5152, 0xa831c66d, 0xb00327c8, 0xbf597fc7,
   0xc6e00bf3, 0xd5a79147, 0x06ca6351, 0x14292967,
   0x27b70a85, 0x2e1b2138, 0x4d2c6dfc, 0x53380d13,
   0x650a7354, 0x766a0abb, 0x81c2c92e, 0x92722c85,
   0xa2bfe8a1, 0xa81a664b, 0xc24b8b70, 0xc76c51a3,
   0xd192e819, 0xd6990624, 0xf40e3585, 0x106aa070,
   0x19a4c116, 0x1e376c08, 0x2748774c, 0x34b0bcb5,
   0x391c0cb3, 0x4ed8aa4a, 0x5b9cca4f, 0x682e6ff3,
   0x748f82ee, 0x78a5636f, 0x84c87814, 0x8cc70208,
   0x90befffa, 0xa4506ceb, 0xbef9a3f7, 0xc67178f2]

------------------------------------------------------------
-- Message Blocks
------------------------------------------------------------

/- The number of bytes written in big-endian order. -/
def bigEndian
    (width n : Nat) : List UInt8 :=
  (List.range width).reverse.map
    (fun i => UInt8.ofNat (n / Nat.pow 256 i))

/-
  The message followed by a one bit, zeros and its length in
  bits, so that the whole is a multiple of 64 bytes.
-/
def padded (message : List UInt8) : List UInt8 :=
  let n := message.length
  let zeros := (119 - n % 64) % 64
  message ++ 0x80 :: List.replicate zeros 0
    ++ bigEndian 8 (8 * n)

/- Four bytes as one word. -/
def word : List UInt8 → List UInt32
  | a :: b :: c :: d :: rest =>
      (a.toUInt32 <<< 24 ||| b.toUInt32 <<< 16
        ||| c.toUInt32 <<< 8 ||| d.toUInt32) :: word rest
  | _ => []

/- Cut a list of words into blocks of sixteen. -/
def blocks : Nat → List UInt32 → List (List UInt32)
  | 0, _ => []
  | n + 1, ws => ws.take 16 :: blocks n (ws.drop 16)

------------------------------------------------------------
-- Compression
------------------------------------------------------------

/- Rotate a word to the right. -/
def rotate
    (x n : UInt32) : UInt32 :=
  x >>> n ||| x <<< (32 - n)

/-
  Extend the schedule by `n` words.  The last sixteen words
  are kept with the newest first.
-/
def extend :
    Nat → List UInt32 → List UInt32 → List UInt32
  | 0, _, out => out
  | n + 1, recent, out =>
      let w2 := recent.getD 1 0
      let w7 := recent.getD 6 0
      let w15 := recent.getD 14 0
      let w16 := recent.getD 15 0
      let s0 :=
        rotate w15 7 ^^^ rotate w15 18 ^^^ (w15 >>> 3)
      let s1 :=
        rotate w2 17 ^^^ rotate w2 19 ^^^ (w2 >>> 10)
      let w := w16 + s0 + w7 + s1
      extend n (w :: recent.take 15) (w :: out)

/- The 64 words that a block contributes to the rounds. -/
def schedule (block : List UInt32) : List UInt32 :=
  block ++ (extend 48 block.reverse []).reverse

/- The eight working words of the compression. -/
structure Working where
  a : UInt32
  b : UInt32
  c : UInt32
  d : UInt32
  e : UInt32
  f : UInt32
  g : UInt32
  h : UInt32

/- One round, with its constant and its scheduled word. -/
def round
    (s : Working)
    (kw : UInt32 × UInt32) : Working :=
  let s1 := rotate s.e 6 ^^^ rotate s.e 11 ^^^ rotate s.e 25
  let choice := (s.e &&& s.f) ^^^ ((~~~s.e) &&& s.g)
  let t1 := s.h + s1 + choice + kw.1 + kw.2
  let s0 := rotate s.a 2 ^^^ rotate s.a 13 ^^^ rotate s.a 22
  let majority :=
    (s.a &&& s.b) ^^^ (s.a &&& s.c) ^^^ (s.b &&& s.c)
  { a := t1 + s0 + majority
    b := s.a
    c := s.b
    d := s.c
    e := s.d + t1
    f := s.e
    g := s.f
    h := s.g }

/- Mix one block into the hash words. -/
def compress
    (words block : List UInt32) : List UInt32 :=
  let start : Working :=
    { a := words.getD 0 0, b := words.getD 1 0
      c := words.getD 2 0, d := words.getD 3 0
      e := words.getD 4 0, f := words.getD 5 0
      g := words.getD 6 0, h := words.getD 7 0 }
  let s :=
    (List.zip roundConstants (schedule block)).foldl round start
  List.zipWith (· + ·) words
    [s.a, s.b, s.c, s.d, s.e, s.f, s.g, s.h]

/- The digest of a byte string, as eight words. -/
def sha256 (message : List UInt8) : List UInt32 :=
  let ws := word (padded message)
  (blocks (ws.length / 16) ws).foldl compress initialWords

/- The digest of a text, in hexadecimal digits. -/
def hex (s : String) : String :=
  String.ofList
    ((sha256 s.toUTF8.toList).flatMap
      (fun w => Text.hexDigits 8 w.toNat))

end Digest

end FactBase
