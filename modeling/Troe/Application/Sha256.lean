import Troe.Lib.Bytes

/-!
# The compression function of SHA-256 (`troe-application::sha256`)
-/

namespace Troe.Application

open Lib

/-- The eight words of the chaining value. -/
structure HashState where
  a : BitVec 32
  b : BitVec 32
  c : BitVec 32
  d : BitVec 32
  e : BitVec 32
  f : BitVec 32
  g : BitVec 32
  h : BitVec 32

namespace HashState

/-- The words in order. -/
def words (state : HashState) : List (BitVec 32) :=
  [state.a, state.b, state.c, state.d, state.e, state.f, state.g, state.h]

/-- The chaining value before the first block. -/
def initial : HashState :=
  ⟨0x6a09e667, 0xbb67ae85, 0x3c6ef372, 0xa54ff53a, 0x510e527f, 0x9b05688c, 0x1f83d9ab, 0x5be0cd19⟩

end HashState

/-- The round constants `K`. -/
def roundConstants : List (BitVec 32) := [
  0x428a2f98, 0x71374491, 0xb5c0fbcf, 0xe9b5dba5, 0x3956c25b, 0x59f111f1, 0x923f82a4,
  0xab1c5ed5, 0xd807aa98, 0x12835b01, 0x243185be, 0x550c7dc3, 0x72be5d74, 0x80deb1fe,
  0x9bdc06a7, 0xc19bf174, 0xe49b69c1, 0xefbe4786, 0x0fc19dc6, 0x240ca1cc, 0x2de92c6f,
  0x4a7484aa, 0x5cb0a9dc, 0x76f988da, 0x983e5152, 0xa831c66d, 0xb00327c8, 0xbf597fc7,
  0xc6e00bf3, 0xd5a79147, 0x06ca6351, 0x14292967, 0x27b70a85, 0x2e1b2138, 0x4d2c6dfc,
  0x53380d13, 0x650a7354, 0x766a0abb, 0x81c2c92e, 0x92722c85, 0xa2bfe8a1, 0xa81a664b,
  0xc24b8b70, 0xc76c51a3, 0xd192e819, 0xd6990624, 0xf40e3585, 0x106aa070, 0x19a4c116,
  0x1e376c08, 0x2748774c, 0x34b0bcb5, 0x391c0cb3, 0x4ed8aa4a, 0x5b9cca4f, 0x682e6ff3,
  0x748f82ee, 0x78a5636f, 0x84c87814, 0x8cc70208, 0x90befffa, 0xa4506ceb, 0xbef9a3f7,
  0xc67178f2]

/-- Extend the message schedule by `count` words. The words are in reverse, so that the word before
last is the second of the list. -/
def extendSchedule : ℕ → List (BitVec 32) → List (BitVec 32)
  | 0, words => words
  | count + 1, words =>
    let word15 := words.getD 14 0
    let word2 := words.getD 1 0
    let s0 := word15.rotateRight 7 ^^^ word15.rotateRight 18 ^^^ (word15 >>> 3)
    let s1 := word2.rotateRight 17 ^^^ word2.rotateRight 19 ^^^ (word2 >>> 10)
    extendSchedule count ((words.getD 15 0 + s0 + words.getD 6 0 + s1) :: words)

/-- The sixty-four words of the schedule of a block. -/
def schedule (block : Bytes) : List (BitVec 32) :=
  let words := (chunksExact 4 block).map fun chunk => BitVec.ofNat 32 (leValue chunk.reverse)
  (extendSchedule 48 words.reverse).reverse

/-- One round, with its constant and its schedule word. -/
def round (state : HashState) (input : BitVec 32 × BitVec 32) : HashState :=
  let s1 := state.e.rotateRight 6 ^^^ state.e.rotateRight 11 ^^^ state.e.rotateRight 25
  let choice := (state.e &&& state.f) ^^^ (~~~state.e &&& state.g)
  let first := state.h + s1 + choice + input.1 + input.2
  let s0 := state.a.rotateRight 2 ^^^ state.a.rotateRight 13 ^^^ state.a.rotateRight 22
  let majority := (state.a &&& state.b) ^^^ (state.a &&& state.c) ^^^ (state.b &&& state.c)
  let second := s0 + majority
  ⟨first + second, state.a, state.b, state.c, state.d + first, state.e, state.f, state.g⟩

/-- `Sha256::compress`. -/
def compress (state : HashState) (block : Bytes) : HashState :=
  let mixed := (roundConstants.zip (schedule block)).foldl round state
  ⟨state.a + mixed.a, state.b + mixed.b, state.c + mixed.c, state.d + mixed.d, state.e + mixed.e,
    state.f + mixed.f, state.g + mixed.g, state.h + mixed.h⟩

end Troe.Application
