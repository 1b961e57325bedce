/-
The Mersenne twister: 624 words of which each draw renews one, and a last mixing of the word drawn. A seed of any size
is spread over all words. `Twister.byte` draws nine bits at a time until they are a byte, so every byte is as likely
as every other.
-/
namespace Chip8

/-- the words, and the one that the next draw renews -/
structure Twister where
  words : Vector UInt32 624
  next : Fin 624 := 0
  deriving DecidableEq

namespace Twister

/-- the words after a plain seed -/
def plain (seed : UInt32) : Vector UInt32 624 :=
  let follow (mt : Vector UInt32 624) (k : Nat) :=
    let before := mt[k]?.getD 0
    mt.setIfInBounds (k + 1) ((1812433253 : UInt32) * (before ^^^ (before >>> 30)) + UInt32.ofNat (k + 1))
  (List.range 623).foldl follow (.replicate 624 seed)

/-- the words of a number, lowest first; zero has one -/
def keyWords (n : Nat) : List UInt32 :=
  (List.range (n.log2 / 32 + 1)).map fun k => UInt32.ofNat (n >>> (32 * k))

/-- mix one word with the word before it and go to the next; after a full round word 0 takes over the last word -/
def mix (factor : UInt32) (finish : Nat → UInt32 → UInt32) (s : Vector UInt32 624 × Nat) :
    Vector UInt32 624 × Nat :=
  let (mt, i) := s
  let before := mt[i - 1]?.getD 0
  let mt := mt.setIfInBounds i (finish i (mt[i]?.getD 0 ^^^ ((before ^^^ (before >>> 30)) * factor)))
  if i + 1 < 624 then (mt, i + 1) else (mt.setIfInBounds 0 (mt[623]), 1)

/-- the words after mixing in a key -/
def ofKey (key : List UInt32) : Vector UInt32 624 :=
  let round := (List.range (max 624 key.length)).foldl (fun s k =>
    let j := k % key.length
    mix 1664525 (fun _ w => w + key[j]?.getD 0 + UInt32.ofNat j) s) (plain 19650218, 1)
  let round := (List.range 623).foldl (fun s _ => mix 1566083941 (fun i w => w - UInt32.ofNat i) s) round
  round.1.set 0 0x80000000

/-- the generator of a seed; the sign of the seed does not matter -/
def ofSeed (seed : Int) : Twister := { words := ofKey (keyWords seed.natAbs) }

/-- the last mixing of a word drawn -/
def temper (y : UInt32) : UInt32 :=
  let y := y ^^^ (y >>> 11)
  let y := y ^^^ ((y <<< 7) &&& 0x9D2C5680)
  let y := y ^^^ ((y <<< 15) &&& 0xEFC60000)
  y ^^^ (y >>> 18)

def word (t : Twister) : UInt32 × Twister :=
  let y := (t.words[t.next] &&& 0x80000000) ||| (t.words[t.next + 1] &&& 0x7FFFFFFF)
  let fresh := t.words[t.next + 397] ^^^ (y >>> 1) ^^^ (if y &&& 1 = 1 then 0x9908B0DF else 0)
  (temper fresh, { words := t.words.set t.next fresh, next := t.next + 1 })

/-- draw the top nine bits of words until they are below 256, `tries` times at most -/
def byteWithin : (tries : Nat) → Twister → UInt8 × Twister
  | 0, t => (0, t)
  | tries + 1, t =>
    let (w, t) := t.word
    if w >>> 23 < 256 then ((w >>> 23).toUInt8, t) else byteWithin tries t

/-- draw a byte. The top bit of successive words obeys a recurrence of order 19937, so it is not set 19937 times in a
row unless it is set for ever, and the bound on tries is never reached -/
def byte (t : Twister) : UInt8 × Twister := t.byteWithin 19938

end Twister

end Chip8
