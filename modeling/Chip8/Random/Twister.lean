/-!
# Random bytes

The Mersenne Twister: a generator of words of 32 bits with 624 words of state.  It is seeded by an
integer of any size, whose sign does not matter, and draws bytes by taking nine bits of a word
until they are below 256.

* `Twister.seeded`: the generator of a seed.
* `Twister.byte`: the next byte and the generator after it.
-/

namespace Chip8

/-- The state of the generator: its words, and how many of them have been used up. -/
structure Twister where
  words : Vector UInt32 624
  used : Nat
  deriving DecidableEq

namespace Twister

/-! ### Seeding -/

/-- A word mixed with its own two highest bits. -/
def mix (w : UInt32) : UInt32 := w ^^^ (w >>> 30)

/-- The words that a plain number spreads over, one made from the one before. -/
def spread (number : UInt32) : Vector UInt32 624 :=
  (List.range 623).foldl
    (fun (words : Vector UInt32 624) i =>
      words.setIfInBounds (i + 1) (1812433253 * mix words[i % 624] + UInt32.ofNat (i + 1)))
    (Vector.replicate 624 number)

/-- A natural number by words of 32 bits, the lowest first; zero is one word. -/
def seedWords (n : Nat) : List UInt32 :=
  if n < 4294967296 then [UInt32.ofNat n]
  else UInt32.ofNat n :: seedWords (n / 4294967296)

/-- A place in the state between 1 and 623, and the state whose first word is kept equal to the
last one when the place comes round. -/
structure Round where
  words : Vector UInt32 624
  place : Nat

/-- Changes the word at the place by a function of it and its mixed neighbour, and moves on. -/
def Round.turn (r : Round) (change : UInt32 → UInt32 → UInt32) : Round :=
  let new := change r.words[r.place % 624] (mix r.words[(r.place - 1) % 624])
  let words := r.words.setIfInBounds r.place new
  if r.place + 1 < 624 then ⟨words, r.place + 1⟩ else ⟨words.set 0 new, 1⟩

/-- Mixes the words of a key into the state, going round the key as often as it takes. -/
def absorb (key : Array UInt32) (r : Round) : Round :=
  (List.range (max 624 key.size)).foldl
    (fun r k =>
      let j := k % key.size
      r.turn fun word mixed =>
        (word ^^^ (mixed * 1664525)) + key.getD j 0 + UInt32.ofNat j)
    r

/-- Stirs the state once more. -/
def settle (r : Round) : Round :=
  (List.range 623).foldl
    (fun r _ => r.turn fun word mixed => (word ^^^ (mixed * 1566083941)) - UInt32.ofNat r.place) r

/-- The generator of a seed. -/
def seeded (seed : Int) : Twister :=
  let key := (seedWords seed.natAbs).toArray
  let r := settle (absorb key ⟨spread 19650218, 1⟩)
  ⟨r.words.set 0 0x80000000, 624⟩

/-! ### Drawing -/

/-- A new state word: the highest bit of a word and the rest of its successor are joined, shifted
and twisted, and laid over the word 397 places on. -/
def twist (word next far : UInt32) : UInt32 :=
  let joined := (word &&& 0x80000000) ||| (next &&& 0x7fffffff)
  far ^^^ (joined >>> 1) ^^^ (if joined &&& 1 = 0 then 0 else 0x9908b0df)

/-- All words anew, in order; the last ones build on the first new ones. -/
def refresh (words : Vector UInt32 624) : Vector UInt32 624 :=
  (List.range 624).foldl
    (fun (words : Vector UInt32 624) k =>
      words.setIfInBounds k
        (twist words[k % 624] words[(k + 1) % 624] words[(k + 397) % 624]))
    words

/-- Spreads the bits of a state word before it is handed out. -/
def temper (w : UInt32) : UInt32 :=
  let w := w ^^^ (w >>> 11)
  let w := w ^^^ ((w <<< 7) &&& 0x9d2c5680)
  let w := w ^^^ ((w <<< 15) &&& 0xefc60000)
  w ^^^ (w >>> 18)

def word (t : Twister) : UInt32 × Twister :=
  if t.used < 624 then (temper t.words[t.used % 624], { t with used := t.used + 1 })
  else
    let words := refresh t.words
    (temper words[0], ⟨words, 1⟩)

/-- The first value below 256 among the nine high bits of at most `tries` words. -/
def byteWithin : Nat → Twister → UInt8 × Twister
  | 0, t => (0, t)
  | tries + 1, t =>
    let (w, t) := t.word
    let value := (w >>> 23).toNat
    if value < 256 then (UInt8.ofNat value, t) else byteWithin tries t

/-- The next byte and the generator after it.  The highest bit of a word is clear at the latest in
the word after 19937 words that have it set, for it obeys a recurrence of that length. -/
def byte (t : Twister) : UInt8 × Twister := byteWithin 19938 t

end Twister

end Chip8
