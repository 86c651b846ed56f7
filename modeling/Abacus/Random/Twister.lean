import Abacus.Amount.Basic

/-!
# The generator of random numbers

A twisted shift register of 624 words of 32 bits with period `2 ^ 19937 - 1`.  The register is
filled from a seed of any size; two words make one amount between zero and one.

* `Generator`             the register and the place in it;
* `Generator.ofSeed z`    the register filled from the magnitude of an integer;
* `Generator.word`        the next word of 32 bits;
* `Generator.fraction`    the next amount, a multiple of `2 ^ (-53)` below one.
-/

namespace Abacus

attribute [local instance] ownPow

structure Generator where
  register : Array UInt32
  place : Nat

namespace Generator

def size : Nat := 624

/-- the distance of the second word that a step combines -/
def reach : Nat := 397

def wordAt (a : Array UInt32) (i : Nat) : UInt32 := a.getD i 0

/-! ## Filling the register -/

def fill (seed : UInt32) : Array UInt32 :=
  (List.range (size - 1)).foldl
    (fun a i =>
      let last := wordAt a i
      a.push ((1812433253 : UInt32) * (last ^^^ (last >>> 30)) + UInt32.ofNat (i + 1)))
    #[seed]

def wordsOf : Nat → Nat → List UInt32
  | 0, _ => []
  | count + 1, n => UInt32.ofNat n :: wordsOf count (n / 2 ^ (32 : Nat))

/-- the words that stand for a seed; a zero is one word -/
def keyOf (seed : Int) : Array UInt32 :=
  (wordsOf (seed.natAbs.log2 / 32 + 1) seed.natAbs).toArray

/-- the place after `i` in the register, where passing the end carries the last word to the front -/
def advance (a : Array UInt32) (i : Nat) : Array UInt32 × Nat :=
  if i + 1 < size then (a, i + 1) else (a.setIfInBounds 0 (wordAt a (size - 1)), 1)

def mixWord (factor : UInt32) (a : Array UInt32) (i : Nat) : UInt32 :=
  let last := wordAt a (i - 1)
  wordAt a i ^^^ ((last ^^^ (last >>> 30)) * factor)

def mixKey (key : Array UInt32) : Nat → Nat → Array UInt32 → Nat → Array UInt32 × Nat
  | 0, _, a, i => (a, i)
  | steps + 1, j, a, i =>
    let a := a.setIfInBounds i (mixWord 1664525 a i + wordAt key j + UInt32.ofNat j)
    let (a, i) := advance a i
    mixKey key steps (if j + 1 < key.size then j + 1 else 0) a i

def mixPlaces : Nat → Array UInt32 → Nat → Array UInt32
  | 0, a, _ => a
  | steps + 1, a, i =>
    let a := a.setIfInBounds i (mixWord 1566083941 a i - UInt32.ofNat i)
    let (a, i) := advance a i
    mixPlaces steps a i

/-- **The generator of a seed.** -/
def ofSeed (seed : Int) : Generator :=
  let key := keyOf seed
  let (a, i) := mixKey key (Nat.max size key.size) 0 (fill 19650218) 1
  ⟨(mixPlaces (size - 1) a i).setIfInBounds 0 0x80000000, size⟩

/-! ## Drawing -/

def twistWord (a : Array UInt32) (i : Nat) : UInt32 :=
  let y := (wordAt a i &&& 0x80000000) ||| (wordAt a ((i + 1) % size) &&& 0x7fffffff)
  let shifted := wordAt a ((i + reach) % size) ^^^ (y >>> 1)
  if y &&& 1 == 0 then shifted else shifted ^^^ 0x9908b0df

def twist (a : Array UInt32) : Array UInt32 :=
  (List.range size).foldl (fun a i => a.setIfInBounds i (twistWord a i)) a

def temper (y : UInt32) : UInt32 :=
  let y := y ^^^ (y >>> 11)
  let y := y ^^^ ((y <<< 7) &&& 0x9d2c5680)
  let y := y ^^^ ((y <<< 15) &&& 0xefc60000)
  y ^^^ (y >>> 18)

def word (g : Generator) : UInt32 × Generator :=
  let g := if g.place < size then g else ⟨twist g.register, 0⟩
  (temper (wordAt g.register g.place), ⟨g.register, g.place + 1⟩)

def fraction (g : Generator) : Amount × Generator :=
  let (high, g) := g.word
  let (low, g) := g.word
  let bits := (high >>> 5).toNat * 2 ^ (26 : Nat) + (low >>> 6).toNat
  (.ofRatio false (bits * unitsPerOne) (2 ^ (53 : Nat)), g)

end Generator

end Abacus
