/-!
# Blank characters

The characters that are cut off at both ends of a text, and the cutting.

* `blanks`            the ranges of blank characters;
* `isBlank c`         the character is blank;
* `strip s`           the text without the blanks at its ends;
* `firstWord s`       a text cut at its first run of blanks.
-/

namespace Abacus

def blanks : List (Nat × Nat) := [
  (0x09, 0x0d), (0x1c, 0x20), (0x85, 0x85), (0xa0, 0xa0), (0x1680, 0x1680), (0x2000, 0x200a),
  (0x2028, 0x2029), (0x202f, 0x202f), (0x205f, 0x205f), (0x3000, 0x3000)]

def isBlank (c : Char) : Bool := blanks.any fun (lo, hi) => lo ≤ c.toNat && c.toNat ≤ hi

def stripChars (cs : List Char) : List Char :=
  ((cs.dropWhile isBlank).reverse.dropWhile isBlank).reverse

def strip (s : String) : String := String.ofList (stripChars s.toList)

/-- the first word of a text without outer blanks, and the text after the blanks that follow it -/
def firstWord (s : String) : String × String :=
  let word := s.toList.takeWhile (!isBlank ·)
  let rest := (s.toList.dropWhile (!isBlank ·)).dropWhile isBlank
  (String.ofList word, String.ofList rest)

end Abacus
