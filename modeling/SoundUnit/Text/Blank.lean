namespace SoundUnit

namespace Blank

/-- The first and the last code point of each range of white space. -/
def ranges : List (Nat × Nat) :=
  [(0x09, 0x0D), (0x20, 0x20), (0x85, 0x85), (0xA0, 0xA0), (0x1680, 0x1680), (0x2000, 0x200A), (0x2028, 0x2029),
    (0x202F, 0x202F), (0x205F, 0x205F), (0x3000, 0x3000)]

def isBlank (c : Char) : Bool := ranges.any fun (first, last) ↦ first ≤ c.toNat ∧ c.toNat ≤ last

def trim (text : List Char) : List Char :=
  (text.dropWhile isBlank).reverse.dropWhile isBlank |>.reverse

end Blank

end SoundUnit
