/-!
# ASCII letters

Two texts agree *without regard to ASCII case* when they become equal after the letters
`A` to `Z` are turned into `a` to `z`.  No other character is changed.
-/

namespace ClasspathIndex.Text

/-- Turns the letters `A` to `Z` into `a` to `z`. -/
def lowerAscii (cs : List Char) : List Char :=
  cs.map Char.toLower

/-- Equality without regard to ASCII case. -/
def eqIgnoreCase (a b : List Char) : Bool :=
  lowerAscii a == lowerAscii b

end ClasspathIndex.Text
