set_option autoImplicit false

/-! # Blank characters

The twenty-five characters with the `White_Space` property of Unicode: the controls from tab to
carriage return, the next-line control, and the spaces and separators. `Char.isWhitespace` knows
four of them.
-/

namespace Winners

/-- Whether `c` has the `White_Space` property. -/
def isBlank (c : Char) : Bool :=
  let n := c.toNat
  (0x09 ≤ n && n ≤ 0x0d) || n == 0x20 || n == 0x85 || n == 0xa0 || n == 0x1680 ||
    (0x2000 ≤ n && n ≤ 0x200a) || n == 0x2028 || n == 0x2029 || n == 0x202f || n == 0x205f ||
    n == 0x3000

end Winners
