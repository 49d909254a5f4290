import ProtoSchema.Text.Name

/-!
# Lines of text

A text is cut at its line feeds; a line feed at the very end closes the last line and opens no new
one. White space at the end of a line does not count.
-/

set_option autoImplicit false

namespace ProtoSchema.Text

def isBlank (c : Char) : Bool :=
  let n := c.toNat
  (9 ≤ n && n ≤ 13) || n == 0x20 || n == 0x85 || n == 0xA0 || n == 0x1680
    || (0x2000 ≤ n && n ≤ 0x200A) || n == 0x2028 || n == 0x2029 || n == 0x202F || n == 0x205F
    || n == 0x3000

theorem isBlank_of_isWhitespace (c : Char) (h : c.isWhitespace = true) : isBlank c = true := by
  have : c.toNat = 9 ∨ c.toNat = 10 ∨ c.toNat = 13 ∨ c.toNat = 32 := by
    simp only [Char.isWhitespace, Bool.or_eq_true, decide_eq_true_eq] at h
    rcases h with ((h | h) | h) | h <;> subst h <;> decide
  rcases this with h | h | h | h <;> simp [isBlank, h]

def lines (text : List Char) : List (List Char) :=
  let parts := splitAt '\n' text
  if parts.getLast? = some [] then parts.dropLast else parts

/-- A line without the white space at its end. -/
def trimEnd (line : List Char) : List Char := (line.reverse.dropWhile isBlank).reverse

/-- A text without the byte order mark that it may start with. -/
def withoutOrderMark : List Char → List Char
  | '\ufeff' :: rest => rest
  | text => text

end ProtoSchema.Text
