import Runbook.Text.Basic

/-!
# White space

White space means the Unicode property White_Space here, for headers, variables, directives and
the deny-list alike.  Trimming removes it from one end of a text or from both.
-/

namespace Runbook

/-- The characters with the Unicode property White_Space. -/
def isBlank (c : Char) : Bool :=
  let n := c.toNat
  (0x09 ≤ n && n ≤ 0x0D) || n == 0x20 || n == 0x85 || n == 0xA0 || n == 0x1680 ||
    (0x2000 ≤ n && n ≤ 0x200A) || n == 0x2028 || n == 0x2029 || n == 0x202F || n == 0x205F ||
    n == 0x3000

namespace Text

/-- The text from its first character on that is not white space. -/
def trimStart (t : Text) : Text := t.dropWhile isBlank

/-- The text up to its last character that is not white space. -/
def trimEnd (t : Text) : Text := dropEndWhile isBlank t

/-- The text without the white space at its two ends. -/
def trim (t : Text) : Text := trimEnd (trimStart t)

end Text

end Runbook
