/-!
# White space

Texts are trimmed and tested for blankness in many places (payloads, names, header values). All of
them mean the same set of characters, the `White_Space` property of Unicode, which is wider than
the ASCII blanks.

## Main definitions

* `isBlank` — membership in the property
* `trim` — a text without the blanks at its two ends
* `isBlankText` — a text of blanks only
-/

namespace ChatRelay.Text

/-- The characters with the Unicode property `White_Space`. -/
def isBlank (c : Char) : Bool :=
  let n := c.toNat
  (9 ≤ n && n ≤ 13) || n == 0x20 || n == 0x85 || n == 0xA0 || n == 0x1680 ||
    (0x2000 ≤ n && n ≤ 0x200A) || n == 0x2028 || n == 0x2029 || n == 0x202F || n == 0x205F ||
    n == 0x3000

/-- The characters between the leading and the trailing blanks. -/
def trimChars (cs : List Char) : List Char :=
  ((cs.dropWhile isBlank).reverse.dropWhile isBlank).reverse

/-- The text between the leading and the trailing blanks. -/
def trim (s : String) : String :=
  String.ofList (trimChars s.toList)

/-- A text is blank if it holds nothing but white space; the empty text is blank. -/
def isBlankText (s : String) : Bool :=
  s.toList.all isBlank

/-- The leading run of `cs` on which `p` fails, and the rest after the first hit. -/
def splitAtFirst (p : Char → Bool) : List Char → List Char × Option (List Char)
  | [] => ([], none)
  | c :: cs =>
    if p c then ([], some cs)
    else
      let (before, after) := splitAtFirst p cs
      (c :: before, after)

@[simp] theorem trimChars_nil : trimChars [] = [] := rfl

end ChatRelay.Text
