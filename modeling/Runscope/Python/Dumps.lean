import Mathlib.Data.List.Infix
import Mathlib.Tactic.SplitIfs

/-!
`json.dumps` of a list of strings, with its default settings.

Whatever is not printable ASCII is escaped, so the text is ASCII. A quotation
mark in it opens or closes an item or belongs to one, where a backslash
precedes it.
-/

namespace Python

/-- `[ -~]` -/
def isPrintable (c : Char) : Bool := 0x20 ≤ c.toNat ∧ c.toNat ≤ 0x7e

/-- A character that `json.dumps` leaves as it is. -/
def isVerbatim (c : Char) : Bool := isPrintable c ∧ c ≠ '"' ∧ c ≠ '\\'

def hexDigit (n : ℕ) : Char := Char.ofNat (if n < 10 then 48 + n else 87 + n)

/-- `'\\u{0:04x}'.format(n)` -/
def unicodeEscape (n : ℕ) : List Char :=
  ['\\', 'u', hexDigit (n / 4096 % 16), hexDigit (n / 256 % 16), hexDigit (n / 16 % 16),
    hexDigit (n % 16)]

/-- The characters with an escape of their own, and the letter behind the
backslash. -/
def escapeDct : List (Char × Char) :=
  [('\\', '\\'), ('"', '"'), ('\x08', 'b'), ('\x0c', 'f'), ('\n', 'n'), ('\r', 'r'), ('\t', 't')]

/-- `py_encode_basestring_ascii`, of one character -/
def jsonChar (c : Char) : List Char :=
  if isVerbatim c then [c]
  else
    match escapeDct.find? fun x => x.1 = c with
    | some (_, letter) => ['\\', letter]
    | none =>
      if c.toNat < 0x10000 then unicodeEscape c.toNat
      else
        -- a surrogate pair
        let n := c.toNat - 0x10000
        unicodeEscape (0xd800 + n / 0x400) ++ unicodeEscape (0xdc00 + n % 0x400)

def jsonString (s : String) : List Char := '"' :: s.toList.flatMap jsonChar ++ ['"']

/-- `json.dumps(items)` -/
def dumps (items : List String) : List Char :=
  '[' :: List.intercalate [',', ' '] (items.map jsonString) ++ [']']

/-! ### Single characters -/

section Chars

variable {c d : Char}

end Chars

/-! ### Texts -/

section Texts

variable {items : List String} {q s : List Char}

end Texts

/-! ### Quotation marks -/

section Quotes

variable {items : List String} {q : List Char}

end Quotes

end Python
