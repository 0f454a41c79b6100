/-!
# White space and places in a text

`isBlank` is the Unicode property `White_Space`.  It holds of every character that separates words.
A span is a range of characters, counted from the start of the text.
-/

namespace Formula.Text

/-- The ranges of `White_Space`, ends included. -/
def blankRanges : List (Nat × Nat) :=
  [(0x09, 0x0d), (0x20, 0x20), (0x85, 0x85), (0xa0, 0xa0), (0x1680, 0x1680), (0x2000, 0x200a),
    (0x2028, 0x2029), (0x202f, 0x202f), (0x205f, 0x205f), (0x3000, 0x3000)]

/-- Whether a character is white space. -/
def isBlank (c : Char) : Bool :=
  blankRanges.any fun (first, last) => first ≤ c.toNat ∧ c.toNat ≤ last

/-- The characters from `start` on, up to but without `stop`. -/
structure Span where
  start : Nat
  stop : Nat
  deriving DecidableEq, Repr, Inhabited

namespace Span

/-- The span of the one character at `place`. -/
def single (place : Nat) : Span := ⟨place, place + 1⟩

/-- The empty span at the start of a text. -/
def empty : Span := ⟨0, 0⟩

/-- The number of characters; none if the span ends before it starts. -/
def length (s : Span) : Nat := s.stop - s.start

/-- Whether the span holds no character. -/
def isEmpty (s : Span) : Bool := s.length = 0

end Span

end Formula.Text
