import Formula.Text

/-!
# Tokens

A text is read as brackets and words.  A bracket stands alone, a word is a longest run of characters
that are neither white space nor brackets, and white space only separates.  A token is one of these
with its place in the text.  The reader goes through the characters once; its state is `Scan`.
-/

namespace Formula

open Text (Span isBlank)

/-- What a token says, without its place. -/
inductive Lexeme where
  | opening
  | closing
  | word (text : String)
  deriving DecidableEq, Repr

namespace Lexeme

/-- The text of the token. -/
def text : Lexeme → String
  | opening => "("
  | closing => ")"
  | word w => w

end Lexeme

/-- A bracket or word and where it stands. -/
structure Token where
  lexeme : Lexeme
  span : Span
  deriving DecidableEq, Repr

/-- How far a text has been read: `word` and `tokens` hold the last first. -/
structure Scan where
  place : Nat := 0
  word : List Char := []
  tokens : List Token := []

namespace Scan

/-- Ends the word being read, if there is one. -/
def endWord (s : Scan) : Scan :=
  if s.word = [] then s
  else
    let span : Span := ⟨s.place - s.word.length, s.place⟩
    ⟨s.place, [], ⟨.word (.ofList s.word.reverse), span⟩ :: s.tokens⟩

/-- Adds a bracket at the present place. -/
def bracket (s : Scan) (lexeme : Lexeme) : Scan :=
  ⟨s.place + 1, [], ⟨lexeme, .single s.place⟩ :: s.tokens⟩

/-- Reads one character. -/
def step (s : Scan) (c : Char) : Scan :=
  if c = '(' then s.endWord.bracket .opening
  else if c = ')' then s.endWord.bracket .closing
  else if isBlank c then { s.endWord with place := s.place + 1 }
  else { s with place := s.place + 1, word := c :: s.word }

end Scan

namespace Token

/-- The tokens of a text, in order. -/
def scan (text : String) : List Token :=
  (text.toList.foldl Scan.step {}).endWord.tokens.reverse

end Token

end Formula
