
/-!
# UnicodeText — what the standard library says of characters

The classes of characters and the lower case of a string are given by Unicode's tables, which no theorem here looks
into.
-/
namespace Execlaw

structure Unicode where
  isAlphanumeric : Char → Bool
  isNumeric : Char → Bool
  isWhitespace : Char → Bool
  toLowercase : List Char → List Char

namespace Unicode

variable (u : Unicode)

def trim (l : List Char) : List Char := ((l.dropWhile u.isWhitespace).reverse.dropWhile u.isWhitespace).reverse

def isBlank (s : String) : Bool := (u.trim s.toList).isEmpty

end Unicode

def asciiUnicode : Unicode where
  isAlphanumeric := Char.isAlphanum
  isNumeric := Char.isDigit
  isWhitespace := Char.isWhitespace
  toLowercase := List.map Char.toLower

end Execlaw
