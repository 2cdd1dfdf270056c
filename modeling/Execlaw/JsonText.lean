import Mathlib.Logic.Basic
/-!
# JsonText — JSON columns

Writing a value as text and reading it back are the JSON library's.  What was written need not be readable (it may be
nested too deep), nor read as the value it was written from (a number may be rounded); `JsonText` is for values that are
neither.
-/
namespace Execlaw

/-- What `to_string` writes of a value, and what `from_str` makes of a text. -/
structure JsonColumn (V : Type) where
  toString : V → Except String String
  fromStr : String → Option V
  null : V

/-- JSON texts of values: what `to_string` writes, `from_str` reads. -/
structure JsonText (V : Type) extends JsonColumn V where
  reads : ∀ v s, toString v = .ok s → fromStr s = some v

end Execlaw
