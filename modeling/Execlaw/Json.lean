import Mathlib.Logic.Basic
/-!
# Json — JSON values

A number is its text; an object lists its members.
-/
inductive Json where
  | null
  | bool (b : Bool)
  | num (text : String)
  | str (s : String)
  | arr (items : List Json)
  | obj (members : List (String × Json))

namespace Json

def get (v : Json) (key : String) : Option Json :=
  match v with
  | .obj members => (members.find? (fun m => m.1 == key)).map Prod.snd
  | _ => none

def asBool : Json → Option Bool
  | .bool b => some b
  | _ => none

def asStr : Json → Option String
  | .str s => some s
  | _ => none

def isObject : Json → Bool
  | .obj _ => true
  | _ => false

end Json
