/-
JSON values. Objects keep their fields in order, since that is the order
they are printed in.
-/
import GoSurvey.Text.Basic

namespace GoSurvey

/-- A JSON value. -/
inductive Json where
  | null
  | bool (b : Bool)
  | int (i : Int)
  | real (x : Float)
  | text (t : Text)
  | array (items : List Json)
  | object (fields : List (Text × Json))

namespace Json

/-- A value or, where there is none, null. -/
def option {α : Type} (f : α → Json) : Option α → Json
  | none => null
  | some a => f a

/-- A natural number. -/
def nat (n : Nat) : Json := int n

/-- An array of values, each of them encoded. -/
def list {α : Type} (f : α → Json) (xs : List α) : Json := array (xs.map f)

/-- An array of texts. -/
def texts (ts : List Text) : Json := list text ts

end Json
end GoSurvey
