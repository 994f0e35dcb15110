/-
  `Json` — the values of a JSON document.

  Objects keep their members in the order of the document. A name written twice
  keeps its first place and its last value (`putMember`), so a lookup by name finds
  what a reader of the document means. Integers are exact; every other number is a
  double, and the three values that are no finite number are allowed.
-/

namespace BoundaryTypes

/-- A JSON value. -/
inductive Json where
  | null
  | bool (b : Bool)
  | int (n : Int)
  | real (x : Float)
  | string (s : String)
  | array (elements : List Json)
  | object (members : List (String × Json))
deriving Inhabited

namespace Json

/-- A member set in place: a new name goes to the end, a present name keeps its place and takes the
new value. -/
def putMember {α : Type} (members : List (String × α)) (name : String) (value : α) :
    List (String × α) :=
  match members with
  | [] => [(name, value)]
  | m :: rest => if m.1 = name then (name, value) :: rest else m :: putMember rest name value

/-- Members gathered in order, a repeated name as in `putMember`. -/
def gatherMembers {α : Type} (members : List (String × α)) : List (String × α) :=
  members.foldl (fun acc m => putMember acc m.1 m.2) []

/-- The value of a member, by its name. -/
def member? (members : List (String × Json)) (name : String) : Option Json :=
  (members.find? fun m => m.1 = name).map (·.2)

end Json

end BoundaryTypes
