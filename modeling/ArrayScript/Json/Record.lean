import ArrayScript.Json

/-!
How structured data is laid out in JSON.

A record is an object with one field per component, in any order and with
unknown fields passed over, or an array of its components in order. A choice
between alternatives is an object whose only key names the alternative, or just
the name if the alternative has no content.
-/

namespace ArrayScript.Json

/-- When a component of a record may be missing. -/
inductive Presence where
  /-- never -/
  | required
  /-- from an object -/
  | optional
  /-- from an object, and from the end of an array -/
  | defaulted
  deriving DecidableEq, Repr

/-- A component of a record. -/
structure Component where
  name : String
  presence : Presence
  deriving Repr

/-- A component that must be there. -/
def required (name : String) : Component := ⟨name, .required⟩

/-- A component that an object may lack. -/
def optional (name : String) : Component := ⟨name, .optional⟩

/-- A component that an object or the end of an array may lack. -/
def defaulted (name : String) : Component := ⟨name, .defaulted⟩

/-- The value of a component in the fields of an object: absent only if the component
may be, and never there twice. -/
def component? (fields : List (Option String × Json)) (c : Component) : Option (Option Json) :=
  match fields.filter (·.1 = some c.name) with
  | [] => if c.presence = .required then none else some none
  | [(_, value)] => some (some value)
  | _ => none

/-- Pairs the elements of an array with components. No element may be left over, and
only defaulted components may go without. -/
def positional? : (components : List Component) → List Json → Option (List (Option Json))
  | [], [] => some []
  | [], _ :: _ => none
  | _ :: components, j :: rest => (positional? components rest).map (some j :: ·)
  | c :: components, [] =>
    if c.presence = .defaulted then (positional? components []).map (none :: ·) else none

/-- The components of a record in order. Every key of an object must be readable,
also those of unknown fields. -/
def record? (components : List Component) : Json → Option (List (Option Json))
  | object fields =>
    if fields.all (·.1.isSome) then components.mapM (component? fields) else none
  | array elements => positional? components elements
  | _ => none

/-- The name of an alternative, and its content if it is given as an object. -/
def alternative? : Json → Option (String × Option Json)
  | string (some name) => some (name, none)
  | object [(some name, content)] => some (name, some content)
  | _ => none

/-- Whether what is given is no content at all. -/
def isBare : Option Json → Bool
  | none | some null => true
  | some _ => false

/-- A component that is missing or null is `none`. -/
def nullable? {α : Type} (read : Json → Option α) : Option Json → Option (Option α)
  | none | some null => some none
  | some j => (read j).map some

end ArrayScript.Json
