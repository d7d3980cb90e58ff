import ArrayScript.Json
import ArrayScript.Json.Names
import ArrayScript.Signature

/-!
JSON trees of programs and signature tables.

Every component is written, `null` standing for what is missing, and alternatives
without content are written as their name alone.
-/

namespace ArrayScript

namespace Json

/-- An alternative with its content. -/
def choose (name : String) (content : Json) : Json :=
  ofFields [(name, content)]

/-- A value, or `null` if there is none. -/
def orNull {α : Type} (write : α → Json) : Option α → Json
  | none => null
  | some a => write a

end Json

/-- The tree of a type. -/
def ValueType.toJson (t : ValueType) : Json :=
  .ofString t.name

mutual

/-- The tree of a pattern. -/
def Pattern.toJson : Pattern → Json
  | .identifier name => .choose "Identifier" (.ofString name)
  | .array elements => .choose "Array" (.array (Pattern.toJsonList elements))
  | .object keys => .choose "Object" (.array (keys.map .ofString))

/-- The trees of patterns. -/
def Pattern.toJsonList : List Pattern → List Json
  | [] => []
  | p :: rest => p.toJson :: Pattern.toJsonList rest

end

/-- The tree of a parameter. -/
def Param.toJson (p : Param) : Json :=
  .ofFields [("pattern", p.pattern.toJson), ("annotation", .orNull ValueType.toJson p.declared)]

namespace Expr

/-- The tree of an expression with the given id, from the name and content of its kind. -/
def node (id : ExprId) (kind : String) (content : Json) : Json :=
  .ofFields [("id", .number (.integer id)), ("kind", .choose kind content)]

mutual

/-- The tree of an expression. -/
def toJson : Expr → Json
  | number id x => node id "Number" (.number (.double x))
  | boolean id b => node id "Boolean" (.bool b)
  | identifier id name => node id "Identifier" (.ofString name)
  | array id elements => node id "Array" (.array (toJsonList elements))
  | unary id op a =>
    node id "Unary" (.ofFields [("op", .ofString op.name), ("argument", toJson a)])
  | binary id op a b =>
    node id "Binary"
      (.ofFields [("op", .ofString op.name), ("left", toJson a), ("right", toJson b)])
  | logical id op a b =>
    node id "Logical"
      (.ofFields [("op", .ofString op.name), ("left", toJson a), ("right", toJson b)])
  | update id op leading a =>
    node id "Update"
      (.ofFields [("op", .ofString op.name), ("prefix", .bool leading), ("argument", toJson a)])
  | assign id op a b =>
    node id "Assign"
      (.ofFields [("op", .ofString op.name), ("target", toJson a), ("value", toJson b)])
  | call id f arguments =>
    node id "Call" (.ofFields [("callee", toJson f), ("arguments", .array (toJsonList arguments))])
  | index id a b =>
    node id "Member"
      (.ofFields [("object", toJson a), ("property", .choose "Computed" (toJson b))])
  | property id a name =>
    node id "Member"
      (.ofFields [("object", toJson a), ("property", .choose "Named" (.ofString name))])

/-- The trees of expressions. -/
def toJsonList : List Expr → List Json
  | [] => []
  | e :: rest => toJson e :: toJsonList rest

end

end Expr

/-- The tree of a declarator. -/
def Declarator.toJson (d : Declarator) : Json :=
  .ofFields [("target", d.target.toJson), ("init", .orNull Expr.toJson d.init)]

namespace Statement

mutual

/-- The tree of a statement. -/
def toJson : Statement → Json
  | function name params returnType body =>
    .choose "Function" (.ofFields [("name", .orNull .ofString name),
      ("params", .array (params.map Param.toJson)),
      ("return_type", .orNull ValueType.toJson returnType),
      ("body", .array (toJsonList body))])
  | declare kind declarators =>
    .choose "Variable" (.ofFields [("kind", .ofString kind.name),
      ("declarations", .array (declarators.map Declarator.toJson))])
  | expression e => .choose "Expression" e.toJson
  | ret argument => .choose "Return" (.orNull Expr.toJson argument)
  | conditional test consequent alternate =>
    .choose "If" (.ofFields [("test", test.toJson), ("consequent", toJson consequent),
      ("alternate", toJsonOption alternate)])
  | whileLoop test body =>
    .choose "While" (.ofFields [("test", test.toJson), ("body", toJson body)])
  | forLoop init test update body =>
    .choose "For" (.ofFields [("init", toJsonOption init), ("test", .orNull Expr.toJson test),
      ("update", .orNull Expr.toJson update), ("body", toJson body)])
  | block body => .choose "Block" (.array (toJsonList body))
  | empty => .ofString "Empty"

/-- The tree of an optional statement. -/
def toJsonOption : Option Statement → Json
  | none => .null
  | some s => toJson s

/-- The trees of statements. -/
def toJsonList : List Statement → List Json
  | [] => []
  | s :: rest => toJson s :: toJsonList rest

end

end Statement

/-- The tree of a program. -/
def Program.toJson (p : Program) : Json :=
  .ofFields [("body", .array (Statement.toJsonList p.body))]

/-- The tree of a signature. -/
def Signature.toJson (s : Signature) : Json :=
  .ofFields [("parameters", .array (s.parameters.map ValueType.toJson)),
    ("return_type", s.returnType.toJson)]

/-- The tree of a table of signatures. -/
def SignatureTable.toJson (t : SignatureTable) : Json :=
  .ofFields (t.entries.map fun (name, s) => (name, s.toJson))

end ArrayScript
