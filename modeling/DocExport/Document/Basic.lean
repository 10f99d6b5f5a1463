import DocExport.Number.Spelling

/-! Documents: trees of arrays and objects with scalars at the leaves. Members of an object keep
their order. -/
namespace DocExport

inductive Scalar where
  | null
  | bool (value : Bool)
  | number (value : Number)
  | string (value : String)
  deriving DecidableEq, Repr

inductive Document where
  | scalar (value : Scalar)
  | array (items : List Document)
  | object (members : List (String × Document))
  deriving Repr

abbrev Member := String × Document

/-- What a document is at its root. -/
inductive Kind where
  | null
  | boolean
  | number
  | string
  | array
  | object
  deriving DecidableEq, Repr

def Kind.name : Kind → String
  | .null => "null"
  | .boolean => "boolean"
  | .number => "number"
  | .string => "string"
  | .array => "array"
  | .object => "object"

/-- The scalar as bare text: strings without quotes, nothing for null. -/
def Scalar.text : Scalar → String
  | .null => ""
  | .bool value => if value then "true" else "false"
  | .number value => String.ofList value.chars
  | .string value => value

namespace Document

@[match_pattern] def null : Document := .scalar .null

def isObject : Document → Bool
  | .object _ => true
  | _ => false

def kind : Document → Kind
  | .scalar .null => .null
  | .scalar (.bool _) => .boolean
  | .scalar (.number _) => .number
  | .scalar (.string _) => .string
  | .array _ => .array
  | .object _ => .object

/-- The member of an object; a document of another kind has none. -/
def member? (key : String) : Document → Option Document
  | .object members => members.lookup key
  | _ => none

/-- The members with `key` set: in place if it is there, else at the end. -/
def setMember (key : String) (value : Document) : List Member → List Member
  | [] => [(key, value)]
  | (k, d) :: rest => if k = key then (k, value) :: rest else (k, d) :: setMember key value rest

end Document

end DocExport
