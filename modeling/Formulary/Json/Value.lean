import Formulary.IdSet
import Formulary.Json.Token

/-!
# JSON values

A JSON text spells a tree. It is built from the tokens in one pass over them: the arrays and objects
that have been opened and not yet closed wait on a stack, so depth is not limited. Strings and
numbers stay as written until they are asked for.
-/

namespace Formulary

/-- A JSON value. -/
inductive Json where
  | null
  | bool (value : Bool)
  | number (text : List Char)
  | string (written : List Char)
  | array (items : List Json)
  | object (members : List (List Char × Json))
  deriving Inhabited

namespace Json

/-! ## Reading -/

/-- An array or an object of which some values have been read, the last first. -/
inductive Frame where
  | array (done : List Json)
  | object (done : List (List Char × Json)) (key : List Char)

mutual

/-- Reads on where a value has to begin. -/
def readValue? : List Frame → List Token → Option Json
  | frames, .null :: rest => resume? .null frames rest
  | frames, .bool value :: rest => resume? (.bool value) frames rest
  | frames, .number text :: rest => resume? (.number text) frames rest
  | frames, .string written :: rest => resume? (.string written) frames rest
  | frames, .openArray :: .closeArray :: rest => resume? (.array []) frames rest
  | frames, .openArray :: rest => readValue? (.array [] :: frames) rest
  | frames, .openObject :: .closeObject :: rest => resume? (.object []) frames rest
  | frames, .openObject :: .string key :: .colon :: rest =>
    readValue? (.object [] key :: frames) rest
  | _, _ => none

/-- Reads on where a value has ended, putting it into the innermost array or object. -/
def resume? (value : Json) : List Frame → List Token → Option Json
  | [], [] => some value
  | .array done :: frames, .comma :: rest => readValue? (.array (value :: done) :: frames) rest
  | .array done :: frames, .closeArray :: rest =>
    resume? (.array (value :: done).reverse) frames rest
  | .object done key :: frames, .comma :: .string next :: .colon :: rest =>
    readValue? (.object ((key, value) :: done) next :: frames) rest
  | .object done key :: frames, .closeObject :: rest =>
    resume? (.object ((key, value) :: done).reverse) frames rest
  | _, _ => none

end

/-- The value that a text spells, with nothing but blanks around it. -/
def ofText? (text : List Char) : Option Json :=
  (tokens? text).bind (readValue? [])

/-! ## Writing -/

/-- Texts with a comma between them. -/
def separated : List (List Char) → List Char
  | [] => []
  | [text] => text
  | text :: rest => text ++ ',' :: separated rest

/-- A written text between quotes. -/
def quoted (written : List Char) : List Char :=
  '"' :: written ++ ['"']

mutual

/-- The compact text of a value, without blanks. -/
def text : Json → List Char
  | .null => ['n', 'u', 'l', 'l']
  | .bool true => ['t', 'r', 'u', 'e']
  | .bool false => ['f', 'a', 'l', 's', 'e']
  | .number text => text
  | .string written => quoted written
  | .array items => '[' :: separated (itemTexts items) ++ [']']
  | .object members => '{' :: separated (memberTexts members) ++ ['}']

/-- The texts of the values of an array. -/
def itemTexts : List Json → List (List Char)
  | [] => []
  | item :: rest => item.text :: itemTexts rest

/-- The texts of the members of an object. -/
def memberTexts : List (List Char × Json) → List (List Char)
  | [] => []
  | (key, value) :: rest => (quoted key ++ ':' :: value.text) :: memberTexts rest

end

/-! ## Plain values -/

/-- A text as a JSON string. -/
def ofChars (text : List Char) : Json :=
  .string (escape text)

/-- A whole number as a JSON number. -/
def ofInt (value : Int) : Json :=
  .number (intText value)

/-- A double as a JSON number; what is no finite number becomes `null`. -/
def ofFloat (value : Float) : Json :=
  match floatText? value with
  | some text => .number text
  | none => .null

/-- The object with these members. -/
def ofMembers (members : List (String × Json)) : Json :=
  .object (members.map fun (key, value) => (escape key.toList, value))

/-- The text of a JSON string. -/
def toChars? : Json → Option (List Char)
  | .string written => unescape? written
  | _ => none

/-- The truth value of a JSON value. -/
def toBool? : Json → Option Bool
  | .bool value => some value
  | _ => none

/-- The whole number of a JSON number that is written as one. -/
def toInt? : Json → Option Int
  | .number text => (Numeral.ofText? text).bind Numeral.toInt?
  | _ => none

/-- The identity of a JSON number that is written as a whole number within the identities. -/
def toId? (json : Json) : Option Int :=
  json.toInt?.filter fun value => value ≤ largestId

/-- The natural number below `2 ^ 64` of a JSON number that is written as one. -/
def toNat? (json : Json) : Option Nat :=
  match json.toInt? with
  | some (.ofNat value) => some value
  | _ => none

/-- The double of a JSON number. -/
def toFloat? : Json → Option Float
  | .number text => (Numeral.ofText? text).bind Numeral.toFloat?
  | _ => none

/-! ## Records -/

/-- The values of an object's members with their keys read, or `none` if a key cannot be read. -/
def namedMembers? : List (List Char × Json) → Option (List (List Char × Json))
  | [] => some []
  | (key, value) :: rest => do
    let name ← unescape? key
    let others ← namedMembers? rest
    return (name, value) :: others

/-- The value of the one member with this name: `some none` if there is none, and `none` if there
are several. -/
def member? (members : List (List Char × Json)) (name : String) : Option (Option Json) :=
  match members.filter (·.1 == name.toList) with
  | [] => some none
  | [(_, value)] => some (some value)
  | _ => none

/-- The values of a record's fields, in the order of `names`, each of which may be missing. A record
is an object, in which members of other names are passed over and a name may not come twice, or an
array of the values in order, without more of them than there are names. -/
def fields? (names : List String) : Json → Option (List (Option Json))
  | .array items =>
    if items.length ≤ names.length then
      some ((items.map some).rightpad names.length none)
    else none
  | .object members => do
    let named ← namedMembers? members
    names.mapM (member? named)
  | _ => none

end Json

end Formulary
