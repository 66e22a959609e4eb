import DittoClient.Text.Space
import Mathlib.Data.Rat.Defs

/-!
# Bodies of HTTP responses

What an HTTP client reads of a response: its status, the text of its body and the JSON value that
its parser finds in it, if it takes the body for JSON. A body may be JSON for only some of the
languages: what the client of one language reads says nothing about the others. The members of an
object are kept as they stand in the text, so that a name may occur more than once.
-/

namespace DittoClient

namespace Http

/-- A JSON value. Some parsers also make a number that is not finite of a text. -/
inductive Json
  | null
  | bool (b : Bool)
  | number (n : ℚ)
  | nonFinite
  | string (s : String)
  | array (items : List Json)
  | object (members : List (String × Json))

namespace Json

/-- What counts as true in a condition of Python. -/
def truthy : Json → Bool
  | .null => false
  | .bool b => b
  | .number n => decide (n ≠ 0)
  | .nonFinite => true
  | .string s => decide (s ≠ "")
  | .array items => !items.isEmpty
  | .object members => !members.isEmpty

/-- What counts as true in a condition of JavaScript. -/
def nodeTruthy : Json → Bool
  | .null => false
  | .bool b => b
  | .number n => decide (n ≠ 0)
  | .nonFinite => true
  | .string s => decide (s ≠ "")
  | .array _ => true
  | .object _ => true

/-- The value under a name, where the last member counts. -/
def lookup (name : String) (members : List (String × Json)) : Option Json :=
  ((members.filter fun m => decide (m.1 = name)).getLast?).map Prod.snd

/-- The text of a string. -/
def text? : Json → Option String
  | .string s => some s
  | _ => none

end Json

/-- A response, as far as a client looks at it. -/
structure Response where
  status : ℕ
  statusText : String
  text : String
  json : Option Json

/-- A status of the class 2xx. -/
def Response.ok (r : Response) : Bool :=
  decide (200 ≤ r.status) && decide (r.status < 300)

/-- The body is an object with this code. -/
def Response.Names (r : Response) (c : String) : Prop :=
  ∃ members, r.json = some (.object members) ∧
    Json.lookup "error" members = some (.string c)

end Http

end DittoClient
