import PropCatalog.Number.Double

/-!
# Data

What a YAML document denotes. Texts are data, and so are numbers, truth values, bytes and points in
time; lists, sets and mappings hold further data. Keys of a mapping may be anything but collections.
An entry of a mapping replaces earlier ones with the same key.
-/

namespace PropCatalog
namespace Yaml

inductive Datum where
  | null
  | bool (b : Bool)
  | int (n : Int)
  | float (x : Double)
  | text (s : String)
  | bytes (bytes : List UInt8)
  /-- A date or a time. -/
  | instant
  | list (items : List Datum)
  | set (items : List Datum)
  | map (entries : List (Datum × Datum))
  /-- A collection that contains itself is not followed any further here. -/
  | cut
  deriving Repr, Inhabited

namespace Datum

def isText (d : Datum) (s : String) : Bool :=
  match d with
  | text t => t == s
  | _ => false

/-- Whether a datum can be a key. -/
def isKey : Datum → Bool
  | list _ => false
  | set _ => false
  | map _ => false
  | cut => false
  | _ => true

/-- The last value that entries give to a text key. -/
def lookup? (entries : List (Datum × Datum)) (key : String) : Option Datum :=
  (entries.reverse.find? (·.1.isText key)).map (·.2)

end Datum
end Yaml
end PropCatalog
