import CrateBook.Digest
import CrateBook.Json.Writer
import CrateBook.Setting.KeyOrder

/-!
# Fingerprints of settings

The canonical text of a setting is one line of JSON with sorted keys. Keys can be sorted if
they are texts only or numbers only. The fingerprint is the digest of the canonical text of
a configuration together with the format of exports that it is for.
-/
namespace CrateBook

namespace Scalar

/-- A scalar as JSON; what JSON has no form for goes by its text. -/
def canonical : Scalar → Checked String
  | null => .ok "null"
  | bool true => .ok "true"
  | bool false => .ok "false"
  | int n => if Text.isWritable n then .ok (toString n) else .error .notANumber
  | float x => .ok (Decimal.text Json.floatWords x)
  | s => .ok (Json.quote true s.text)

/-- A scalar as the key of a JSON object. -/
def keyText : Scalar → Checked String
  | str s => .ok s
  | date _ => .error .wrongKind
  | moment _ => .error .wrongKind
  | bytes _ => .error .wrongKind
  | s => s.canonical

end Scalar

namespace Setting

/-- The members of a JSON object in the order of their keys. In this order the first key or
value without a canonical text is at fault. -/
def canonicalMembers (ms : List (Scalar × Checked String)) : Checked String := do
  if Scalar.sortable (ms.map (·.1)) then
    let parts ← (KeyOrder.sorted (fun a b => a.1.keyLt b.1) ms).mapM fun m => do
      let key := Json.quote true (← m.1.keyText)
      return key ++ ":" ++ (← m.2)
    return "\x7b" ++ ",".intercalate parts ++ "\x7d"
  else .error .wrongKind

mutual

/-- The canonical text of a setting; a value that contains itself has none. -/
def canonical : Setting → Checked String
  | scalar s => s.canonical
  | list xs => do return "[" ++ ",".intercalate (← canonicals xs) ++ "]"
  | mapping es => canonicalMembers (canonicalEntries es)
  | set ks =>
    if ks.all Scalar.isWritable then .ok (Json.quote true (setLiteral ks))
    else .error .notANumber
  | pair a b => do
    let first ← canonical a
    return "[" ++ first ++ "," ++ (← canonical b) ++ "]"
  | endless _ _ => .error .endless

/-- The canonical texts of several settings. -/
def canonicals : List Setting → Checked (List String)
  | [] => .ok []
  | v :: vs => do
    let t ← canonical v
    return t :: (← canonicals vs)

/-- The entries of a mapping with the canonical texts of their values. -/
def canonicalEntries : List (Scalar × Setting) → List (Scalar × Checked String)
  | [] => []
  | (k, v) :: es => (k, canonical v) :: canonicalEntries es

end

/-- What a fingerprint is made of. -/
def stamped (config version : Setting) : Setting :=
  record [("format_version", version), ("config", config)]

/-- The digest of a setting's canonical text. -/
def digest (v : Setting) : Checked String := do return Digest.ofText (← v.canonical)

/-- The fingerprint of a configuration for a format version of exports. -/
def fingerprint (config : Setting) (version : Int) : Checked String :=
  (stamped config (scalar (.int version))).digest

end Setting

end CrateBook
