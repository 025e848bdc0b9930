import CrateBook.Export.Index
import CrateBook.Json.Reader

/-!
# Reading exports

A text becomes an export if it is JSON, declares the format version that is read, and has
an index whose root is a module. Whatever else is missing reads as empty.
-/
namespace CrateBook.Export

/-- Adds the items of an index, each under its own id or, failing that, under its key. -/
def readItems (xs : Items) : List (String × Value) → Checked Items
  | [] => .ok xs
  | (key, raw) :: rest =>
    match raw with
    | .object ms =>
      match (Id.ofValue? ((ms.lookup "id").getD .null)).or (Id.ofValue? (.str key)) with
      | some id => do readItems (xs.insert (← Item.read id ms)) rest
      | none => readItems xs rest
    | _ => readItems xs rest

/-- Adds the packages that an export refers to, each under its number. -/
def readPackages (t : Table Int ExternalPackage) :
    List (String × Value) → Checked (Table Int ExternalPackage)
  | [] => .ok t
  | (key, entry) :: rest =>
    match entry with
    | .object ms =>
      if Text.isDigits key then
        match Text.readInt? key with
        | some n =>
          let part (k : String) : Value := (ms.lookup k).getD .null
          readPackages (t.insert n ⟨(part "name").textOr "", (part "html_root_url").text?⟩) rest
        | none => .error .notANumber
      else readPackages t rest
    | _ => readPackages t rest

/-- The name of the package that an external item belongs to. -/
def crateNameOf (package : Package) (crateId : Int) (path : List String) : String :=
  if crateId = 0 then package.name
  else match package.externalPackages.get? crateId with
    | some p => p.name
    | none => path.headD "unknown"

/-- Adds what an export tells about items that are not in its index. -/
def readSummaries (package : Package) (items : Items) (t : Table Id Summary) :
    List (String × Value) → Checked (Table Id Summary)
  | [] => .ok t
  | (key, summary) :: rest =>
    match Id.ofValue? (.str key), summary with
    | some id, .object ms =>
      if items.contains id then readSummaries package items t rest
      else do
        let part (k : String) : Value := (ms.lookup k).getD .null
        let crateId ← ((part "crate_id").orElse (.int 0)).toInt
        let path := (← (part "path").elementsOrNone).map Value.text
        let s : Summary :=
          ⟨id, crateId, crateNameOf package crateId path, path, (part "kind").textOr "unknown"⟩
        readSummaries package items (t.insert id s) rest
    | _, _ => readSummaries package items t rest

/-- The members that an item lists, and the item on whose page they are shown. -/
def membership (x : Item) : Checked (Id × List Id) :=
  match x.payload with
  | .struct b => .ok (x.id, b.fields.filterMap id)
  | .enum b => .ok (x.id, b.variants)
  | .variant b => .ok (x.id, b.fields.filterMap id)
  | .trait b => .ok (x.id, b.items)
  | .impl b => do
    match ← b.target with
    | some target => return (target, b.items)
    | none => return (x.id, [])
  | _ => .ok (x.id, [])

/-- Records owner and container of members that have none yet. -/
def claim (owner container : Id) (tables : Table Id Id × Table Id Id) (members : List Id) :
    Table Id Id × Table Id Id :=
  members.foldl
    (fun t m => (t.1.insertNew m owner, t.2.insertNew m container)) tables

/-- The owner and the container of every member; the first item that lists it counts. -/
def readOwners (tables : Table Id Id × Table Id Id) :
    List Item → Checked (Table Id Id × Table Id Id)
  | [] => .ok tables
  | x :: xs => do
    let (owner, members) ← membership x
    readOwners (claim owner x.id tables members) xs

/-- The format version that an export declares, if it is the one that is read. -/
def checkVersion (doc : Value) : Checked Int := do
  match ← doc.field "format_version" with
  | .null => .error (.badExport .noVersion)
  | .int n =>
    if n = supportedVersion then .ok n
    else .error (.badExport (.unsupportedVersion n))
  | v => .error (.badExport (.versionNotANumber v))

/-- An export needs an index, and a root that the index holds as a module. -/
def checkStructure (doc : List (String × Value)) : Except ExportFault Unit :=
  match doc.lookup "index" with
  | some (.object index) =>
    match Id.ofValue? ((doc.lookup "root").getD .null) with
    | none => .error .noRoot
    | some rootId =>
      match index.lookup rootId with
      | some (.object root) =>
        match root.lookup "inner" with
        | some (.object inner) =>
          if (inner.lookup "module").isSome then .ok () else .error (.rootNotAModule rootId)
        | _ => .error (.rootNotAModule rootId)
      | _ => .error (.rootNotIndexed rootId)
  | _ => .error .noIndex

/-- Builds the tables of a document that has passed the checks. -/
def build (doc : List (String × Value)) (version : Int) : Checked Export := do
  let part (k : String) : Value := (doc.lookup k).getD .null
  let items ← readItems .empty (← (part "index").orObject.members)
  let rootId := (Id.ofValue? (part "root")).getD "None"
  match items.get? rootId with
  | none => .error .noSuchKey
  | some root => do
    let packages ← readPackages .empty (← (part "external_crates").orObject.members)
    let package : Package :=
      ⟨root.name.getD "crate", part "crate_version", rootId, (part "includes_private").isSet,
        version, packages⟩
    let external ← readSummaries package items .empty (← (part "paths").orObject.members)
    let (owners, containers) ← readOwners (.empty, .empty) items.toList
    return ⟨package, items, external, owners, containers⟩

/-- The export that a document holds. -/
def ofDocument (doc : Value) : Checked Export :=
  match doc with
  | .object ms => do
    let version ← checkVersion doc
    match checkStructure ms with
    | .error f => .error (.badExport f)
    | .ok () => build ms version
  | _ => .error (.badExport .notAnObject)

/-- The export that a text holds. -/
def parse (text : String) : Checked Export :=
  match Json.parse text with
  | .ok doc => ofDocument doc
  | .error (.syntaxFault f) => .error (.badExport (.malformed f))
  | .error .tooManyDigits => .error .notANumber
  | .error .tooDeep => .error .tooDeep

end CrateBook.Export
