import CrateBook.Navigation.Basic
import CrateBook.Page.Document

/-!
# The navigation of a site

The navigation tree follows the module tree. Within a module's category its overview comes
first, then the categories of its child modules, then its items' pages by title.
-/
namespace CrateBook.Site

variable (s : Site)

/-- The plan of the file at a document's path. -/
def planOf (d : Document) : Option PageKind := (s.layout.fileAt d.path).map (·.page)

/-- The overview of the module at a path; of several documents the last one counts. -/
def overview? (ds : List Document) (path : List String) : Option Document :=
  (ds.filter fun d =>
    match s.planOf d with
    | some (.document n) => n.path == path
    | some (.module n) => n.path == path
    | _ => false).getLast?

/-- The order of item pages in a category: by title in lower case, then by path. -/
def entryLe (a b : Document) : Bool :=
  let la := Text.lower a.title
  let lb := Text.lower b.title
  la < lb || (la == lb && a.path ≤ b.path)

/-- The item pages of the module at a path. -/
def itemDocuments (ds : List Document) (path : List String) : List Document :=
  (ds.filter fun d =>
    match s.planOf d with
    | some (.item p) => p.modulePath == path
    | _ => false).mergeSort entryLe

def pageEntry (label : String) (d : Document) : Navigation :=
  .page label (Layout.pageUrl s.options.basePath s.source.package.name d.path)
    (s.source.package.name ++ "/" ++ Text.dropSuffix ".md" d.path)

/-- The entry of a module's overview. -/
def overviewEntry (ds : List Document) (path : List String) : List Navigation :=
  (s.overview? ds path).toList.map fun d =>
    s.pageEntry (if 1 < ds.length then "Overview" else d.title) d

mutual

def category (ds : List Document) : Node → Navigation
  | .mk id path children members reexports =>
    let n : Node := .mk id path children members reexports
    .category n.name (s.moduleLink n) s.options.navigationCollapsed path
      (s.overviewEntry ds path ++ categories ds children ++
        (s.itemDocuments ds path).map fun d => s.pageEntry d.title d)

def categories (ds : List Document) : List Node → List Navigation
  | [] => []
  | n :: ns => category ds n :: categories ds ns

end

theorem categories_eq_map (ds : List Document) (ns : List Node) :
    s.categories ds ns = ns.map (s.category ds) := by
  induction ns with
  | nil => rfl
  | cons n ns ih => rw [categories, ih, List.map_cons]

/-- The navigation tree for the documents of a site. -/
def navigation (ds : List Document) : Navigation := s.category ds s.tree.root

end CrateBook.Site
