import CrateBook.Page.Module

/-!
# Documents

The page of each planned file: the page of a module, the page of an item, or one page for
the whole package. Each planned file gives one document at its path, and the documents come
in the order of the plan.
-/
namespace CrateBook

/-- A planned file with the page that was written for it. -/
structure Document where
  plan : FilePlan PageKind
  page : Page

namespace Document

/-- The path below the package's directory. -/
def path (d : Document) : String := d.plan.path

def title (d : Document) : String := d.plan.title

/-- The text of the page. -/
def body (d : Document) : String := d.page.body

/-- The links of the page, each once. -/
def links (d : Document) : List Link := d.page.manifest

end Document

namespace Site

variable (s : Site)

/-- The line that says in which module a page stands. -/
def moduleLine (modulePath : List String) : OnPage Unit := do
  let crumbs ← s.breadcrumb modulePath
  addLines ["**Module:** " ++ crumbs, ""]

def modulePage (title : String) (n : Node) : OnPage Unit := do
  addLines (Markdown.frontMatter title none)
  if 1 < n.path.length then s.moduleLine n.path.dropLast
  heading 1 ((if n.path.length == 1 then "Crate" else "Module") ++ " " ++ n.name) none
  s.moduleIntro n
  s.childModules 2 n
  s.moduleContents 2 (s.options.mode == .module) n

/-- The line of a module in a list of contents. -/
def contentsLine (n : Node) : OnPage Unit := do
  let name ← s.moduleName n
  addLines [Text.times (n.path.length - 2) "  " ++ "- " ++ name]

/-- The list of modules on a page of the whole package. -/
def contents (modules : List Node) : OnPage Unit := do
  if modules.isEmpty then return
  heading 2 "Contents" none
  modules.forM s.contentsLine
  addLines [""]

/-- A module below the root on a page of the whole package. -/
def moduleSection (n : Node) : OnPage Unit := do
  let anchor := if s.tree.isPrimaryNode n then s.layout.anchorFor n.id else none
  heading 2 ("Module " ++ "::".intercalate n.path) anchor
  s.moduleIntro n
  s.moduleContents 3 true n

def packagePage (title : String) (root : Node) : OnPage Unit := do
  addLines (Markdown.frontMatter title none)
  heading 1 ("Crate " ++ root.name) none
  s.moduleIntro root
  let modules := s.tree.modules.tail
  s.contents modules
  s.moduleContents 2 true root
  modules.forM s.moduleSection

/-- The other paths of an item, where there are any. -/
def otherPlacements (p : Placement) : OnPage Unit := do
  let others := (s.tree.placements.placements p.itemId).filter (· != p)
  if !others.isEmpty then
    let paths := others.map fun q => Markdown.code ("::".intercalate q.path)
    addLines ["**Also available as:** " ++ ", ".intercalate paths, ""]

def itemPage (title : String) (p : Placement) : OnPage Unit := do
  let x ← s.item p.itemId
  addLines (Markdown.frontMatter title none)
  s.moduleLine p.modulePath
  s.itemSection 1 none x
  s.otherPlacements p

def pageOf (plan : FilePlan PageKind) : OnPage Unit :=
  match plan.page with
  | .document n => s.packagePage plan.title n
  | .module n => s.modulePage plan.title n
  | .item p => s.itemPage plan.title p

def document (plan : FilePlan PageKind) : Noting Document := do
  let ((), page) ← (s.pageOf plan).run {}
  return ⟨plan, page⟩

/-- The documents of a package, in the order of its layout. -/
def documents : Noting (List Document) := s.layout.files.mapM s.document

end Site

end CrateBook
