import CrateBook.Declaration
import CrateBook.Docs.Links
import CrateBook.Docs.Sanitize
import CrateBook.Page
import CrateBook.Site

/-!
# Writing on a page

The small steps that pages are written with: lines, headings, docs, references and
breadcrumbs. Each adds to a page under way and may leave notes.
-/
namespace CrateBook

/-- A step that writes on a page. -/
abbrev OnPage := StateT Page Noting

namespace Site

def addLines (lines : List String) : OnPage Unit := modify (·.add lines)

def addLinks (links : List Link) : OnPage Unit := modify (·.addLinks links)

def heading (level : Int) (text : String) (anchor : Option String) : OnPage Unit :=
  modify (·.heading level text anchor)

/-- Defines an anchor, and gives its tag. -/
def defineAnchor (anchor : String) : OnPage String := do
  let p ← get
  set (p.define (some anchor))
  return p.tagFor (some anchor)

variable (s : Site)

/-- How declarations of the package are written. -/
def declarations : Declaration := ⟨s.source, s.types, s.options.includePrivate⟩

/-- The declaration of an item; its links go to the page. -/
def declaration (x : Item) : OnPage String := do
  let r ← s.declarations.render x
  addLinks r.links
  return r.code

def declarationBlock (x : Item) : OnPage Unit := do
  let code ← s.declaration x
  addLines [Markdown.codeBlock "rust" code, ""]

/-- The docs of an item with their links resolved, and the links. -/
def linkedDocs (x : Item) : Noting (String × List Link) := do
  let (text, notes) := Docs.relink x.links s.hrefOf x.docs
  Noting.noteAll notes
  return (text, notes.filterMap Note.link?)

def docs (x : Item) : OnPage String := do
  let (text, links) ← s.linkedDocs x
  addLinks links
  return Docs.sanitize text

def docsBlock (x : Item) : OnPage Unit := do
  let text ← s.docs x
  if text.isEmpty then return
  addLines [text, ""]

/-- The paragraph starts a block that does not fit on one line. -/
def startsBlock (text : String) : Bool :=
  Text.startsWith "\x60\x60\x60" text || Text.startsWith "~~~" text || Text.startsWith "<" text

/-- The first paragraph of an item's docs on one line, with the links that stand in it. -/
def summary (x : Item) : OnPage String := do
  let (text, links) ← s.linkedDocs x
  let para := Markdown.firstParagraph (Docs.sanitize text)
  if startsBlock para then return ""
  addLinks (links.filter fun l => Text.occursIn l.href para)
  return para

/-- The address of an id that is asked for under a title. -/
def ask (id : Option Id) (title : String) : Noting (Option String) := do
  match id with
  | none => return none
  | some i => do
    Noting.note (.asked i title)
    return s.hrefOf i

/-- A name with a link to an item, or the bare name where the item leads nowhere. -/
def linkTo (id : Option Id) (name : String) : OnPage String := do
  let href ← s.ask id name
  addLinks (href.toList.map fun h => ⟨name, h⟩)
  return Target.markdownLink name href

/-- The link of the module at a path, if the tree has one there. -/
def linkAt (path : List String) : Option String := (s.tree.root.find? path).bind s.moduleLink

/-- The segments of a module's path behind those of `above`, each with a link where the
module there has one. -/
def crumbs (above : List String) : List String → OnPage (List String)
  | [] => return []
  | segment :: rest => do
    let path := above ++ [segment]
    let href := s.linkAt path
    addLinks (href.toList.map fun h => ⟨segment, h⟩)
    return Target.markdownLink segment href :: (← crumbs path rest)

/-- A module's path with a link on every module that has one. -/
def breadcrumb (modulePath : List String) : OnPage String := do
  return "::".intercalate (← s.crumbs [] modulePath)

/-- The note that an item is deprecated. -/
def deprecation (x : Item) : OnPage Unit :=
  match x.deprecation with
  | none => return
  | some d =>
    let since := match d.since with
      | some v => " since " ++ v
      | none => ""
    let note := match d.note with
      | some n => ": " ++ n
      | none => ""
    addLines ["> **Deprecated**" ++ since ++ note, ""]

end Site

end CrateBook
