import CrateBook.Link
import CrateBook.Text.Blank
import CrateBook.Text.Lines

/-!
# Pages under way

A page collects lines, the links in them, and the anchors that it defines. An anchor is
defined once; a second request for it adds nothing.
-/
namespace CrateBook

/-- The lines, links and anchors of a page so far. -/
structure Page where
  lines : List String := []
  links : List Link := []
  anchors : List String := []

namespace Page

/-- The tag that defines an anchor. -/
def anchorTag (anchor : String) : String := "<a id=\"" ++ anchor ++ "\"></a>"

@[simp] theorem isEmpty_anchorTag (anchor : String) : (anchorTag anchor).isEmpty = false := by
  simp [anchorTag]

def add (p : Page) (lines : List String) : Page := { p with lines := p.lines ++ lines }

def addLinks (p : Page) (links : List Link) : Page := { p with links := p.links ++ links }

/-- The anchor would be new to the page. -/
def isNewAnchor (p : Page) (anchor : Option String) : Bool :=
  match anchor with
  | none => false
  | some a => !a.isEmpty && !p.anchors.contains a

/-- The tag of an anchor, empty if there is none or the page defines it already. -/
def tagFor (p : Page) (anchor : Option String) : String :=
  if p.isNewAnchor anchor then anchorTag (anchor.getD "") else ""

/-- Takes note that an anchor is defined. -/
def define (p : Page) (anchor : Option String) : Page :=
  if p.isNewAnchor anchor then { p with anchors := anchor.getD "" :: p.anchors } else p

/-- Adds a heading, behind the tag of its anchor. Levels beyond the sixth look like it, and
levels below the first have no number sign. -/
def heading (p : Page) (level : Int) (text : String) (anchor : Option String) : Page :=
  let tag := p.tagFor anchor
  let p := p.define anchor
  let p := if tag.isEmpty then p else p.add [tag, ""]
  p.add [Text.times (min level 6).toNat "#" ++ " " ++ text, ""]

/-- The text of the page, with one line feed at its end. -/
def body (p : Page) : String := Text.trimEnd (Text.joinLines p.lines) ++ "\n"

/-- The links of the page, each once. -/
def manifest (p : Page) : List Link := Link.distinct p.links

@[simp] theorem lines_add (p : Page) (ls : List String) : (p.add ls).lines = p.lines ++ ls := rfl

@[simp] theorem lines_addLinks (p : Page) (ls : List Link) :
    (p.addLinks ls).lines = p.lines := rfl

@[simp] theorem lines_define (p : Page) (a : Option String) :
    (p.define a).lines = p.lines := by
  unfold define; split <;> rfl

@[simp] theorem links_add (p : Page) (ls : List String) : (p.add ls).links = p.links := rfl

@[simp] theorem links_addLinks (p : Page) (ls : List Link) :
    (p.addLinks ls).links = p.links ++ ls := rfl

@[simp] theorem links_define (p : Page) (a : Option String) :
    (p.define a).links = p.links := by
  unfold define; split <;> rfl

@[simp] theorem links_heading (p : Page) (level : Int) (text : String) (a : Option String) :
    (p.heading level text a).links = p.links := by
  unfold heading
  dsimp only
  split <;> simp

end Page

end CrateBook
