import CrateBook.Conversion

/-!
# Sessions

A session answers requests about one site: where an id leads, how an item is declared, what
its section says. From one request to the next it keeps the report and what the site
remembers. The notes of a step are taken in one by one, also those before a failure: an id
that is looked up for the first time is remembered with its target, and the report learns of
it if it is missing; an id that is remembered changes nothing. The look-ups of a step read
what was remembered when the step began.
-/
namespace CrateBook

/-- Something that a site can render. -/
inductive Rendering where
  | declaration (id : Id)
  | impls (typeId : Id)
  | section_ (id : Id) (level : Int) (anchor : Option String)
  | docs (id : Id)
  | summary (id : Id)
  | linkTo (id : Option Id) (name : String)
  | breadcrumb (path : List String)
  | moduleLink (path : List String)
  | isShown (id : Id)
  | isIncluded (id : Id)
  | typeText (type : Value)
  | document (plan : FilePlan PageKind)

/-- A request about a site. -/
inductive Request where
  | target (id : Option Id) (title : String)
  | rendering (r : Rendering)
  | report

/-- What a request is answered with. -/
inductive Answer where
  | target (t : Target)
  | text (s : String)
  | group (g : ImplGroup)
  | page (p : Page)
  | linked (text : String) (links : List Link)
  | href (h : Option String)
  | verdict (b : Bool)
  | report (r : Report)

namespace Site

/-- A text that is written on a page of its own, with the links of that page. -/
def onFreshPage (x : OnPage String) : Noting Answer := do
  let (text, page) ← x.run {}
  return .linked text page.manifest

def render (s : Site) : Rendering → Noting Answer
  | .declaration id => do
    let r ← s.declarations.render (← s.item id)
    return .text r.code
  | .impls id => do
    Noting.note (.classified id)
    return .group (s.implsOf id)
  | .section_ id level anchor => do
    let x ← s.item id
    let ((), page) ← (s.itemSection level anchor x).run {}
    return .page page
  | .docs id => do
    let x ← s.item id
    onFreshPage (s.docs x)
  | .summary id => do
    let x ← s.item id
    onFreshPage (s.summary x)
  | .linkTo id name => onFreshPage (s.linkTo id name)
  | .breadcrumb path => onFreshPage (s.breadcrumb path)
  | .moduleLink path =>
    match s.tree.root.find? path with
    | some n => return .href (s.moduleLink n)
    | none => Noting.fail .noSuchField
  | .isShown id => return .verdict (s.source.showsMember s.options.includePrivate id)
  | .isIncluded id => do
    let x ← s.item id
    return .verdict (x.isIncluded s.options.includePrivate)
  | .typeText v => do
    let segments ← s.types.type v
    return .text (Segment.writeAll .markdown segments)
  | .document plan => do
    let d ← s.document plan
    return .page d.page

/-- What the note says was looked up before. -/
def isKnown (s : Site) : Note → Bool
  | .asked id _ => s.memory.targets.contains id
  | _ => false

/-- The site after what a note says was looked up. -/
def remember (s : Site) : Note → Site
  | .asked id title =>
    let targets := s.memory.targets.insertNew id (s.resolve id title)
    s.recalling { s.memory with targets }
  | .classified typeId =>
    let group := s.source.classify s.options.noiseTraits typeId
    let groups := s.memory.groups.insertNew typeId group
    s.recalling { s.memory with groups }
  | _ => s

end Site

/-- A site, with what it remembers, and the report so far. -/
structure Session where
  site : Site
  report : Report

namespace Session

/-- A session before its first request: nothing is remembered. -/
def start (s : Site) : Session := ⟨s.recalling {}, s.startReport⟩

def take (s : Session) (n : Note) : Session where
  site := s.site.remember n
  report := if s.site.isKnown n then s.report else s.site.enter s.report n

def takeAll (s : Session) (notes : List Note) : Session := notes.foldl take s

/-- The answer to a request, and the notes that it leaves. -/
def respond (s : Session) : Request → Noting Answer
  | .target none title => return .target (.unlinked title)
  | .target (some id) title => do
    Noting.note (.asked id title)
    return .target (s.site.targetOf id title)
  | .rendering r => s.site.render r
  | .report => return .report s.report

/-- Answers a request, and takes in the notes. -/
def ask (s : Session) (q : Request) : Checked Answer × Session :=
  let x := s.respond q
  (x.result, s.takeAll x.notes)

/-- The session after some requests. -/
def after (s : Session) (qs : List Request) : Session :=
  qs.foldl (fun s q => (s.ask q).2) s

/-- Answers requests one after the other. -/
def askAll (s : Session) : List Request → List (Checked Answer)
  | [] => []
  | q :: qs => (s.ask q).1 :: (s.ask q).2.askAll qs

end Session

end CrateBook
