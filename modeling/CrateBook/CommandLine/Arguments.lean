import CrateBook.Configuration
import CrateBook.Text.Letter

/-!
# Arguments of the command line

Two arguments have their places, the export and the output directory; all others are flags.
A flag may be shortened as long as one flag alone fits, and its value follows it, behind an
equals sign or as the next argument. Behind a double dash nothing is a flag.
-/
namespace CrateBook.CommandLine

inductive Flag where
  | help
  | includePrivate
  | mode
  | basePath
  | packages
  | navigationOutput
  | navigationCollapsed
  | config
  | report
  | dryRun
  | verbose
deriving DecidableEq, Repr

/-- The names of flags, in the order in which they are matched. -/
def flagNames : List (String × Flag) :=
  [("-h", .help), ("--help", .help), ("--include-private", .includePrivate), ("--mode", .mode),
   ("--base-path", .basePath), ("--workspace-crates", .packages),
   ("--sidebar-output", .navigationOutput), ("--sidebar-collapsed", .navigationCollapsed),
   ("--config", .config), ("--report", .report), ("--dry-run", .dryRun),
   ("--verbose", .verbose)]

namespace Flag

/-- A value follows the flag. -/
def takesValue : Flag → Bool
  | help => false
  | includePrivate => false
  | dryRun => false
  | verbose => false
  | _ => true

def title (f : Flag) : String :=
  "/".intercalate ((flagNames.filter fun n => n.2 == f).map (·.1))

end Flag

/-- What is wrong with the arguments. -/
inductive UsageFault where
  | ambiguous (argument : String) (fitting : List String)
  | valueMissing (flag : Flag)
  | valueIgnored (flag : Flag) (value : String)
  | unknownMode (value : String)
  | notATruthValue (value : String)
  | missing (names : List String)
  | unrecognized (arguments : List String)
deriving DecidableEq, Repr

/-- The wording of a fault of the arguments. -/
def UsageFault.message : UsageFault → String
  | ambiguous a fitting =>
    "ambiguous option: " ++ a ++ " could match " ++ ", ".intercalate fitting
  | valueMissing f => "argument " ++ f.title ++ ": expected one argument"
  | valueIgnored f v =>
    "argument " ++ f.title ++ ": ignored explicit argument " ++ Text.quoted v
  | unknownMode v =>
    "argument " ++ Flag.mode.title ++ ": invalid choice: " ++ Text.quoted v ++ " (choose from " ++
      ", ".intercalate ([Mode.single, .module, .item].map fun m => Text.quoted m.name) ++ ")"
  | notATruthValue v =>
    "argument " ++ Flag.navigationCollapsed.title ++ ": expected true or false, got " ++
      Text.quoted v
  | missing names => "the following arguments are required: " ++ ", ".intercalate names
  | unrecognized as_ => "unrecognized arguments: " ++ " ".intercalate as_

/-- One argument by its form. -/
inductive Word where
  | plain (s : String)
  | separator
  | flag (f : Flag) (value : Option String)
  | unknown (s : String)
deriving DecidableEq, Repr

namespace Word

/-- The argument as it was written, for one that is no known flag. -/
def source : Word → String
  | plain s => s
  | separator => "--"
  | flag _ _ => ""
  | unknown s => s

def isSeparator : Word → Bool
  | separator => true
  | _ => false

/-- The argument has the form of a flag. -/
def isFlag : Word → Bool
  | flag _ _ => true
  | unknown _ => true
  | _ => false

end Word

/-- An argument in front of its first equals sign, and behind it. -/
def splitValue (s : String) : String × Option String :=
  match Text.cutAt? ['='] s.toList with
  | some (name, value) => (String.ofList name, some (String.ofList value))
  | none => (s, none)

/-- The short flag for help with letters behind it. It may be written several times in one
argument, and what follows it is ignored, but for a sign or a value behind an equals sign. -/
def helpWord (letters : List Char) : Word :=
  match letters with
  | 'h' :: '=' :: rest => .flag .help (some (String.ofList rest))
  | 'h' :: rest => helpWord rest
  | '-' :: rest => .flag .help (some (String.ofList ('-' :: rest)))
  | _ => .flag .help none

/-- The flags whose names start as an argument does, with the value behind it. -/
def fittingFlags (s : String) : List (String × Word) :=
  match s.toList with
  | '-' :: '-' :: _ =>
    let (name, value) := splitValue s
    (flagNames.filter fun n => Text.startsWith name n.1).map fun n => (n.1, .flag n.2 value)
  | '-' :: c :: letters =>
    (flagNames.filter fun n => n.1 == String.ofList ['-', c]).map fun n =>
      (n.1, helpWord letters)
  | _ => []

/-- The text writes a negative number. A line feed at its end does not count. -/
def isNegativeNumber (s : String) : Bool :=
  match s.toList with
  | '-' :: cs =>
    match cs.dropWhile Text.isDecimal with
    | [] => !cs.isEmpty
    | ['\n'] => 1 < cs.length
    | '.' :: ds =>
      let behind := ds.dropWhile Text.isDecimal
      (behind.isEmpty || behind == ['\n']) && ds.length != behind.length
    | _ => false
  | _ => false

/-- An argument in front of the double dash, by its form. -/
def wordOf (s : String) : Except UsageFault Word :=
  match s.toList with
  | '-' :: _ :: _ =>
    let (name, value) := splitValue s
    match flagNames.lookup s, (if value.isSome then flagNames.lookup name else none) with
    | some f, _ => .ok (.flag f none)
    | none, some f =>
      .ok (.flag f value)
    | none, none =>
      match fittingFlags s with
      | [n] => .ok n.2
      | [] => .ok (if isNegativeNumber s || s.toList.contains ' ' then .plain s else .unknown s)
      | ns => .error (.ambiguous s (ns.map (·.1)))
  | _ => .ok (.plain s)

/-- All arguments by their forms. -/
def words : List String → Except UsageFault (List Word)
  | [] => .ok []
  | a :: as_ =>
    if a == "--" then .ok (.separator :: as_.map .plain)
    else do
      let w ← wordOf a
      return w :: (← words as_)

/-- What the arguments ask for. -/
structure Invocation where
  input : FilePath
  /-- The output directory; none where a second double dash stands in its place. -/
  output : Option FilePath
  overrides : Configuration.Overrides := {}
  config : Option String := none
  report : Option String := none
  dryRun : Bool := false

/-- Arguments that are being read: those in places, those that fit nowhere, and the flags
so far. -/
structure Draft where
  places : List (Option String) := []
  extras : List String := []
  overrides : Configuration.Overrides := {}
  config : Option String := none
  report : Option String := none
  dryRun : Bool := false

/-- Why reading ends without an invocation. -/
inductive Stop where
  | help
  | usage (fault : UsageFault)
deriving DecidableEq, Repr

/-- The names of the arguments that have places. -/
def placeNames : List String := ["input", "out_dir"]

/-- How many places are still free. -/
def Draft.free (d : Draft) : Nat := placeNames.length - d.places.length

/-- The words read as truth values. -/
def truthWords : List (String × Bool) :=
  [("true", true), ("yes", true), ("1", true), ("false", false), ("no", false), ("0", false)]

/-- The names in a list with commas between them. -/
def nameList (s : String) : List String :=
  ((Text.splitAt ',' s).map Text.trim).filter fun p => !p.isEmpty

/-- Takes in a flag without a value. -/
def Draft.setFlag (d : Draft) : Flag → Except Stop Draft
  | .help => .error .help
  | .includePrivate => .ok { d with overrides := { d.overrides with includePrivate := true } }
  | .dryRun => .ok { d with dryRun := true }
  | _ => .ok d

def Draft.setValue (d : Draft) (f : Flag) (v : String) : Except Stop Draft :=
  let o := d.overrides
  match f with
  | .mode =>
    match Mode.ofName? v with
    | some m => .ok { d with overrides := { o with mode := some m } }
    | none => .error (.usage (.unknownMode v))
  | .basePath => .ok { d with overrides := { o with basePath := some v } }
  | .packages =>
    .ok { d with
      overrides := { o with packages := if v.isEmpty then none else some (nameList v) } }
  | .navigationOutput =>
    .ok { d with overrides := { o with navigationOutput := some (FilePath.ofText v) } }
  | .navigationCollapsed =>
    match truthWords.lookup (Text.lower (Text.trim v)) with
    | some b => .ok { d with overrides := { o with navigationCollapsed := some b } }
    | none => .error (.usage (.notATruthValue v))
  | .config => .ok { d with config := some v }
  | .report => .ok { d with report := some v }
  | _ => .ok d

/-- A plain argument in its place. A double dash goes with the argument next to it; one that
stands in the place alone leaves it without a text. -/
def placed (hasSeparator : Bool) (s : String) : Option String :=
  if s == "--" && !hasSeparator then none else some s

/-- Plain arguments for so many places, and what is left. -/
def takePlaces : Nat → List Word → List (Option String) × List Word
  | 0, ws => ([], ws)
  | n + 1, ws =>
    match ws.dropWhile Word.isSeparator with
    | .plain s :: rest =>
      let (more, left) := takePlaces n (rest.dropWhile Word.isSeparator)
      (placed (ws.head?.any Word.isSeparator) s :: more, left)
    | _ => ([], ws)

/-- Reads arguments from the first one that is left. -/
def readWords : Nat → Draft → List Word → Except Stop Draft
  | 0, d, _ => .ok d
  | n + 1, d, ws =>
    let (taken, left) := takePlaces d.free ws
    match ws with
    | [] => .ok d
    | .flag f (some v) :: rest =>
      if f.takesValue then do readWords n (← d.setValue f v) rest
      else .error (.usage (.valueIgnored f v))
    | .flag f none :: rest =>
      if f.takesValue then
        match rest with
        | .plain v :: rest => do readWords n (← d.setValue f v) rest
        | _ => .error (.usage (.valueMissing f))
      else do readWords n (← d.setFlag f) rest
    | .unknown s :: rest => readWords n { d with extras := d.extras ++ [s] } rest
    | _ =>
      if taken.isEmpty then
        readWords n
          { d with extras := d.extras ++ (ws.takeWhile (!·.isFlag)).map Word.source }
          (ws.dropWhile (!·.isFlag))
      else readWords n { d with places := d.places ++ taken } left

def Invocation.parse (arguments : List String) : Except Stop Invocation := do
  let ws ← (words arguments).mapError .usage
  let d ← readWords (2 * ws.length + 1) {} ws
  match d.places with
  | [input, output] =>
    if d.extras.isEmpty then
      return {
        input := FilePath.ofText (input.getD ""), output := output.map FilePath.ofText
        overrides := d.overrides, config := d.config, report := d.report, dryRun := d.dryRun }
    else .error (.usage (.unrecognized d.extras))
  | places => .error (.usage (.missing (placeNames.drop places.length)))

end CrateBook.CommandLine
