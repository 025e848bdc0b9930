import CrateBook.FilePath
import CrateBook.Options
import CrateBook.Setting.Basic
import CrateBook.Table

/-!
# Options from settings

A configuration has five sections. A section, or a value in one, that holds nothing leaves
the option at its default.
-/
namespace CrateBook

namespace Setting

def texts (v : Setting) : Checked (List String) := do
  return (← v.elementsOrNone).map text

/-- A truth value with a default for the missing one. -/
def flag (v : Setting) (key : String) (default : Bool) : Checked Bool :=
  match v with
  | mapping es =>
    match Entries.find? es (.str key) with
    | some w => .ok w.isSet
    | none => .ok default
  | _ => .error .noSuchField

/-- The path that a setting gives; only a text can be one. -/
def path? (v : Setting) : Checked (Option FilePath) :=
  if v.isSet then
    match v with
    | scalar (.str s) => .ok (some (FilePath.ofText s))
    | _ => .error .wrongKind
  else .ok none

/-- The versions of packages, by name. -/
def versions (v : Setting) : Checked (List (String × String)) := do
  let es ← v.orMapping.entries
  return (Table.ofList (es.map fun e => (e.1.text, e.2.text))).entries

/-- How links to other packages are made. -/
def linkSettings (links : Setting) : Checked LinkSettings := do
  let d : LinkSettings := {}
  let externalHost := (← links.field "external_host").textOr d.externalHost
  let stdHost := (← links.field "std_host").textOr d.stdHost
  let defaultVersion := (← links.field "default_version").textOr d.defaultVersion
  return { externalHost, stdHost, defaultVersion,
           versions := ← versions (← links.field "versions") }

def modeOf (name : String) : Checked Mode :=
  match Mode.ofName? name with
  | some m => .ok m
  | none => .error (.config (.unknownMode name))

/-- The options of a configuration. -/
def options (config : Setting) (configHash : String) : Checked Options := do
  let output := (← config.field "output").orMapping
  let workspace := (← config.field "workspace").orMapping
  let navigation := (← config.field "navigation").orMapping
  let links := (← config.field "links").orMapping
  let noise := (← config.field "noise").orMapping
  let navigationOutput ← navigation.field "output"
  let includePrivate ← output.flag "include_private" false
  let mode := (← output.field "mode").textOr "module"
  let workspacePackages ← (← workspace.field "packages").texts
  let basePath := (← output.field "base_path").textOr ""
  let navigationOutput ← navigationOutput.path?
  let navigationCollapsed ← navigation.flag "collapsed" true
  let links ← linkSettings links
  let noiseTraits ← (← noise.field "traits").texts
  return { includePrivate, mode := ← modeOf mode, workspacePackages, basePath,
           navigationOutput, navigationCollapsed, links, noiseTraits, configHash }

end Setting

end CrateBook
