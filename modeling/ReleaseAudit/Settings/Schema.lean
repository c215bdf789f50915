import ReleaseAudit.Settings.Builtin
import ReleaseAudit.Toml.Reader

/-!
# Settings written in TOML

Every table takes the keys of its record and no others. A record may also be
written as an array of its values in order, and a word of a fixed choice as a
table with that word as its only, empty key. Settings that are loaded lie on top
of the built-in ones.
-/

namespace ReleaseAudit.Settings.Schema

set_option autoImplicit false

open Toml (Value)

def text? : Value → Option String
  | .string text => some text
  | _ => none

def flag? : Value → Option Bool
  | .boolean flag => some flag
  | _ => none

def index? : Value → Option Nat
  | .integer value => if 0 ≤ value then some value.toNat else none
  | _ => none

def list? {α : Type} (element? : Value → Option α) : Value → Option (List α)
  | .array elements => elements.mapM element?
  | _ => none

def word? {α : Type} (choices : List (String × α)) : Value → Option α
  | .string word => choices.lookup word
  | .table [(word, .table [])] => choices.lookup word
  | .table [(word, .array [])] => choices.lookup word
  | _ => none

def record? (keys : List String) : Value → Option (List (String × Value))
  | .table entries => if entries.all fun entry => keys.contains entry.1 then some entries else none
  | .array elements => some (keys.zip elements)
  | _ => none

def required? {α : Type} (entries : List (String × Value)) (key : String)
    (decode? : Value → Option α) : Option α :=
  (entries.lookup key).bind decode?

/-- The value under a key, or `absent` when there is none; a value that does not fit fails. -/
def optional? {α : Type} (entries : List (String × Value)) (key : String)
    (decode? : Value → Option α) (absent : α) : Option α :=
  match entries.lookup key with
  | some value => decode? value
  | none => some absent

def some? {α : Type} (decode? : Value → Option α) (value : Value) : Option (Option α) :=
  (decode? value).map some

def profile? : Value → Option Profile :=
  word? [("default", .default), ("strict", .strict), ("medium", .medium), ("low", .low),
    ("informative", .informative)]

def typeKind? : Value → Option Types.TypeKind :=
  word? [("class", .classType), ("struct", .structType), ("interface", .interfaceType)]

def memberKind? : Value → Option Types.MemberKind :=
  word? [("method", .method), ("property", .property), ("field", .field)]

def methodRule? (value : Value) : Option MethodRule := do
  let entries ← record? ["type", "methods"] value
  let typeName ← required? entries "type" text?
  let methods ← required? entries "methods" (list? text?)
  some ⟨typeName, methods⟩

def leaveOpen? (value : Value) : Option LeaveOpen := do
  let entries ← record? ["name", "index"] value
  let name ← required? entries "name" text?
  let index ← required? entries "index" index?
  some ⟨name, index⟩

def trackingRule? (value : Value) : Option TrackingRule := do
  let entries ← record? ["type", "leave_open"] value
  let typeName ← required? entries "type" text?
  let leaveOpen ← optional? entries "leave_open" (some? leaveOpen?) none
  some ⟨typeName, leaveOpen⟩

def knownMember? (value : Value) : Option KnownMember := do
  let entries ← record?
    ["name", "kind", "returns", "parameters", "static", "extension", "returns_type_argument"] value
  let name ← required? entries "name" text?
  let kind ← optional? entries "kind" memberKind? .method
  let returns ← optional? entries "returns" (some? text?) none
  let parameters ← optional? entries "parameters" (some? (list? text?)) none
  let isStatic ← optional? entries "static" flag? false
  let isExtension ← optional? entries "extension" flag? false
  let returnsTypeArgument ← optional? entries "returns_type_argument" (some? index?) none
  some ⟨name, kind, returns, parameters, isStatic, isExtension, returnsTypeArgument⟩

def knownType? (value : Value) : Option KnownType := do
  let entries ← record? ["name", "kind", "bases", "members"] value
  let name ← required? entries "name" text?
  let kind ← optional? entries "kind" typeKind? .classType
  let bases ← optional? entries "bases" (list? text?) []
  let members ← optional? entries "members" (list? knownMember?) []
  some ⟨name, kind, bases, members⟩

def settingsKeys : List String :=
  ["extend_defaults", "diagnostic_id", "analysis_severity", "disposal_contracts",
    "release_methods", "release_designated_methods", "ignored_types", "implicit_usings",
    "ownership_transfer", "release_equivalent", "ignored_factory", "tracking_type", "known_type"]

def settings? (value : Value) : Option Settings := do
  let entries ← record? settingsKeys value
  let extendDefaults ← optional? entries "extend_defaults" (some? flag?) none
  let diagnosticId ← optional? entries "diagnostic_id" (some? text?) none
  let profile ← optional? entries "analysis_severity" (some? profile?) none
  let disposalContracts ← optional? entries "disposal_contracts" (list? text?) []
  let releaseMethods ← optional? entries "release_methods" (list? text?) []
  let releaseDesignatedMethods ← optional? entries "release_designated_methods" (list? text?) []
  let ignoredTypes ← optional? entries "ignored_types" (list? text?) []
  let implicitUsings ← optional? entries "implicit_usings" (list? text?) []
  let ownershipTransfer ← optional? entries "ownership_transfer" (list? methodRule?) []
  let releaseEquivalent ← optional? entries "release_equivalent" (list? methodRule?) []
  let ignoredFactories ← optional? entries "ignored_factory" (list? methodRule?) []
  let trackingTypes ← optional? entries "tracking_type" (list? trackingRule?) []
  let knownTypes ← optional? entries "known_type" (list? knownType?) []
  some
    ⟨extendDefaults, diagnosticId, profile, disposalContracts, releaseMethods,
      releaseDesignatedMethods, ignoredTypes, implicitUsings, ownershipTransfer,
      releaseEquivalent, ignoredFactories, trackingTypes, knownTypes⟩

end ReleaseAudit.Settings.Schema

namespace ReleaseAudit.Settings

def ofToml? (text : String) : Option Settings :=
  (Toml.parse? text).bind fun entries => Schema.settings? (.table entries)

end ReleaseAudit.Settings

namespace ReleaseAudit.Settings

def ofText (text origin : String) : Except SettingsError Settings :=
  match ofToml? text with
  | some settings => .ok settings
  | none => .error (.malformed origin)

/-- The built-in settings with a user layer on top. -/
def layered (text origin : String) : Except SettingsError Settings :=
  (ofText text origin).map builtin.extend

def ofFile (folder : Files.Folder) (path : String) : Except SettingsError Settings :=
  match folder.read path with
  | .ok text => layered text path
  | .error cause => .error (.unreadable path cause)

def load (folder : Files.Folder) (path : Option String) : Except SettingsError Settings :=
  match path with
  | some path => ofFile folder path
  | none => .ok builtin

end ReleaseAudit.Settings
