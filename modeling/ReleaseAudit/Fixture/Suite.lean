import ReleaseAudit.Fixture.Verification
import ReleaseAudit.Settings.Schema

/-!
# Fixtures in files

A fixture may have settings of its own, in a file beside it with the same name
and the extension `toml`.
-/

namespace ReleaseAudit.Fixture

set_option autoImplicit false

open Files (Folder)
open Rules (Ruleset)
open Source (Document Parser)

def settingsFor (folder : Folder) (path : String) : Except SettingsError Settings :=
  let beside := Files.Path.withExtension path "toml"
  if folder.isFile beside then Settings.ofFile folder beside else .ok .builtin

def rulesFor (folder : Folder) (path : String) : Except VerifyError Ruleset :=
  (settingsFor folder path >>= Ruleset.ofSettings).mapError .settings

def readFixture (parser : Parser) (folder : Folder) (path : String) :
    Except VerifyError (Ruleset × Document) := do
  let text ← (folder.read path).mapError (.unreadable path)
  let rules ← rulesFor folder path
  return (rules, Document.parse parser path text)

def verifyFile? (parser : Parser) (folder : Folder) (path : String) :
    Option (Except VerifyError FixtureResult) :=
  match readFixture parser folder path with
  | .ok (rules, document) => verify? rules document
  | .error error => some (.error error)

def resultOf? (parser : Parser) (folder : Folder) (path : String) :
    ExceptT VerifyError Option FixtureResult :=
  (verifyFile? parser folder path).map fun
    | .error (.failing result) => .ok result
    | outcome => outcome

/-- Runs every fixture below a directory; the first that cannot be run ends it. -/
def verifyDirectory? (parser : Parser) (folder : Folder) (path : String) :
    ExceptT VerifyError Option (List FixtureResult) :=
  (folder.sourcesBelow path).mapM (resultOf? parser folder)

end ReleaseAudit.Fixture
