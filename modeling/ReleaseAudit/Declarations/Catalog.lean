import ReleaseAudit.Declarations.Index
import ReleaseAudit.Settings.Basic

/-!
# Catalogued types

External types come from the settings. An entry whose name is no written type
is left out, and so are its parts that are none.
-/

namespace ReleaseAudit.Declarations

set_option autoImplicit false

open ReleaseAudit.Types (TypeRef typeKey)

structure Catalog where
  types : List TypeDecl
  implicitUsings : List String

namespace Catalog

def memberDecl (known : KnownMember) : MemberDecl where
  kind := known.kind
  name := known.name
  type := known.returns.bind TypeRef.parse?
  typeParams := []
  parameters := known.parameters.map fun parameters =>
    parameters.map fun type => ⟨TypeRef.parse? type, false, false⟩
  isStatic := known.isStatic
  isExtension := known.isExtension
  returnsTypeArgument := known.returnsTypeArgument

def typeDecl? (known : KnownType) : Option TypeDecl :=
  (TypeRef.parse? known.name).map fun written =>
    let typeParams := written.args.map TypeRef.name
    let key := typeKey written.name typeParams.length
    { fullName := written.name
      key := key
      kind := known.kind
      typeParams := typeParams
      bases := known.bases.filterMap TypeRef.parse?
      scope :=
        { namespaceName := ((Text.splitLast? '.' written.name).map Prod.fst).getD ""
          enclosingTypes := [key]
          typeParams := typeParams }
      members := known.members.map memberDecl }

def ofSettings (settings : Settings) : Catalog :=
  ⟨settings.knownTypes.filterMap typeDecl?, settings.implicitUsings⟩

def toIndex (catalog : Catalog) : Index :=
  catalog.types.foldl Index.insert { implicitUsings := catalog.implicitUsings }

end Catalog

end ReleaseAudit.Declarations
