import ReleaseAudit.Declarations.Catalog
import ReleaseAudit.Inference.Expression

/-!
# Semantic models

A model answers what the audit asks about meaning. Every answer may be absent,
and an absent answer means unknown.
-/

namespace ReleaseAudit.Inference

set_option autoImplicit false

open Declarations (Catalog Index MemberDecl TypeDecl)
open Source (Document Node)
open ReleaseAudit.Types (Symbol TypeSymbol)

structure Model where
  typeOf : Node → Option TypeSymbol
  symbolOf : Node → Option Symbol
  enclosingScope : Node → Option Node := Node.enclosingScope?

def memberSymbol (index : Index) (decl : TypeDecl) (member : MemberDecl) : Symbol :=
  { Symbol.ofName (if member.kind = .property then .property else .field) member.name with
    containingType := index.symbolFor? decl.key []
    isStatic := member.isStatic }

def constructorSymbol (type : TypeSymbol) : Symbol :=
  { Symbol.ofName .constructor type.simpleName with containingType := some type }

def bindingSymbol (index : Index) (name : String) : Binding → Symbol
  | .localVariable _ | .iteration _ => Symbol.ofName .localVariable name
  | .parameter _ | .untyped => Symbol.ofName .parameter name
  | .member decl member => memberSymbol index decl member

def typeOf? (index : Index) (node : Node) : Option TypeSymbol :=
  typeAt? index maxDepth node

def symbolOf? (index : Index) (node : Node) : Option Symbol :=
  match node.kind with
  | .invocationExpression => (resolveCall? index (typeOf? index) node).map BoundCall.symbol
  | .objectCreationExpression | .implicitObjectCreationExpression =>
      (typeOf? index node).map constructorSymbol
  | .identifier => (lookup? index node node.text).map (bindingSymbol index node.text)
  | .memberAccessExpression =>
      (accessedMember? index (typeOf? index) node).map fun found =>
        memberSymbol index found.2.1 found.2.2
  | _ => none

def indexOf (catalog : Catalog) (documents : List Document) : Index :=
  (documents.foldl Index.addDocument catalog.toIndex).finalize

namespace Model

def ofIndex (index : Index) : Model where
  typeOf := typeOf? index
  symbolOf := symbolOf? index

def ofDocuments (catalog : Catalog) (documents : List Document) : Model :=
  ofIndex (indexOf catalog documents)

/-- A model that knows expressions by their text; the first entry of a text counts. -/
def ofTexts (types : List (String × TypeSymbol)) (symbols : List (String × Symbol)) : Model where
  typeOf node := types.lookup node.text
  symbolOf node := symbols.lookup node.text

end Model

end ReleaseAudit.Inference
