import ReleaseAudit.Source.Document

/-!
# Outlines of small declarations

Outlines as a parser gives them for declarations with names of one letter,
placed at any offset, and trees of expressions where offsets do not matter.
-/

namespace ReleaseAudit.Source.Sample

set_option autoImplicit false

def token (spelling : String) (start : UInt32) : Outline :=
  .node (.other spelling) false none start (start + .ofNat spelling.length) []

def letter (field : Option Field) (start : UInt32) : Outline :=
  .node .identifier true field start (start + 1) []

def unit (stop : UInt32) (children : List Outline) : Outline :=
  .node .compilationUnit true none 0 stop children

def body (start stop : UInt32) (declarations : List Outline) : Outline :=
  .node .declarationList true (some .body) start stop
    (token "\x7b" start :: declarations ++ [token "\x7d" (stop - 1)])

/-- `using X = A;` -/
def aliasDirective (start : UInt32) : Outline :=
  .node .usingDirective true none start (start + 12)
    [token "using" start, letter (some .name) (start + 6), token "=" (start + 8),
      letter none (start + 10), token ";" (start + 11)]

/-- `class A { ... }` -/
def classWith (start stop : UInt32) (declarations : List Outline) : Outline :=
  .node .classDeclaration true none start stop
    [token "class" start, letter (some .name) (start + 6), body (start + 8) stop declarations]

/-- `partial class A { ... }` -/
def partWith (start stop : UInt32) (declarations : List Outline) : Outline :=
  .node .classDeclaration true none start stop
    [.node .modifier true none start (start + 7) [token "partial" start],
      token "class" (start + 8), letter (some .name) (start + 14),
      body (start + 16) stop declarations]

/-- `partial class A : B { }` -/
def derivedPart (start : UInt32) : Outline :=
  .node .classDeclaration true none start (start + 23)
    [.node .modifier true none start (start + 7) [token "partial" start],
      token "class" (start + 8), letter (some .name) (start + 14),
      .node .baseList true none (start + 16) (start + 19)
        [token ":" (start + 16), letter none (start + 18)],
      body (start + 20) (start + 23) []]

/-- `namespace A { ... }` -/
def namespaceWith (start stop : UInt32) (declarations : List Outline) : Outline :=
  .node .namespaceDeclaration true none start stop
    [token "namespace" start, letter (some .name) (start + 10),
      body (start + 12) stop declarations]

/-- `void M() { ... }` -/
def methodWith (start stop : UInt32) (statements : List Outline) : Outline :=
  .node .methodDeclaration true none start stop
    [.node .predefinedType true (some .returns) start (start + 4) [],
      letter (some .name) (start + 5),
      .node .parameterList true (some .parameters) (start + 6) (start + 8)
        [token "(" (start + 6), token ")" (start + 7)],
      .node .block true (some .body) (start + 9) stop
        (token "\x7b" (start + 9) :: statements ++ [token "\x7d" (stop - 1)])]

/-- `A M() { ... }` -/
def makerWith (start stop : UInt32) (statements : List Outline) : Outline :=
  .node .methodDeclaration true none start stop
    [letter (some .returns) start, letter (some .name) (start + 2),
      .node .parameterList true (some .parameters) (start + 3) (start + 5)
        [token "(" (start + 3), token ")" (start + 4)],
      .node .block true (some .body) (start + 6) stop
        (token "\x7b" (start + 6) :: statements ++ [token "\x7d" (stop - 1)])]

/-- `M()?.L;` -/
def readStatement (start : UInt32) : Outline :=
  .node (.other "expression_statement") true none start (start + 7)
    [.node .conditionalAccessExpression true none start (start + 6)
      [.node .invocationExpression true (some .condition) start (start + 3)
        [letter (some .function) start,
          .node .argumentList true (some .arguments) (start + 1) (start + 3)
            [token "(" (start + 1), token ")" (start + 2)]],
        token "?" (start + 3),
        .node .memberBindingExpression true none (start + 4) (start + 6)
          [token "." (start + 4), letter (some .name) (start + 5)]],
      token ";" (start + 6)]

/-- `new A();` -/
def creationStatement (start : UInt32) : Outline :=
  .node (.other "expression_statement") true none start (start + 8)
    [.node .objectCreationExpression true none start (start + 7)
      [token "new" start, letter (some .type) (start + 4),
        .node .argumentList true (some .arguments) (start + 5) (start + 7)
          [token "(" (start + 5), token ")" (start + 6)]],
      token ";" (start + 7)]

/-- A named tree of the given kind, with a field. -/
def branch (kind : Kind) (field : Option Field) (children : List Tree) : Tree :=
  .node ⟨kind, true, field, 0, 0, ""⟩ children

/-- `F(...)` -/
def invocationOf (arguments : List Tree) : Tree :=
  branch .invocationExpression none
    [branch .identifier (some .function) [], branch .argumentList (some .arguments) arguments]

end ReleaseAudit.Source.Sample
