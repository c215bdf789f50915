import ReleaseAudit.Proofs.Declarations.Sites
import ReleaseAudit.Proofs.Inference.Trail

/-!
# Surroundings and trails

Surroundings are gathered from the top of a document down to a container, trails
from a container up to the top. In a regular document both find the same
namespace and the same types around; each gathers the directives of the levels
in its own order.
-/

namespace ReleaseAudit.Inference

set_option autoImplicit false

open Declarations (Surroundings TypeSite Usings childSites documentSites qualify topSurroundings
  typeParameters typeSites type_sites_eq)
open Source (Document Node)
open ReleaseAudit.Types (typeKey)

/-- The containers of a document that declarations are collected from, with what surrounds
each of them. -/
inductive Within (root : Node) : Surroundings → Node → Prop where
  | top : Within root (topSurroundings root) root
  | inNamespace {around : Surroundings} {container child name body : Node}
      (outer : Within root around container) (member : child ∈ container.parts)
      (kind : child.kind = .namespaceDeclaration) (named : child.declarationName? = some name)
      (found : child.body? = some body) : Within root (around.enterNamespace name body) body
  | inFileScoped {around : Surroundings} {container child : Node}
      (outer : Within root around container) (member : child ∈ container.parts)
      (kind : child.kind = .fileScopedNamespaceDeclaration) : Within root around child
  | inType {around : Surroundings} {container child name body : Node}
      (outer : Within root around container) (member : child ∈ container.parts)
      (kind : child.kind.isTypeDeclaration = true) (named : child.declarationName? = some name)
      (found : child.body? = some body) :
      Within root (around.enterType (around.site child name)) body

def Placed (root : Node) (site : TypeSite) : Prop :=
  ∃ around container name, Within root around container ∧ site.node ∈ container.parts ∧
    site.node.kind.isTypeDeclaration = true ∧ site.node.declarationName? = some name ∧
    site = around.site site.node name

theorem placed_of_mem_type_sites {root container : Node} {around : Surroundings}
    (within : Within root around container) {site : TypeSite}
    (member : site ∈ typeSites around container) : Placed root site := by
  rw [type_sites_eq] at member
  obtain ⟨child, inContainer, member⟩ := List.mem_flatMap.mp member
  have smaller := Node.size_lt_of_mem_children (Node.mem_children_of_mem_parts inContainer)
  unfold childSites at member
  split_ifs at member with isNamespace isFileScoped isType
  · split at member
    · next name body named found =>
        have := Nat.lt_trans (Declarations.size_lt_of_body found) smaller
        exact placed_of_mem_type_sites
          (within.inNamespace inContainer (eq_of_beq isNamespace) named found) member
    · cases member
  · exact placed_of_mem_type_sites (within.inFileScoped inContainer (eq_of_beq isFileScoped)) member
  · split at member
    · next name body named found =>
        rcases List.mem_cons.mp member with rfl | inBody
        · exact ⟨around, container, name, within, inContainer, isType, named, rfl⟩
        · have := Nat.lt_trans (Declarations.size_lt_of_body found) smaller
          exact placed_of_mem_type_sites (within.inType inContainer isType named found) inBody
    · next name named _ =>
        cases List.mem_singleton.mp member
        exact ⟨around, container, name, within, inContainer, isType, named, rfl⟩
    · cases member
  · cases member
termination_by container.tree.size

theorem placed_of_mem_document_sites {document : Document} {site : TypeSite}
    (member : site ∈ documentSites document) : Placed document.root site :=
  placed_of_mem_type_sites Within.top member

def declares (node : Node) : Bool :=
  node.kind == .namespaceDeclaration || node.kind.isTypeDeclaration

/-- Declarations around a node are named and have lists of declarations as bodies, and no
namespace stands in a type. -/
structure Regular (node : Node) : Prop where
  names : ∀ around ∈ node :: node.ancestors, declares around = true →
    ∀ name ∈ around.declarationName?, name.text.isEmpty = false
  bodies : ∀ around ∈ node :: node.ancestors, declares around = true →
    ∀ body ∈ around.body?, body.kind = .declarationList
  namespaces : ∀ around ∈ node :: node.ancestors, around.kind = .namespaceDeclaration →
    ∀ outer ∈ around.ancestors, outer.kind.isTypeDeclaration = false

theorem Regular.parent {node parent : Node} (regular : Regular node)
    (found : node.parent? = some parent) : Regular parent := by
  have above : ∀ around ∈ parent :: parent.ancestors, around ∈ node :: node.ancestors := by
    intro around member
    rw [Node.ancestors_of_parent found]
    exact List.mem_cons_of_mem node member
  exact ⟨fun around member => regular.names around (above around member),
    fun around member => regular.bodies around (above around member),
    fun around member => regular.namespaces around (above around member)⟩

instance (node : Node) : Decidable (Regular node) :=
  decidable_of_iff
    ((∀ around ∈ node :: node.ancestors, declares around = true →
        ∀ name ∈ around.declarationName?, name.text.isEmpty = false) ∧
      (∀ around ∈ node :: node.ancestors, declares around = true →
        ∀ body ∈ around.body?, body.kind = .declarationList) ∧
      ∀ around ∈ node :: node.ancestors, around.kind = .namespaceDeclaration →
        ∀ outer ∈ around.ancestors, outer.kind.isTypeDeclaration = false)
    ⟨fun ⟨names, bodies, namespaces⟩ => ⟨names, bodies, namespaces⟩,
      fun regular => ⟨regular.names, regular.bodies, regular.namespaces⟩⟩

/-- A compilation unit with at most one file-scoped namespace, and that one named. -/
structure RegularUnit (root : Node) : Prop where
  kind : root.kind = .compilationUnit
  single : (root.partsOf .fileScopedNamespaceDeclaration).length ≤ 1
  names : ∀ child ∈ root.partsOf .fileScopedNamespaceDeclaration,
    ∀ name ∈ child.declarationName?, name.text.isEmpty = false

instance (root : Node) : Decidable (RegularUnit root) :=
  decidable_of_iff
    (root.kind = .compilationUnit ∧
      (root.partsOf .fileScopedNamespaceDeclaration).length ≤ 1 ∧
      ∀ child ∈ root.partsOf .fileScopedNamespaceDeclaration,
        ∀ name ∈ child.declarationName?, name.text.isEmpty = false)
    ⟨fun ⟨kind, single, names⟩ => ⟨kind, single, names⟩,
      fun unit => ⟨unit.kind, unit.single, unit.names⟩⟩

theorem pass_of_namespace {child name body : Node} (kind : child.kind = .namespaceDeclaration)
    (named : child.declarationName? = some name) (found : child.body? = some body) :
    Trail.pass {} child = { usings := Usings.level body, namespaces := [name.text] } := by
  simp [Trail.pass, kind, found, Trail.addNamespaceName, named, Trail.addUsings, Usings.level]

theorem pass_of_type {child name : Node} (kind : child.kind.isTypeDeclaration = true)
    (named : child.declarationName? = some name) :
    Trail.pass {} child =
      { types := [(name.text, (typeParameters child).length)]
        typeParams := typeParameters child } := by
  unfold Trail.pass
  split <;> simp_all [Trail.addType, Source.Kind.isTypeDeclaration]

theorem pass_of_list {node : Node} (kind : node.kind = .declarationList) :
    Trail.pass {} node = {} := by
  simp [Trail.pass, kind, Source.Kind.isTypeDeclaration]

theorem pass_of_file_scoped {node : Node} (kind : node.kind = .fileScopedNamespaceDeclaration) :
    Trail.pass {} node = {} := by
  simp [Trail.pass, kind, Source.Kind.isTypeDeclaration]

def levelOf (node : Node) : List Usings :=
  if node.kind = .namespaceDeclaration then (node.body?.map Usings.level).toList else []

def levelsFrom (node : Node) : List Usings :=
  (node :: node.ancestors).flatMap levelOf

/-- Levels of a compilation unit and of its file-scoped namespaces. -/
def topLevels (root : Node) : List Usings :=
  Usings.level root :: (root.partsOf .fileScopedNamespaceDeclaration).map Usings.level

theorem levels_from_eq {node parent : Node} (found : node.parent? = some parent) :
    levelsFrom node = levelOf node ++ levelsFrom parent := by
  unfold levelsFrom
  rw [Node.ancestors_of_parent found, List.flatMap_cons]

theorem level_of_eq_nil {node : Node} (kind : node.kind ≠ .namespaceDeclaration) :
    levelOf node = [] :=
  if_neg kind

def nestedName (outerName : String) (types : List (String × Nat)) : String :=
  types.foldl (fun outerName type => qualify outerName type.1) outerName

theorem nested_keys_concat (outerName : String) (types : List (String × Nat)) (name : String)
    (arity : Nat) :
    Trail.nestedKeys outerName (types ++ [(name, arity)]) =
      Trail.nestedKeys outerName types ++
        [typeKey (qualify (nestedName outerName types) name) arity] := by
  induction types generalizing outerName with
  | nil => rfl
  | cons type rest ih => exact congrArg (List.cons _) (ih (qualify outerName type.1))

theorem nested_name_concat (outerName : String) (types : List (String × Nat)) (name : String)
    (arity : Nat) :
    nestedName outerName (types ++ [(name, arity)]) =
      qualify (nestedName outerName types) name := by
  simp [nestedName]

theorem is_empty_qualify {outerName name : String} (named : name.isEmpty = false) :
    (qualify outerName name).isEmpty = false := by
  unfold qualify
  split
  · exact named
  · simp_all

theorem intercalate_concat {names : List String} (name : String) (nonempty : names ≠ []) :
    String.intercalate "." (names ++ [name]) = String.intercalate "." names ++ "." ++ name := by
  induction names with
  | nil => exact absurd rfl nonempty
  | cons first rest ih =>
      cases rest with
      | nil => simp [String.intercalate_cons_cons]
      | cons second rest =>
          have later := ih (by simp)
          simp only [List.cons_append, String.intercalate_cons_cons] at later ⊢
          rw [later]
          simp only [String.append_assoc]

theorem is_empty_intercalate {names : List String} (nonempty : names ≠ [])
    (named : ∀ name ∈ names, name.isEmpty = false) :
    (String.intercalate "." names).isEmpty = false := by
  cases names with
  | nil => exact absurd rfl nonempty
  | cons first rest =>
      have kept := named first List.mem_cons_self
      cases rest with
      | nil => simpa using kept
      | cons second rest =>
          rw [String.intercalate_cons_cons]
          simp_all

theorem intercalate_eq_qualify {names : List String} (name : String)
    (named : ∀ name ∈ names, name.isEmpty = false) :
    String.intercalate "." (names ++ [name]) = qualify (String.intercalate "." names) name := by
  by_cases nonempty : names = []
  · subst nonempty
    simp [qualify]
  · rw [intercalate_concat name nonempty, qualify, is_empty_intercalate nonempty named]
    simp

/-- What surrounds a container, gathered on the way down, against the trail that its children
gather on the way up. -/
structure Matches (root : Node) (around : Surroundings) (container : Node) : Prop where
  named : ∀ name ∈ (trailFrom container).namespaces, name.isEmpty = false
  typed : (trailFrom container).types ≠ [] →
    ∃ outer ∈ container :: container.ancestors, outer.kind.isTypeDeclaration = true
  namespaceName : around.namespaceName =
    String.intercalate "." (trailFrom container).namespaces.reverse
  fullName : ∀ child name : Node, (around.site child name).fullName =
    qualify (nestedName around.namespaceName (trailFrom container).types.reverse) name.text
  untyped : (trailFrom container).types = [] → around.outerName = none
  outer : around.outer =
    Trail.nestedKeys around.namespaceName (trailFrom container).types.reverse
  down : around.usings = Usings.ofLevels (topLevels root ++ (levelsFrom container).reverse)
  up : (trailFrom container).usings = Usings.ofLevels (levelsFrom container ++ topLevels root)

def fileScopedNames (root : Node) : List String :=
  ((root.partsOf .fileScopedNamespaceDeclaration).filterMap Node.declarationName?).map Node.text

theorem foldl_add_file_scoped (scopes : List Node) (trail : Trail) :
    scopes.foldl Trail.addFileScoped trail =
      { trail with
        usings := trail.usings.append (Usings.ofLevels (scopes.map Usings.level))
        namespaces :=
          trail.namespaces ++ (scopes.filterMap Node.declarationName?).map Node.text } := by
  induction scopes generalizing trail with
  | nil => simp
  | cons child rest ih =>
      rw [List.foldl_cons, ih]
      cases spelled : child.declarationName? <;>
        simp [Trail.addFileScoped, Trail.addNamespaceName, Trail.addUsings, Usings.add_from_eq,
          Usings.append_assoc, spelled]

theorem trail_from_top {root : Node} (above : root.ancestors = []) (unit : RegularUnit root) :
    trailFrom root =
      { usings := Usings.ofLevels (topLevels root), namespaces := fileScopedNames root } := by
  have passed : trailFrom root =
      (root.partsOf .fileScopedNamespaceDeclaration).foldl Trail.addFileScoped
        (Trail.addUsings {} root) := by
    unfold trailFrom Trail.pass
    rw [above, List.foldl_cons, List.foldl_nil, unit.kind]
    rfl
  rw [passed, foldl_add_file_scoped]
  simp [Trail.addUsings, topLevels, fileScopedNames, Usings.level]

theorem top_surroundings_eq {root : Node} (unit : RegularUnit root) :
    topSurroundings root =
      ⟨String.intercalate "." (fileScopedNames root).reverse, none, [],
        Usings.ofLevels (topLevels root)⟩ := by
  have single := unit.single
  unfold topSurroundings topLevels fileScopedNames
  generalize root.partsOf .fileScopedNamespaceDeclaration = scopes at single ⊢
  match scopes with
  | [] => simp [Usings.level]
  | [child] => cases spelled : child.declarationName? <;> simp [Usings.add_from_eq, spelled]
  | _ :: _ :: _ => simp at single

theorem matches_top {root : Node} (above : root.ancestors = []) (unit : RegularUnit root) :
    Matches root (topSurroundings root) root := by
  have notNamespace : root.kind ≠ .namespaceDeclaration := by simp [unit.kind]
  have levels : levelsFrom root = [] := by
    simp [levelsFrom, above, level_of_eq_nil notNamespace]
  have trail := trail_from_top above unit
  rw [top_surroundings_eq unit]
  constructor
  case named =>
    intro name member
    rw [trail] at member
    obtain ⟨spelled, inScopes, rfl⟩ := List.mem_map.mp member
    obtain ⟨child, inUnit, found⟩ := List.mem_filterMap.mp inScopes
    exact unit.names child inUnit spelled found
  all_goals simp [trail, levels, nestedName, Trail.nestedKeys, Surroundings.site]

section Steps

variable {root container child : Node} {around : Surroundings}

theorem trail_from_body {body : Node} (member : child ∈ container.parts)
    (found : child.body? = some body) (kind : body.kind = .declarationList) :
    trailFrom body = (Trail.pass {} child).append (trailFrom container) := by
  rw [trail_from_eq (Node.parent_of_body found), pass_of_list kind,
    trail_from_eq (Node.parent_of_mem_parts member)]
  simp [Trail.append]

theorem levels_from_body {body : Node} (member : child ∈ container.parts)
    (found : child.body? = some body) (kind : body.kind = .declarationList) :
    levelsFrom body = levelOf child ++ levelsFrom container := by
  have notNamespace : body.kind ≠ .namespaceDeclaration := by simp [kind]
  rw [levels_from_eq (Node.parent_of_body found), level_of_eq_nil notNamespace,
    levels_from_eq (Node.parent_of_mem_parts member), List.nil_append]

theorem ancestors_body {body : Node} (member : child ∈ container.parts)
    (found : child.body? = some body) :
    body.ancestors = child :: container :: container.ancestors := by
  rw [Node.ancestors_of_parent (Node.parent_of_body found),
    Node.ancestors_of_parent (Node.parent_of_mem_parts member)]

theorem Matches.enter_namespace {name body : Node} (matched : Matches root around container)
    (regular : Regular child) (member : child ∈ container.parts)
    (kind : child.kind = .namespaceDeclaration) (named : child.declarationName? = some name)
    (found : child.body? = some body) : Matches root (around.enterNamespace name body) body := by
  have declaring : declares child = true := by simp [declares, kind]
  have isList := regular.bodies child List.mem_cons_self declaring body found
  have above := Node.ancestors_of_parent (Node.parent_of_mem_parts member)
  have trail := trail_from_body member found isList
  rw [pass_of_namespace kind named found] at trail
  have levels := levels_from_body member found isList
  have own : levelOf child = [Usings.level body] := by simp [levelOf, kind, found]
  rw [own] at levels
  -- A type on the trail would be an ancestor of the namespace.
  have untyped : (trailFrom container).types = [] := by
    by_contra typed
    obtain ⟨outer, inOuter, isType⟩ := matched.typed typed
    have excluded := regular.namespaces child List.mem_cons_self kind outer (above ▸ inOuter)
    rw [isType] at excluded
    cases excluded
  have outerName := matched.untyped untyped
  have namespaceName : (around.enterNamespace name body).namespaceName =
      String.intercalate "." (trailFrom body).namespaces.reverse := by
    rw [trail]
    simp only [Trail.append, List.singleton_append, List.reverse_cons]
    rw [intercalate_eq_qualify name.text (by simpa using matched.named), ← matched.namespaceName]
    rfl
  constructor
  case named =>
    intro spelled inTrail
    rw [trail] at inTrail
    rcases List.mem_cons.mp inTrail with rfl | old
    · exact regular.names child List.mem_cons_self declaring name named
    · exact matched.named spelled old
  case namespaceName => exact namespaceName
  case typed =>
    intro typed
    rw [trail] at typed
    exact absurd untyped typed
  case fullName =>
    intro node spelled
    rw [trail]
    simp [Surroundings.site, Surroundings.enterNamespace, outerName, Trail.append, untyped,
      nestedName]
  case untyped => exact fun _ => outerName
  case outer =>
    rw [trail]
    have bare := matched.outer
    rw [untyped] at bare
    simpa [Surroundings.enterNamespace, Trail.append, untyped, Trail.nestedKeys] using bare
  case down =>
    have entered : (around.enterNamespace name body).usings =
        around.usings.append (Usings.level body) := Usings.add_from_eq around.usings body
    rw [entered, levels, matched.down]
    simp [Usings.append_assoc]
  case up =>
    rw [trail, levels]
    simp [Trail.append, matched.up]

theorem Matches.enter_file_scoped (matched : Matches root around container)
    (member : child ∈ container.parts) (kind : child.kind = .fileScopedNamespaceDeclaration) :
    Matches root around child := by
  have parent := Node.parent_of_mem_parts member
  have notNamespace : child.kind ≠ .namespaceDeclaration := by simp [kind]
  have trail : trailFrom child = trailFrom container := by
    rw [trail_from_eq parent, pass_of_file_scoped kind]
    simp [Trail.append]
  have levels : levelsFrom child = levelsFrom container := by
    rw [levels_from_eq parent, level_of_eq_nil notNamespace, List.nil_append]
  constructor
  case named => exact trail ▸ matched.named
  case typed =>
    intro typed
    obtain ⟨outer, inOuter, isType⟩ := matched.typed (trail ▸ typed)
    exact ⟨outer, List.mem_cons_of_mem child (Node.ancestors_of_parent parent ▸ inOuter), isType⟩
  case namespaceName => exact trail ▸ matched.namespaceName
  case fullName => exact trail ▸ matched.fullName
  case untyped => exact trail ▸ matched.untyped
  case outer => exact trail ▸ matched.outer
  case down => exact levels ▸ matched.down
  case up => exact (trail ▸ levels ▸ matched.up :)

theorem Matches.enter_type {name body : Node} (matched : Matches root around container)
    (regular : Regular child) (member : child ∈ container.parts)
    (kind : child.kind.isTypeDeclaration = true) (named : child.declarationName? = some name)
    (found : child.body? = some body) :
    Matches root (around.enterType (around.site child name)) body := by
  have declaring : declares child = true := by simp [declares, kind]
  have isList := regular.bodies child List.mem_cons_self declaring body found
  have nonempty := regular.names child List.mem_cons_self declaring name named
  have notNamespace : child.kind ≠ .namespaceDeclaration := by
    intro same
    simp [same, Source.Kind.isTypeDeclaration] at kind
  have trail := trail_from_body member found isList
  rw [pass_of_type kind named] at trail
  have levels := levels_from_body member found isList
  rw [level_of_eq_nil notNamespace, List.nil_append] at levels
  have types : (trailFrom body).types.reverse =
      (trailFrom container).types.reverse ++ [(name.text, (typeParameters child).length)] := by
    simp [trail, Trail.append]
  have fullName := matched.fullName child name
  constructor
  case named => simpa [trail, Trail.append] using matched.named
  case typed =>
    intro _
    exact ⟨child, by simp [ancestors_body member found], kind⟩
  case namespaceName =>
    simpa [trail, Trail.append, Surroundings.enterType] using matched.namespaceName
  case fullName =>
    intro node spelled
    have outerName : nestedName around.namespaceName (trailFrom body).types.reverse =
        (around.site child name).fullName := by
      rw [types, nested_name_concat, fullName]
    have covered : (around.site child name).fullName.isEmpty = false := by
      rw [fullName]
      exact is_empty_qualify nonempty
    have entered : (around.enterType (around.site child name)).namespaceName =
        around.namespaceName := rfl
    rw [entered, outerName, qualify, covered]
    simp [Surroundings.enterType, Surroundings.site]
  case untyped =>
    intro none
    simp [trail, Trail.append] at none
  case outer =>
    have key : (around.site child name).key =
        typeKey (qualify (nestedName around.namespaceName (trailFrom container).types.reverse)
          name.text) (typeParameters child).length := by
      rw [← fullName]
      rfl
    have entered : (around.enterType (around.site child name)).outer =
        around.outer ++ [(around.site child name).key] := rfl
    rw [entered, types, matched.outer, key]
    exact (nested_keys_concat _ _ _ _).symm
  case down => exact levels ▸ matched.down
  case up => simpa [trail, levels, Trail.append] using matched.up

end Steps

/-- On the way to any container of a regular document, what is gathered downward matches what is
gathered upward. -/
theorem matches_of_within {root container : Node} {around : Surroundings}
    (above : root.ancestors = []) (unit : RegularUnit root) (within : Within root around container)
    (regular : Regular container) : Matches root around container := by
  induction within with
  | top => exact matches_top above unit
  | inNamespace outer member kind named found ih =>
      have around := regular.parent (Node.parent_of_body found)
      exact (ih (around.parent (Node.parent_of_mem_parts member))).enter_namespace around member
        kind named found
  | inFileScoped outer member kind ih =>
      exact (ih (regular.parent (Node.parent_of_mem_parts member))).enter_file_scoped member kind
  | inType outer member kind named found ih =>
      have around := regular.parent (Node.parent_of_body found)
      exact (ih (around.parent (Node.parent_of_mem_parts member))).enter_type around member
        kind named found

end ReleaseAudit.Inference
