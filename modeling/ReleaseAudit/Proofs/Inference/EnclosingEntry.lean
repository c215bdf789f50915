import Mathlib.Data.List.Induction
import ReleaseAudit.Proofs.Declarations.Designation
import ReleaseAudit.Proofs.Declarations.Supertypes
import ReleaseAudit.Proofs.Inference.ScopeAgreement
import ReleaseAudit.Proofs.Source.Argument

/-!
# From a node to the entry of the type around it

The key of a type is made twice: from the outside in when its declaration is
entered, and from the inside out at every node in it. In a regular file both
ways give the same keys, so every node leads to the entry of the type that it
stands in.
-/

namespace ReleaseAudit.Source

set_option autoImplicit false

def Node.allBelow (node : Node) : List Node :=
  node :: node.children.attach.flatMap fun entry =>
    have := Node.size_lt_of_mem_children entry.property
    entry.val.allBelow
termination_by node.tree.size

namespace Node

theorem all_below_eq (node : Node) : node.allBelow = node :: node.children.flatMap allBelow := by
  rw [allBelow]
  conv_rhs => rw [← List.attach_map_subtype_val node.children]
  rw [List.flatMap_map]

theorem mem_all_below_self (node : Node) : node ∈ node.allBelow := by
  rw [all_below_eq]
  exact List.mem_cons_self

theorem mem_all_below_of_mem_children {root node child : Node} (inside : node ∈ root.allBelow)
    (member : child ∈ node.children) : child ∈ root.allBelow := by
  rw [all_below_eq] at inside ⊢
  apply List.mem_cons_of_mem
  rcases List.mem_cons.mp inside with rfl | below
  · exact List.mem_flatMap.mpr ⟨child, member, child.mem_all_below_self⟩
  · obtain ⟨first, inRoot, inFirst⟩ := List.mem_flatMap.mp below
    have := size_lt_of_mem_children inRoot
    exact List.mem_flatMap.mpr ⟨first, inRoot, mem_all_below_of_mem_children inFirst member⟩
termination_by root.tree.size

theorem mem_all_below_root (node : Node) : node ∈ (root node.top).allBelow := by
  obtain ⟨tree, above, linked⟩ := node
  induction above generalizing tree with
  | nil => exact mem_all_below_self _
  | cons frame above ih =>
      have isParent : parent? ⟨tree, frame :: above, linked⟩ =
          some ⟨frame.parent, above, linked.2⟩ := rfl
      exact mem_all_below_of_mem_children (ih frame.parent linked.2)
        (mem_children_of_parent isParent)

/-- Around an enclosing node stand the nodes that come after it on the way up. -/
theorem ancestors_of_split {node outer : Node} {between further : List Node}
    (split : node.ancestors = between ++ outer :: further) : further = outer.ancestors := by
  obtain ⟨tree, above, linked⟩ := node
  induction above generalizing tree between with
  | nil =>
      have nothing : [] = between ++ outer :: further := split
      simp at nothing
  | cons frame above ih =>
      have up : (⟨frame.parent, above, linked.2⟩ : Node) ::
          ancestors ⟨frame.parent, above, linked.2⟩ = between ++ outer :: further := split
      cases between with
      | nil =>
          obtain ⟨rfl, rest⟩ := List.cons.inj up
          exact rest.symm
      | cons first between => exact ih frame.parent linked.2 (List.cons.inj up).2

end Node

namespace Document

def nodes (document : Document) : List Node :=
  document.root.allBelow

theorem mem_nodes {document : Document} {node : Node} (inTree : node.top = document.tree) :
    node ∈ document.nodes := by
  have below := node.mem_all_below_root
  rw [inTree] at below
  exact below

end Document

def Kind.isNamespace (kind : Kind) : Bool :=
  kind == .namespaceDeclaration || kind == .fileScopedNamespaceDeclaration

end ReleaseAudit.Source

namespace ReleaseAudit.Inference

set_option autoImplicit false

open Declarations (Catalog Index Surroundings TypeDecl TypeSite documentSites qualify
  typeParameters)
open Source (Document Node)
open Source.Sample (body classWith letter methodWith namespaceWith token unit)
open ReleaseAudit.Types (IsName isPlain typeKey)

/-- A compilation unit with at most one file-scoped namespace, no namespace in a type, and no
empty name of a namespace or type. -/
structure RegularFile (document : Document) : Prop where
  kind : document.root.kind = .compilationUnit
  single : (document.root.partsOf .fileScopedNamespaceDeclaration).length ≤ 1
  namespaces : ∀ node ∈ document.nodes, node.kind.isNamespace = true →
    ∀ outer ∈ node.ancestors, outer.kind.isTypeDeclaration = false
  names : ∀ node ∈ document.nodes,
    (node.kind.isNamespace || node.kind.isTypeDeclaration) = true →
    ∀ name ∈ node.declarationName?, name.text.isEmpty = false

/-- What the grammar says of declarations: their members stand in a list of declarations, and
the name of a type is an identifier, which has no mark of arity. -/
structure Grammatical (document : Document) : Prop where
  bodies : ∀ node ∈ document.nodes, declares node = true →
    ∀ body ∈ node.body?, body.kind = .declarationList
  typeNames : ∀ node ∈ document.nodes, node.kind.isTypeDeclaration = true →
    ∀ name ∈ node.declarationName?, isPlain name.text = true

instance (document : Document) : Decidable (RegularFile document) :=
  decidable_of_iff
    (document.root.kind = .compilationUnit ∧
      (document.root.partsOf .fileScopedNamespaceDeclaration).length ≤ 1 ∧
      (∀ node ∈ document.nodes, node.kind.isNamespace = true →
        ∀ outer ∈ node.ancestors, outer.kind.isTypeDeclaration = false) ∧
      ∀ node ∈ document.nodes, (node.kind.isNamespace || node.kind.isTypeDeclaration) = true →
        ∀ name ∈ node.declarationName?, name.text.isEmpty = false)
    ⟨fun ⟨kind, single, namespaces, names⟩ => ⟨kind, single, namespaces, names⟩,
      fun regular => ⟨regular.kind, regular.single, regular.namespaces, regular.names⟩⟩

instance (document : Document) : Decidable (Grammatical document) :=
  decidable_of_iff
    ((∀ node ∈ document.nodes, declares node = true →
        ∀ body ∈ node.body?, body.kind = .declarationList) ∧
      ∀ node ∈ document.nodes, node.kind.isTypeDeclaration = true →
        ∀ name ∈ node.declarationName?, isPlain name.text = true)
    ⟨fun ⟨bodies, typeNames⟩ => ⟨bodies, typeNames⟩,
      fun grammatical => ⟨grammatical.bodies, grammatical.typeNames⟩⟩

section File

variable {document : Document}

theorem RegularFile.regular_unit (regular : RegularFile document) :
    RegularUnit document.root where
  kind := regular.kind
  single := regular.single
  names child member := by
    obtain ⟨inParts, kind⟩ := List.mem_filter.mp member
    have isScoped : child.kind = .fileScopedNamespaceDeclaration := eq_of_beq kind
    have listed : child ∈ document.nodes := Document.mem_nodes (Node.top_of_mem_parts inParts)
    exact regular.names child listed (by simp [isScoped, Source.Kind.isNamespace])

theorem RegularFile.regular_node (regular : RegularFile document)
    (grammatical : Grammatical document) {node : Node} (inTree : node.top = document.tree) :
    Regular node := by
  have listed : ∀ around ∈ node :: node.ancestors, around ∈ document.nodes := by
    intro around member
    apply Document.mem_nodes
    rcases List.mem_cons.mp member with rfl | above
    · exact inTree
    · exact (Node.top_of_mem_ancestors above).trans inTree
  constructor
  case names =>
    intro around member declaring
    apply regular.names around (listed around member)
    simp only [declares, Bool.or_eq_true, beq_iff_eq] at declaring
    rcases declaring with isNamespace | isType
    · simp [isNamespace, Source.Kind.isNamespace]
    · simp [isType]
  case bodies => exact fun around member => grammatical.bodies around (listed around member)
  case namespaces =>
    intro around member isNamespace
    apply regular.namespaces around (listed around member)
    simp [isNamespace, Source.Kind.isNamespace]

theorem exists_between {node type : Node} (inside : node.enclosingType? = some type) :
    ∃ between, node.ancestors = between ++ type :: type.ancestors ∧
      (∀ ancestor ∈ between, ancestor.kind.isTypeDeclaration = false) ∧
      type.kind.isTypeDeclaration = true := by
  obtain ⟨isType, between, further, split, passed⟩ := List.find?_eq_some_iff_append.mp inside
  cases Node.ancestors_of_split split
  exact ⟨between, split, fun ancestor member => by simpa using passed ancestor member, isType⟩

/-- The nodes between a node and the type around it add neither namespaces nor types. -/
theorem pass_between (regular : RegularFile document) {type ancestor : Node}
    (inTree : ancestor.top = document.tree) (inside : type ∈ ancestor.ancestors)
    (isType : type.kind.isTypeDeclaration = true)
    (notType : ancestor.kind.isTypeDeclaration = false) :
    (Trail.pass {} ancestor).namespaces = [] ∧ (Trail.pass {} ancestor).types = [] := by
  have outside : ∀ node : Node, node.top = document.tree → node.kind.isNamespace = true →
      type ∉ node.ancestors := by
    intro node inNodes isNamespace above
    have excluded := regular.namespaces node (Document.mem_nodes inNodes) isNamespace type above
    rw [isType] at excluded
    cases excluded
  unfold Trail.pass
  split
  · next kind =>
      have isNamespace : ancestor.kind.isNamespace = true := by
        simp [kind, Source.Kind.isNamespace]
      exact absurd inside (outside ancestor inTree isNamespace)
  · have bare : ancestor.partsOf .fileScopedNamespaceDeclaration = [] := by
      apply List.eq_nil_iff_forall_not_mem.mpr
      intro child member
      obtain ⟨inParts, kind⟩ := List.mem_filter.mp member
      have isScoped : child.kind = .fileScopedNamespaceDeclaration := eq_of_beq kind
      refine outside child ((Node.top_of_mem_parts inParts).trans inTree)
        (by simp [isScoped, Source.Kind.isNamespace]) ?_
      rw [Node.ancestors_of_parent (Node.parent_of_mem_parts inParts)]
      exact List.mem_cons_of_mem ancestor inside
    rw [bare]
    exact ⟨rfl, rfl⟩
  · exact ⟨rfl, rfl⟩
  · exact ⟨rfl, rfl⟩
  · rw [if_neg (by simp [notType])]
    exact ⟨rfl, rfl⟩

theorem foldl_pass_bare {nodes : List Node}
    (bare : ∀ node ∈ nodes,
      (Trail.pass {} node).namespaces = [] ∧ (Trail.pass {} node).types = []) :
    (nodes.foldl Trail.pass {}).namespaces = [] ∧ (nodes.foldl Trail.pass {}).types = [] := by
  induction nodes with
  | nil => exact ⟨rfl, rfl⟩
  | cons node rest ih =>
      obtain ⟨noNamespaces, noTypes⟩ := bare node List.mem_cons_self
      obtain ⟨restNamespaces, restTypes⟩ := ih fun other member =>
        bare other (List.mem_cons_of_mem node member)
      rw [List.foldl_cons, Trail.foldl_eq_append Trail.pass_eq]
      simp [Trail.append, noNamespaces, noTypes, restNamespaces, restTypes]

/-- Namespaces and types around a node are those that the members of its type see. -/
theorem trail_of_enclosing_type (regular : RegularFile document) {node type : Node}
    (inTree : node.top = document.tree) (inside : node.enclosingType? = some type) :
    (node.ancestors.foldl Trail.pass {}).namespaces = (trailFrom type).namespaces ∧
      (node.ancestors.foldl Trail.pass {}).types = (trailFrom type).types := by
  obtain ⟨between, split, passed, isType⟩ := exists_between inside
  have bare : ∀ ancestor ∈ between,
      (Trail.pass {} ancestor).namespaces = [] ∧ (Trail.pass {} ancestor).types = [] := by
    intro ancestor member
    obtain ⟨before, after, listed⟩ := List.append_of_mem member
    have further : node.ancestors = before ++ ancestor :: (after ++ type :: type.ancestors) := by
      rw [split, listed]
      simp
    have above : ancestor ∈ node.ancestors := by simp [further]
    have around : type ∈ ancestor.ancestors := by simp [← Node.ancestors_of_split further]
    exact pass_between regular ((Node.top_of_mem_ancestors above).trans inTree) around isType
      (passed ancestor member)
  obtain ⟨noNamespaces, noTypes⟩ := foldl_pass_bare bare
  rw [split, List.foldl_append, Trail.foldl_eq_append Trail.pass_eq]
  simp [Trail.append, trailFrom, noNamespaces, noTypes]

end File

theorem top_of_within {root container : Node} {around : Surroundings}
    (within : Within root around container) : container.top = root.top := by
  induction within with
  | top => rfl
  | inNamespace _ member _ _ found ih | inType _ member _ _ found ih =>
      exact (Node.top_of_parent (Node.parent_of_body found)).trans
        ((Node.top_of_mem_parts member).trans ih)
  | inFileScoped _ member _ ih => exact (Node.top_of_mem_parts member).trans ih

/-- What is gathered downward to a container names the types declared in it as they are named
upward from inside of them. -/
theorem Matches.scope_in_type {root container child name : Node} {around : Surroundings}
    (matched : Matches root around container) (member : child ∈ container.parts)
    (kind : child.kind.isTypeDeclaration = true) (named : child.declarationName? = some name) :
    (trailFrom child).namespaces = (trailFrom container).namespaces ∧
    Trail.nestedKeys around.namespaceName (trailFrom child).types.reverse =
      around.outer ++ [(around.site child name).key] ∧
    nestedName around.namespaceName (trailFrom child).types.reverse =
      (around.site child name).fullName := by
  have trail := trail_from_eq (Node.parent_of_mem_parts member)
  rw [pass_of_type kind named] at trail
  have types : (trailFrom child).types.reverse =
      (trailFrom container).types.reverse ++ [(name.text, (typeParameters child).length)] := by
    simp [trail, Trail.append]
  have fullName := matched.fullName child name
  refine ⟨by simp [trail, Trail.append], ?_, ?_⟩
  · have key : (around.site child name).key =
        typeKey (around.site child name).fullName (typeParameters child).length := rfl
    rw [types, nested_keys_concat, ← matched.outer, ← fullName, key]
  · rw [types, nested_name_concat, fullName]

theorem top_of_mem_document_sites {document : Document} {site : TypeSite}
    (inSites : site ∈ documentSites document) : site.node.top = document.tree := by
  obtain ⟨_, container, _, within, inContainer, -⟩ := placed_of_mem_document_sites inSites
  exact (Node.top_of_mem_parts inContainer).trans (top_of_within within)

theorem top_of_enclosing_type {node type : Node} (inside : node.enclosingType? = some type) :
    node.top = type.top :=
  (Node.top_of_mem_ancestors (List.mem_of_find?_eq_some inside)).symm

/-- The scope at a node has the namespace and the keys with which the type around it was
entered, and the names on the way make up the full name of that type. -/
theorem scope_at_of_enclosing_type {document : Document} (regular : RegularFile document)
    (grammatical : Grammatical document) {site : TypeSite}
    (inSites : site ∈ documentSites document) {node : Node}
    (inside : node.enclosingType? = some site.node) :
    (scopeAt node).namespaceName = site.namespaceName ∧
    (scopeAt node).enclosingTypes = site.outer ++ [site.key] ∧
    nestedName site.namespaceName (node.ancestors.foldl Trail.pass {}).types.reverse =
      site.fullName := by
  obtain ⟨around, container, name, within, inContainer, isType, named, placed⟩ :=
    placed_of_mem_document_sites inSites
  have nodeTop := (top_of_enclosing_type inside).trans (top_of_mem_document_sites inSites)
  have matched := matches_of_within rfl regular.regular_unit within
    (regular.regular_node grammatical (top_of_within within))
  obtain ⟨namespaces, types⟩ := trail_of_enclosing_type regular nodeTop inside
  obtain ⟨sameNamespaces, keys, fullName⟩ := matched.scope_in_type inContainer isType named
  have ownNamespace : site.namespaceName = around.namespaceName :=
    congrArg TypeSite.namespaceName placed
  have ownOuter : site.outer = around.outer := congrArg TypeSite.outer placed
  rw [← placed] at keys fullName
  have namespaceName : (scopeAt node).namespaceName = site.namespaceName := by
    rw [ownNamespace, matched.namespaceName, ← sameNamespaces, ← namespaces]
    rfl
  have enclosingTypes : (scopeAt node).enclosingTypes =
      Trail.nestedKeys (scopeAt node).namespaceName
        (node.ancestors.foldl Trail.pass {}).types.reverse := rfl
  rw [enclosingTypes, namespaceName, types, ownNamespace, ownOuter, keys]
  exact ⟨rfl, rfl, fullName⟩

def typeName? (node : Node) : Option String :=
  if node.kind.isTypeDeclaration then node.declarationName?.map Node.text else none

def enclosingNames (node : Node) : List String :=
  (node.ancestors.filterMap typeName?).reverse

theorem types_pass (ancestor : Node) :
    (Trail.pass {} ancestor).types.map Prod.fst = (typeName? ancestor).toList := by
  by_cases isType : ancestor.kind.isTypeDeclaration = true
  · cases named : ancestor.declarationName? with
    | some name => simp [pass_of_type isType named, typeName?, isType, named]
    | none =>
        have passed : Trail.pass {} ancestor = Trail.addType {} ancestor := by
          unfold Trail.pass
          split <;> simp_all [Source.Kind.isTypeDeclaration]
        simp [passed, Trail.addType, typeName?, named]
  · have nothing : typeName? ancestor = none := if_neg isType
    rw [nothing]
    unfold Trail.pass
    split
    · split <;> rfl
    · have kept : ∀ (children : List Node) (trail : Trail),
          (children.foldl Trail.addFileScoped trail).types = trail.types := by
        intro children trail
        rw [foldl_add_file_scoped]
      exact congrArg (List.map Prod.fst) (kept _ (Trail.addUsings {} ancestor))
    · rfl
    · rfl
    · rw [if_neg isType]
      rfl

theorem types_foldl_pass (nodes : List Node) :
    (nodes.foldl Trail.pass {}).types.map Prod.fst = nodes.filterMap typeName? := by
  induction nodes with
  | nil => rfl
  | cons node rest ih =>
      rw [List.foldl_cons, Trail.foldl_eq_append Trail.pass_eq]
      simp only [Trail.append, List.map_append, types_pass, ih, List.filterMap_cons]
      cases typeName? node <;> rfl

/-- A qualified name as the dots join it: the namespace, unless it is empty, and the names. -/
def joined (namespaceName : String) (names : List String) : String :=
  String.intercalate "." ((if namespaceName.isEmpty then [] else [namespaceName]) ++ names)

theorem nested_name_eq_joined (namespaceName : String) {types : List (String × Nat)}
    (named : ∀ name ∈ types.map Prod.fst, name.isEmpty = false) :
    nestedName namespaceName types = joined namespaceName (types.map Prod.fst) := by
  induction types using List.reverseRecOn with
  | nil =>
      unfold joined nestedName
      cases empty : namespaceName.isEmpty with
      | true => simp [String.isEmpty_iff.mp empty]
      | false => simp
  | append_singleton types last ih =>
      obtain ⟨name, arity⟩ := last
      have before : ∀ other ∈ types.map Prod.fst, other.isEmpty = false := fun other member =>
        named other (by rw [List.map_append]; exact List.mem_append_left _ member)
      have covered : ∀ other ∈ (if namespaceName.isEmpty then [] else [namespaceName]) ++
          types.map Prod.fst, other.isEmpty = false := by
        intro other member
        rcases List.mem_append.mp member with isNamespace | inTypes
        · split at isNamespace
          · cases isNamespace
          · next nonempty =>
              rw [List.mem_singleton.mp isNamespace]
              simpa using nonempty
        · exact before other inTypes
      have join := intercalate_eq_qualify name covered
      rw [nested_name_concat, ih before, joined, joined, ← join]
      simp

theorem is_name_of_mem_document_sites {document : Document} (grammatical : Grammatical document)
    {site : TypeSite} (inSites : site ∈ documentSites document) : IsName site.fullName := by
  obtain ⟨around, container, name, within, inContainer, isType, named, placed⟩ :=
    placed_of_mem_document_sites inSites
  have listed : site.node ∈ document.nodes :=
    Document.mem_nodes (top_of_mem_document_sites inSites)
  rw [placed]
  exact around.is_name_site site.node (grammatical.typeNames site.node listed isType name named)

/-- Every site leads to an entry under its key, and that entry has the full name of the site. -/
theorem exists_entry (settings : Settings) {documents : List Document} {document : Document}
    (grammatical : ∀ other ∈ documents, Grammatical other) (inDocuments : document ∈ documents)
    {site : TypeSite} (inSites : site ∈ documentSites document) :
    ∃ decl, (indexOf (Catalog.ofSettings settings) documents).get? site.key = some decl ∧
      decl.fullName = site.fullName := by
  have isName := is_name_of_mem_document_sites (grammatical document inDocuments) inSites
  have heading := Index.heading_at_add_documents (Catalog.ofSettings settings).toIndex documents
    site.key
  have entered : ∃ header, ((Catalog.ofSettings settings).toIndex.addDocuments
      documents).headingAt? site.key = some header ∧ header.fullName = site.fullName := by
    rw [heading]
    cases known : (Catalog.ofSettings settings).toIndex.headingAt? site.key with
    | some header =>
        obtain ⟨entry, found, rfl⟩ := Option.map_eq_some_iff.mp known
        have regular := (Catalog.regular_to_index settings).get found
        have keys : typeKey entry.fullName entry.typeParams.length =
            typeKey site.fullName site.ownParams.length :=
          regular.key.symm.trans (Index.key_of_get found)
        exact ⟨entry.heading, rfl, Types.type_key_name_inj regular.isName isName keys⟩
    | none =>
        cases first : documents.findSome? fun other => Declarations.headerIn? other site.key with
        | none =>
            have absent := List.findSome?_eq_none_iff.mp first document inDocuments
            have missed := List.find?_eq_none.mp (Option.map_eq_none_iff.mp absent) site inSites
            simp at missed
        | some header =>
            obtain ⟨other, inOther, found⟩ := List.exists_of_findSome?_eq_some first
            obtain ⟨again, isFirst, rfl⟩ := Option.map_eq_some_iff.mp found
            have sameKey : site.key = again.key := by simpa using List.find?_some isFirst
            have againName := is_name_of_mem_document_sites (grammatical other inOther)
              (List.mem_of_find?_eq_some isFirst)
            exact ⟨_, rfl, Types.type_key_name_inj againName isName sameKey.symm⟩
  obtain ⟨header, isHeader, fullName⟩ := entered
  obtain ⟨entry, found, rfl⟩ := Option.map_eq_some_iff.mp isHeader
  have final := Index.get_finalize
    ((Catalog.ofSettings settings).toIndex.addDocuments documents) site.key
  rw [found] at final
  exact ⟨_, final, fullName⟩

theorem exists_site_of_mem_outer {known : List String} {sites : List TypeSite}
    (closed : Declarations.Closed known sites) {site : TypeSite} (inSites : site ∈ sites)
    {key : String} (outer : key ∈ site.outer) :
    key ∈ known ∨ ∃ other ∈ sites, other.key = key := by
  induction sites generalizing known with
  | nil => cases inSites
  | cons first rest ih =>
      rcases List.mem_cons.mp inSites with rfl | later
      · exact Or.inl (closed.1 key outer)
      · rcases ih closed.2 later with inKnown | ⟨other, inRest, same⟩
        · rcases List.mem_cons.mp inKnown with rfl | old
          · exact Or.inr ⟨first, List.mem_cons_self, rfl⟩
          · exact Or.inl old
        · exact Or.inr ⟨other, List.mem_cons_of_mem first inRest, same⟩

/-- A node leads to the entry of the type around it. Its scope has the namespace and the keys,
outermost first, with which that type was entered. Each of these keys has an entry, and the last
one is that of the type, named by the namespace, the types around and the type itself. -/
theorem scope_at_enclosing_entry (settings : Settings) (documents : List Document)
    (document : Document) (inDocuments : document ∈ documents) (regular : RegularFile document)
    (grammatical : ∀ other ∈ documents, Grammatical other) (site : TypeSite)
    (inSites : site ∈ documentSites document) (node : Node)
    (inside : node.enclosingType? = some site.node) :
    (∀ index : Index,
      (scopeAt node).namespaceName = (site.toDecl index).scope.namespaceName ∧
      (scopeAt node).enclosingTypes = (site.toDecl index).scope.enclosingTypes) ∧
    (∀ key ∈ (scopeAt node).enclosingTypes,
      ((indexOf (Catalog.ofSettings settings) documents).get? key).isSome = true) ∧
    ∃ decl, (scopeAt node).enclosingTypes.getLast? = some site.key ∧
      (indexOf (Catalog.ofSettings settings) documents).get? site.key = some decl ∧
      decl.fullName = joined (scopeAt node).namespaceName (enclosingNames node) := by
  have own := grammatical document inDocuments
  obtain ⟨namespaceName, enclosingTypes, fullName⟩ :=
    scope_at_of_enclosing_type regular own inSites inside
  refine ⟨fun index => ⟨namespaceName, enclosingTypes⟩, ?_, ?_⟩
  · intro key member
    rw [enclosingTypes] at member
    rcases List.mem_append.mp member with outer | isOwn
    · rcases exists_site_of_mem_outer (Declarations.closed_document_sites document []) inSites
        outer with none | ⟨other, inOther, rfl⟩
      · cases none
      · obtain ⟨decl, found, -⟩ := exists_entry settings grammatical inDocuments inOther
        rw [found]
        rfl
    · obtain ⟨decl, found, -⟩ := exists_entry settings grammatical inDocuments inSites
      rw [List.mem_singleton.mp isOwn, found]
      rfl
  · obtain ⟨decl, found, named⟩ := exists_entry settings grammatical inDocuments inSites
    refine ⟨decl, by simp [enclosingTypes], found, ?_⟩
    have names : (node.ancestors.foldl Trail.pass {}).types.reverse.map Prod.fst =
        enclosingNames node := by
      rw [List.map_reverse, types_foldl_pass]
      rfl
    have nonempty : ∀ name ∈ enclosingNames node, name.isEmpty = false := by
      intro name member
      obtain ⟨around, above, isName⟩ := List.mem_filterMap.mp (List.mem_reverse.mp member)
      obtain ⟨isType, spelled⟩ := Option.ite_none_right_eq_some.mp isName
      obtain ⟨nameNode, isNode, rfl⟩ := Option.map_eq_some_iff.mp spelled
      have aroundTop : around.top = document.tree := by
        rw [Node.top_of_mem_ancestors above, top_of_enclosing_type inside,
          top_of_mem_document_sites inSites]
      exact regular.names around (Document.mem_nodes aroundTop) (by simp [isType]) nameNode isNode
    rw [named, ← fullName, nested_name_eq_joined _ (names ▸ nonempty), names, namespaceName]

/-- `namespace N; namespace P { class A { class B<T> { void M() { } } } }` -/
def nestedDocument : Document :=
  .ofOutline "nested.cs"
    ("namespace N; namespace P \x7b class A \x7b class B<T> \x7b void M() \x7b \x7d \x7d \x7d \x7d")
    (unit 68
      [.node .fileScopedNamespaceDeclaration true none 0 12
          [token "namespace" 0, letter (some .name) 10, token ";" 11],
        namespaceWith 13 68
          [classWith 27 66
            [.node .classDeclaration true none 37 64
              [token "class" 37, letter (some .name) 43,
                .node .typeParameterList true none 44 47
                  [token "<" 44, .node .typeParameter true none 45 46 [letter (some .name) 45],
                    token ">" 46],
                body 48 64 [methodWith 50 62 []]]]]])

theorem scope_at_enclosing_entry_nested :
    RegularFile nestedDocument ∧ Grammatical nestedDocument ∧
    ∃ site ∈ documentSites nestedDocument, ∃ node : Node, node.kind = .block ∧
      node.enclosingType? = some site.node ∧
      (scopeAt node).enclosingTypes = ["N.P.A", "N.P.A.B\x601"] ∧
      ∃ decl, (indexOf (Catalog.ofSettings {}) [nestedDocument]).get? "N.P.A.B\x601" = some decl ∧
        decl.fullName = "N.P.A.B" := by
  have regular : RegularFile nestedDocument := by decide +kernel
  have grammatical : Grammatical nestedDocument := by decide +kernel
  have declared : ∃ site ∈ documentSites nestedDocument,
      (site.node.body?.any fun list => list.children.any fun member => member.children.any
        fun node => decide (node.kind = .block ∧ member.kind.isTypeDeclaration = false ∧
          list.kind.isTypeDeclaration = false ∧ site.node.kind.isTypeDeclaration = true ∧
          site.outer ++ [site.key] = ["N.P.A", "N.P.A.B\x601"] ∧ site.key = "N.P.A.B\x601" ∧
          joined (scopeAt node).namespaceName (enclosingNames node) = "N.P.A.B")) = true := by
    decide +kernel
  obtain ⟨site, inSites, holds⟩ := declared
  obtain ⟨list, isList, holds⟩ := (Option.any_eq_true _ _).mp holds
  obtain ⟨member, inList, holds⟩ := List.any_eq_true.mp holds
  obtain ⟨node, inMember, holds⟩ := List.any_eq_true.mp holds
  obtain ⟨isBlock, memberKind, listKind, siteKind, keys, key, names⟩ := of_decide_eq_true holds
  have inside : node.enclosingType? = some site.node := by
    unfold Node.enclosingType?
    rw [Node.ancestors_of_parent (Node.parent_of_mem_children inMember),
      Node.ancestors_of_parent (Node.parent_of_mem_children inList),
      Node.ancestors_of_parent (Node.parent_of_body isList)]
    simp [memberKind, listKind, siteKind]
  obtain ⟨scopes, -, decl, -, found, fullName⟩ := scope_at_enclosing_entry {} [nestedDocument]
    nestedDocument List.mem_cons_self regular (by simpa using grammatical) site inSites node inside
  refine ⟨regular, grammatical, site, inSites, node, isBlock, inside, ?_, decl, key ▸ found, ?_⟩
  · exact (scopes {}).2.trans keys
  · exact fullName.trans names

end ReleaseAudit.Inference
