import Mathlib.Data.List.Basic
import ReleaseAudit.Declarations.Collect
import ReleaseAudit.Proofs.Declarations.Insertion

/-!
# Entering the sites of documents

The sites of a document are entered one after the other, the types around a
site before it. So the generic parameters that a nested type takes over from
the types around it can be read off the finished table, and everything else
that a site contributes does not depend on the table at all.
-/

namespace ReleaseAudit.Declarations

set_option autoImplicit false

open Source (Document Node)
open ReleaseAudit.Types (TypeRef)

def childSites (around : Surroundings) (child : Node) : List TypeSite :=
  if child.kind == .namespaceDeclaration then
    match child.declarationName?, child.body? with
    | some name, some body => typeSites (around.enterNamespace name body) body
    | _, _ => []
  else if child.kind == .fileScopedNamespaceDeclaration then typeSites around child
  else if child.kind.isTypeDeclaration then
    match child.declarationName?, child.body? with
    | some name, some body =>
        let site := around.site child name
        site :: typeSites (around.enterType site) body
    | some name, none => [around.site child name]
    | none, _ => []
  else []

theorem type_sites_eq (around : Surroundings) (container : Node) :
    typeSites around container = container.parts.flatMap (childSites around) := by
  have listed : container.parts.flatMap (childSites around) =
      container.parts.attach.flatMap fun entry => childSites around entry.val := by
    conv_lhs => rw [← List.attach_map_subtype_val container.parts]
    rw [List.flatMap_map]
  rw [listed, typeSites]
  refine List.flatMap_congr ?_
  rintro ⟨child, member⟩ -
  unfold childSites
  dsimp only
  split_ifs with isNamespace isFileScoped isType
  · split <;> simp_all
  · rfl
  · cases child.declarationName? with
    | none => rfl
    | some name =>
        dsimp only
        split <;> simp_all
  · rfl

/-- The types around each site are known or have their sites before it. -/
def Closed (known : List String) : List TypeSite → Prop
  | [] => True
  | site :: rest => (∀ key ∈ site.outer, key ∈ known) ∧ Closed (site.key :: known) rest

theorem Closed.mono {known more : List String} {sites : List TypeSite}
    (closed : Closed known sites) (grows : ∀ key ∈ known, key ∈ more) : Closed more sites := by
  induction sites generalizing known more with
  | nil => trivial
  | cons site rest ih =>
      refine ⟨fun key member => grows key (closed.1 key member), ih closed.2 ?_⟩
      intro key member
      rcases List.mem_cons.mp member with rfl | old
      · exact List.mem_cons_self
      · exact List.mem_cons_of_mem _ (grows key old)

theorem Closed.append {known : List String} {first second : List TypeSite}
    (firstClosed : Closed known first) (secondClosed : Closed known second) :
    Closed known (first ++ second) := by
  induction first generalizing known with
  | nil => exact secondClosed
  | cons site rest ih =>
      have later := secondClosed.mono fun key => List.mem_cons_of_mem site.key
      exact ⟨firstClosed.1, ih firstClosed.2 later⟩

theorem Closed.flat_map {α : Type} {known : List String} {items : List α}
    {sites : α → List TypeSite} (each : ∀ item ∈ items, Closed known (sites item)) :
    Closed known (items.flatMap sites) := by
  induction items with
  | nil => trivial
  | cons item rest ih =>
      rw [List.flatMap_cons]
      exact (each item List.mem_cons_self).append
        (ih fun other member => each other (List.mem_cons_of_mem item member))

theorem closed_type_sites (around : Surroundings) (container : Node) (known : List String)
    (outer : ∀ key ∈ around.outer, key ∈ known) : Closed known (typeSites around container) := by
  rw [type_sites_eq]
  refine Closed.flat_map fun child member => ?_
  have smaller := Node.size_lt_of_mem_children (Node.mem_children_of_mem_parts member)
  unfold childSites
  split_ifs with isNamespace isFileScoped isType
  · split
    · next name body _ found =>
        have := Nat.lt_trans (size_lt_of_body found) smaller
        exact closed_type_sites (around.enterNamespace name body) body known outer
    · trivial
  · exact closed_type_sites around child known outer
  · split
    · next name body _ found =>
        have := Nat.lt_trans (size_lt_of_body found) smaller
        refine ⟨outer, closed_type_sites _ body _ fun key inside => ?_⟩
        rcases List.mem_append.mp inside with old | new
        · exact List.mem_cons_of_mem _ (outer key old)
        · exact List.mem_singleton.mp new ▸ List.mem_cons_self
    · exact ⟨outer, trivial⟩
    · trivial
  · trivial
termination_by container.tree.size

theorem top_surroundings_outer (root : Node) : (topSurroundings root).outer = [] := by
  unfold topSurroundings
  generalize root.partsOf .fileScopedNamespaceDeclaration = declared
  have kept : ∀ around : Surroundings, (declared.foldl
      (fun around child =>
        { around with
          namespaceName := (child.declarationName?.map Node.text).getD around.namespaceName
          usings := around.usings.addFrom child }) around).outer = around.outer := by
    induction declared with
    | nil => exact fun _ => rfl
    | cons child rest ih => exact fun around => ih _
  exact kept _

theorem closed_document_sites (document : Document) (known : List String) :
    Closed known (documentSites document) :=
  closed_type_sites _ _ known (by simp [top_surroundings_outer])

namespace TypeDecl

def outer (decl : TypeDecl) : List String :=
  decl.scope.enclosingTypes.dropLast

def inside (decl : TypeDecl) (outerParams : List String) : TypeDecl :=
  { decl with scope := { decl.scope with typeParams := outerParams ++ decl.scope.typeParams } }

end TypeDecl

namespace TypeSite

/-- The heading of the declaration at a site, the parameters of the types around left out. -/
def header (site : TypeSite) : TypeDecl where
  fullName := site.fullName
  key := site.key
  kind := site.kind
  typeParams := site.ownParams
  bases := []
  scope :=
    { namespaceName := site.namespaceName
      enclosingTypes := site.outer ++ [site.key]
      typeParams := site.ownParams
      usings := site.usings }
  members := []

def basesFor (site : TypeSite) (key : String) : List TypeRef :=
  if key = site.key then baseTypes site.node else []

def membersFor (site : TypeSite) (key name : String) : List MemberDecl :=
  if key = site.key then site.members.filter fun member => member.name == name else []

def extensionsNamed (site : TypeSite) (name : String) : List (String × MemberDecl) :=
  (site.members.filter fun member => member.isExtension && member.name == name).map
    (Prod.mk site.key)

theorem outer_header (site : TypeSite) : site.header.outer = site.outer := by
  simp [TypeDecl.outer, header]

theorem header_eq_of_inside_eq {site other : TypeSite} {params otherParams : List String}
    (same : site.header.inside params = other.header.inside otherParams) :
    site.header = other.header := by
  simp_all [TypeDecl.inside, header]

end TypeSite

namespace Index

def paramsOf (index : Index) (keys : List String) : List String :=
  (keys.filterMap index.get?).flatMap TypeDecl.typeParams

theorem params_of_eq (index : Index) (keys : List String) :
    index.paramsOf keys =
      (keys.filterMap fun key => (index.headingAt? key).map TypeDecl.typeParams).flatten := by
  have params : (fun key => (index.headingAt? key).map TypeDecl.typeParams) =
      fun key => (index.get? key).map TypeDecl.typeParams := by
    funext key
    rw [headingAt?, Option.map_map]
    rfl
  rw [params, ← List.map_filterMap]
  rfl

def addSites (index : Index) (sites : List TypeSite) : Index :=
  sites.foldl (fun index site => index.insert (site.toDecl index)) index

theorem foldl_add_document (index : Index) (documents : List Document) :
    documents.foldl addDocument index = index.addSites (documents.flatMap documentSites) := by
  rw [addSites, List.foldl_flatMap]
  rfl

theorem heading_at_add_sites_of_known {index : Index} {key : String} (sites : List TypeSite)
    (known : (index.headingAt? key).isSome = true) :
    (index.addSites sites).headingAt? key = index.headingAt? key := by
  induction sites generalizing index with
  | nil => rfl
  | cons site rest ih =>
      have kept : (index.insert (site.toDecl index)).headingAt? key = index.headingAt? key := by
        rw [heading_at_insert, Option.or_of_isSome known]
      have later := ih (kept ▸ known)
      exact later.trans kept

theorem params_of_add_sites {index : Index} {keys : List String} (sites : List TypeSite)
    (known : ∀ key ∈ keys, (index.headingAt? key).isSome = true) :
    (index.addSites sites).paramsOf keys = index.paramsOf keys := by
  rw [params_of_eq, params_of_eq]
  congr 1
  refine List.filterMap_congr fun key member => ?_
  rw [heading_at_add_sites_of_known sites (known key member)]

theorem heading_at_add_sites {index : Index} {known : List String} {sites : List TypeSite}
    (closed : Closed known sites) (entered : ∀ key ∈ known, (index.headingAt? key).isSome = true)
    (key : String) :
    (index.addSites sites).headingAt? key =
      (index.headingAt? key).or
        (((sites.find? fun site => key == site.key).map TypeSite.header).map fun header =>
          header.inside ((index.addSites sites).paramsOf header.outer)) := by
  induction sites generalizing index known with
  | nil => simp [addSites]
  | cons site rest ih =>
      have inserted := heading_at_insert index (site.toDecl index)
      have outer : ∀ key ∈ site.outer, (index.headingAt? key).isSome = true :=
        fun key member => entered key (closed.1 key member)
      have later := @ih (index.insert (site.toDecl index)) (site.key :: known) closed.2 (by
        intro other member
        rw [inserted]
        rcases List.mem_cons.mp member with rfl | old
        · simp [TypeSite.toDecl]
        · simp [entered other old])
      -- The types around are entered already, so the finished table has the same parameters.
      have params : (index.addSites (site :: rest)).paramsOf site.outer =
          index.paramsOf site.outer := params_of_add_sites (site :: rest) outer
      have here : (site.toDecl index).heading =
          site.header.inside ((index.addSites (site :: rest)).paramsOf site.header.outer) := by
        rw [site.outer_header, params]
        rfl
      refine later.trans ?_
      rw [inserted, Option.or_assoc]
      congr 1
      by_cases same : key = site.key
      · rw [if_pos (show key = (site.toDecl index).key from same), here]
        simp [same]
      · rw [if_neg (show key ≠ (site.toDecl index).key from same)]
        rw [List.find?_cons_of_neg (by simpa using same), Option.none_or]
        rfl

theorem appended_add_sites {α : Type} (view : Index → List α) (share : TypeSite → List α)
    (step : ∀ (index : Index) (site : TypeSite), index.Sound →
      view (index.insert (site.toDecl index)) = view index ++ share site)
    {index : Index} (sound : index.Sound) (sites : List TypeSite) :
    view (index.addSites sites) = view index ++ sites.flatMap share := by
  induction sites generalizing index with
  | nil => simp [addSites]
  | cons site rest ih =>
      have later := ih (sound_insert sound (site.toDecl index))
      rw [step index site sound, List.append_assoc] at later
      exact later

theorem bases_at_add_sites {index : Index} (sound : index.Sound) (sites : List TypeSite)
    (key : String) :
    (index.addSites sites).basesAt key =
      index.basesAt key ++ sites.flatMap fun site => site.basesFor key :=
  appended_add_sites (fun index => index.basesAt key) (fun site => site.basesFor key)
    (fun index site _ => bases_at_insert index (site.toDecl index) key) sound sites

theorem members_at_add_sites {index : Index} (sound : index.Sound) (sites : List TypeSite)
    (key name : String) :
    (index.addSites sites).membersAt key name =
      index.membersAt key name ++ sites.flatMap fun site => site.membersFor key name :=
  appended_add_sites (fun index => index.membersAt key name) (fun site => site.membersFor key name)
    (fun index site _ => members_at_insert index (site.toDecl index) key name) sound sites

theorem extensions_named_add_sites {index : Index} (sound : index.Sound) (sites : List TypeSite)
    (name : String) :
    (index.addSites sites).extensionsNamed name =
      index.extensionsNamed name ++ sites.flatMap fun site => site.extensionsNamed name :=
  appended_add_sites (fun index => index.extensionsNamed name)
    (fun site => site.extensionsNamed name)
    (fun index site sound => extensions_named_insert sound (site.toDecl index) name) sound sites

theorem implicit_usings_add_sites (index : Index) (sites : List TypeSite) :
    (index.addSites sites).implicitUsings = index.implicitUsings := by
  induction sites generalizing index with
  | nil => rfl
  | cons site rest ih =>
      exact (ih (index.insert (site.toDecl index))).trans (implicit_usings_insert _ _)

end Index

end ReleaseAudit.Declarations
