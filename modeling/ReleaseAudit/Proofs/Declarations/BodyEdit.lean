import ReleaseAudit.Proofs.Declarations.Sites
import ReleaseAudit.Proofs.Source.Edit

/-!
# Declarations after an edit of statement bodies

Everything that a document contributes to the table of declarations is read off
headings, so it is the same before and after an edit of statement bodies.
-/

namespace ReleaseAudit.Declarations

set_option autoImplicit false

open Source (Document Kind Label Node)
open Source.Node (EditedIn Kept Moved rel_cases rel_child rel_first_part rel_kept_child
  rel_kept_declaration_name rel_kept_part_of rel_or rel_part_of forall₂_parts forall₂_parts_of)
open ReleaseAudit.Types (TypeRef)

section MovedNodes

variable {before after : Nat} {left right : Node}

theorem rel_moved_declared_type (moved : Moved before after left right) :
    Option.Rel (Moved before after) left.declaredType? right.declaredType? := by
  unfold Node.declaredType?
  refine rel_or (rel_or (rel_child Moved.same_role moved.children .type)
    (rel_child Moved.same_role moved.children .returns)) ?_
  rw [moved.same_role.1]
  split
  · exact rel_first_part Moved.same_role moved.children
  · exact .none

theorem written_type_eq {written other : Option Node} (rel : Option.Rel Kept written other) :
    writtenType? written = writtenType? other := by
  cases rel with
  | none => rfl
  | some kept => simp only [writtenType?, Option.bind_some, kept.text_eq]

theorem forall₂_any_eq {Item : Type} {related : Item → Item → Prop} {test otherTest : Item → Bool}
    (agree : ∀ {item other : Item}, related item other → test item = otherTest other)
    {items others : List Item} (paired : List.Forall₂ related items others) :
    items.any test = others.any otherTest := by
  induction paired with
  | nil => rfl
  | cons pair _ ih => rw [List.any_cons, List.any_cons, agree pair, ih]

end MovedNodes

section EditedNodes

variable {left right : Node}

theorem has_modifier_eq (paired : List.Forall₂ (EditedIn left.kind) left.children right.children)
    (keyword : String) : left.hasModifier keyword = right.hasModifier keyword := by
  unfold Node.hasModifier
  congr 1
  · refine forall₂_any_eq ?_ (forall₂_parts EditedIn.same_role paired)
    intro child other pair
    by_cases isModifier : child.kind = .modifier
    · have heading : child.label.isHeading = true := by
        have kind : child.label.kind = .modifier := isModifier
        simp [Label.isHeading, kind, Kind.isHeading]
      rw [pair.same_role.1, (pair.kept_of_is_heading heading).text_eq]
    · rw [pair.same_role.1] at isModifier ⊢
      rw [beq_false_of_ne isModifier, Bool.false_and, Bool.false_and]
  · refine forall₂_any_eq ?_ paired
    intro child other pair
    rw [pair.same_role.1, pair.same_role.2.1]

theorem declaration_name_text_eq
    (paired : List.Forall₂ (EditedIn left.kind) left.children right.children) :
    left.declarationName?.map Node.text = right.declarationName?.map Node.text := by
  rcases rel_cases (rel_kept_declaration_name paired) with
    ⟨absent, absent'⟩ | ⟨name, otherName, isName, isOther, kept⟩
  · rw [absent, absent']
  · rw [isName, isOther, Option.map_some, Option.map_some, kept.text_eq]

theorem edited_of_moved {before after : Nat} (moved : Moved before after left right) :
    List.Forall₂ (EditedIn left.kind) left.children right.children :=
  moved.children.imp fun _ _ below => .of_kept ⟨before, after, below⟩

end EditedNodes

section Signatures

variable {before after : Nat} {left right : Node}

theorem parameter_decl_eq (moved : Moved before after left right) :
    parameterDecl left = parameterDecl right := by
  have type := written_type_eq (Moved.rel_kept (rel_moved_declared_type moved))
  have params := has_modifier_eq (edited_of_moved moved) "params"
  have optional : (left.children.any fun child =>
      child.kind.spelling == "=" || child.kind == .equalsValueClause) =
        right.children.any fun child =>
          child.kind.spelling == "=" || child.kind == .equalsValueClause := by
    refine forall₂_any_eq ?_ moved.children
    intro child other pair
    rw [pair.same_role.1]
  unfold parameterDecl
  rw [type, params, optional]

theorem parameter_decls_eq {children others : List Node}
    (paired : List.Forall₂ (Moved before after) children others) (pending : Bool) :
    parameterDecls pending children = parameterDecls pending others := by
  induction paired generalizing pending with
  | nil => rfl
  | cons pair _ ih =>
      obtain ⟨kind, named, -⟩ := pair.same_role
      simp only [parameterDecls, kind, named, parameter_decl_eq pair, pair.text_eq, ih]

theorem rel_kept_parameter_list
    (paired : List.Forall₂ (EditedIn left.kind) left.children right.children) :
    Option.Rel Kept (parameterList? left) (parameterList? right) :=
  rel_or (rel_kept_child paired rfl) (rel_kept_part_of paired rfl)

theorem parameters_eq (paired : List.Forall₂ (EditedIn left.kind) left.children right.children) :
    parameters left = parameters right := by
  unfold parameters
  rcases rel_cases (rel_kept_parameter_list paired) with
    ⟨absent, absent'⟩ | ⟨list, other, found, found', before, after, moved⟩
  · rw [absent, absent']
  · rw [found, found']
    exact parameter_decls_eq moved.children false

/-- The comparison of offsets inside one parameter is not changed by moving it. -/
theorem has_this_parameter_eq
    (paired : List.Forall₂ (EditedIn left.kind) left.children right.children) :
    hasThisParameter left = hasThisParameter right := by
  unfold hasThisParameter
  rcases rel_cases (rel_kept_parameter_list paired) with
    ⟨absent, absent'⟩ | ⟨list, other, found, found', before, after, moved⟩
  · rw [absent, absent']
  · rw [found, found', Option.bind_some, Option.bind_some]
    rcases rel_cases (rel_part_of Moved.same_role moved.children .parameter) with
      ⟨absent, absent'⟩ | ⟨first, otherFirst, isFirst, isOther, movedFirst⟩
    · rw [absent, absent']
    · rw [isFirst, isOther]
      have starts : ((first.declaredType?.map Node.start).getD first.stop) + after =
          ((otherFirst.declaredType?.map Node.start).getD otherFirst.stop) + before := by
        rcases rel_cases (rel_moved_declared_type movedFirst) with
          ⟨absent, absent'⟩ | ⟨type, otherType, isType, isOtherType, movedType⟩
        · rw [absent, absent']
          exact movedFirst.stop_eq
        · rw [isType, isOtherType]
          exact movedType.start_eq
      refine forall₂_any_eq ?_ movedFirst.children
      intro child otherChild pair
      have stops := pair.stop_eq
      rw [pair.text_eq]
      congr 1
      apply decide_eq_decide.mpr
      omega

theorem type_parameters_eq
    (paired : List.Forall₂ (EditedIn left.kind) left.children right.children) :
    typeParameters left = typeParameters right := by
  have lists : Option.Rel Kept ((left.child? .typeParameters).or (left.partOf? .typeParameterList))
      ((right.child? .typeParameters).or (right.partOf? .typeParameterList)) :=
    rel_or (rel_kept_child paired rfl) (rel_kept_part_of paired rfl)
  unfold typeParameters
  rcases rel_cases lists with ⟨absent, absent'⟩ | ⟨list, other, found, found', _, _, moved⟩
  · rw [absent, absent']
  · rw [found, found']
    have names := forall₂_parts_of Moved.same_role moved.children .typeParameter
    apply List.forall₂_eq_eq_eq ▸ List.forall₂_map_left_iff.mpr (List.forall₂_map_right_iff.mpr _)
    refine names.imp ?_
    intro parameter otherParameter pair
    rcases rel_cases (Node.rel_declaration_name Moved.same_role pair.children) with
      ⟨absent, absent'⟩ | ⟨name, otherName, isName, isOther, movedName⟩
    · rw [absent, absent']
      exact pair.text_eq
    · rw [isName, isOther]
      exact movedName.text_eq

theorem base_types_eq (paired : List.Forall₂ (EditedIn left.kind) left.children right.children) :
    baseTypes left = baseTypes right := by
  have lists : Option.Rel Kept (left.partOf? .baseList) (right.partOf? .baseList) :=
    rel_kept_part_of paired rfl
  unfold baseTypes
  rcases rel_cases lists with ⟨absent, absent'⟩ | ⟨list, other, found, found', _, _, moved⟩
  · rw [absent, absent']
  · rw [found, found']
    have parts := forall₂_parts Moved.same_role moved.children
    dsimp only
    generalize list.parts = bases, other.parts = otherBases at parts
    induction parts with
    | nil => rfl
    | cons pair _ ih => simp only [List.filterMap_cons, pair.text_eq, ih]

end Signatures

section Members

variable {owner : Kind} {left right : Node}

theorem written_type_declared_type_eq (notVariables : left.kind ≠ .variableDeclaration)
    (kinds : left.kind = right.kind)
    (paired : List.Forall₂ (EditedIn left.kind) left.children right.children) :
    writtenType? left.declaredType? = writtenType? right.declaredType? := by
  refine written_type_eq
    (rel_or (rel_or (rel_kept_child paired rfl) (rel_kept_child paired rfl)) ?_)
  rw [← kinds, if_neg (by simpa using notVariables), if_neg (by simpa using notVariables)]
  exact .none

theorem field_members_eq (paired : List.Forall₂ (EditedIn left.kind) left.children right.children) :
    fieldMembers left = fieldMembers right := by
  have declarations :
      Option.Rel Kept (left.partOf? .variableDeclaration) (right.partOf? .variableDeclaration) :=
    rel_kept_part_of paired rfl
  unfold fieldMembers
  rw [has_modifier_eq paired]
  rcases rel_cases declarations with
    ⟨absent, absent'⟩ | ⟨declaration, other, found, found', before, after, moved⟩
  · rw [absent, absent']
  · rw [found, found']
    have type := written_type_eq (Moved.rel_kept (rel_moved_declared_type moved))
    have declarators := forall₂_parts_of Moved.same_role moved.children .variableDeclarator
    dsimp only
    rw [type]
    generalize declaration.partsOf .variableDeclarator = items,
      other.partsOf .variableDeclarator = others at declarators
    induction declarators with
    | nil => rfl
    | cons pair _ ih =>
        rw [List.filterMap_cons, List.filterMap_cons, ih]
        rcases rel_cases (Node.rel_declaration_name Moved.same_role pair.children) with
          ⟨absent, absent'⟩ | ⟨name, otherName, isName, isOther, movedName⟩
        · rw [absent, absent']
        · rw [isName, isOther]
          simp only [Option.map_some, valueMember, movedName.text_eq]

/-- A member is declared alike before and after; what is swapped declares none. -/
theorem member_decls_eq (edited : EditedIn owner left right) :
    memberDecls left = memberDecls right := by
  have kinds := edited.same_role.1
  by_cases swapped : left.kind = .block ∨ left.kind = .accessorDeclaration
  · unfold memberDecls
    rw [← kinds]
    rcases swapped with kind | kind <;> rw [kind]
  · obtain ⟨notBlock, notAccessor⟩ := not_or.mp swapped
    have paired := edited.children (Kind.swaps_eq_false notBlock notAccessor)
    -- the name of a member is used for its text only
    have named : ∀ build : String → MemberDecl,
        (left.declarationName?.toList.map fun name => build name.text) =
          right.declarationName?.toList.map fun name => build name.text := by
      intro build
      have texts := congrArg (fun text => (text.map build).toList) (declaration_name_text_eq paired)
      simpa only [Option.map_map, Function.comp_def, Option.toList_map] using texts
    have isStatic := has_modifier_eq paired "static"
    unfold memberDecls
    rw [← kinds, ← isStatic]
    split
    · exact field_members_eq paired
    · exact field_members_eq paired
    · next isProperty =>
        rw [written_type_declared_type_eq (by rw [isProperty]; decide) kinds paired]
        exact named fun text => ⟨.property, text, _, [], none, _, false, none⟩
    · next isMethod =>
        rw [written_type_declared_type_eq (by rw [isMethod]; decide) kinds paired,
          type_parameters_eq paired, parameters_eq paired, has_this_parameter_eq paired]
        exact named fun text => ⟨.method, text, _, _, _, _, _, none⟩
    · rw [parameters_eq paired]
      exact named fun text => ⟨.constructor, text, none, [], _, _, false, none⟩
    · rfl

end Members

/-- Sites that differ in the places of their nodes only. -/
structure SameSite (site other : TypeSite) : Prop where
  fullName : site.fullName = other.fullName
  outer : site.outer = other.outer
  namespaceName : site.namespaceName = other.namespaceName
  usings : site.usings = other.usings
  kind : site.node.kind = other.node.kind
  isType : site.node.kind.isTypeDeclaration = true
  paired : List.Forall₂ (EditedIn site.node.kind) site.node.children other.node.children

theorem swaps_of_is_type_declaration {owner : Kind} (isType : owner.isTypeDeclaration = true)
    (kind : Kind) : owner.swaps kind = false := by
  revert isType
  cases owner <;> simp [Kind.isTypeDeclaration, Kind.swaps, Kind.hasStatementBody]

theorem rel_body {left right : Node}
    (paired : List.Forall₂ (EditedIn left.kind) left.children right.children) :
    Option.Rel (EditedIn left.kind) left.body? right.body? :=
  rel_or (rel_child EditedIn.same_role paired .body)
    (rel_part_of EditedIn.same_role paired .declarationList)

namespace SameSite

variable {site other : TypeSite}

theorem key (same : SameSite site other) : site.key = other.key := by
  unfold TypeSite.key TypeSite.ownParams
  rw [same.fullName, type_parameters_eq same.paired]

theorem members (same : SameSite site other) : site.members = other.members := by
  unfold TypeSite.members
  rcases rel_cases (rel_body same.paired) with
    ⟨absent, absent'⟩ | ⟨body, otherBody, found, found', edited⟩
  · rw [absent, absent']
  · rw [found, found']
    have closed := swaps_of_is_type_declaration same.isType body.kind
    have parts := forall₂_parts EditedIn.same_role (edited.children closed)
    dsimp only
    generalize body.parts = items, otherBody.parts = others at parts
    induction parts with
    | nil => rfl
    | cons pair _ ih => rw [List.flatMap_cons, List.flatMap_cons, member_decls_eq pair, ih]

theorem to_decl (same : SameSite site other) (index : Index) :
    site.toDecl index = other.toDecl index := by
  have params : site.ownParams = other.ownParams := type_parameters_eq same.paired
  have kind : site.kind = other.kind := by
    unfold TypeSite.kind
    rw [same.kind]
  simp only [TypeSite.toDecl, same.fullName, same.key, kind, params, base_types_eq same.paired,
    same.namespaceName, same.outer, same.usings, same.members]

end SameSite

theorem add_from_eq_of_edited {left right : Node} (usings : Usings)
    (paired : List.Forall₂ (EditedIn left.kind) left.children right.children) :
    usings.addFrom left = usings.addFrom right := by
  have directives := forall₂_parts_of EditedIn.same_role paired .usingDirective
  have kinds : ∀ child ∈ left.partsOf .usingDirective, child.label.isHeading = true := by
    intro child member
    have kind : child.label.kind = .usingDirective := eq_of_beq (List.mem_filter.mp member).2
    simp [Label.isHeading, kind, Kind.isHeading]
  unfold Usings.addFrom
  generalize left.partsOf .usingDirective = items, right.partsOf .usingDirective = others
    at directives kinds
  induction directives generalizing usings with
  | nil => rfl
  | @cons child other items others pair _ ih =>
      have text := (pair.kept_of_is_heading (kinds child List.mem_cons_self)).text_eq
      rw [List.foldl_cons, List.foldl_cons, text]
      exact ih _ fun child member => kinds child (List.mem_cons_of_mem _ member)

/-- The surroundings are read off names and directives, and so are those further in. -/
theorem forall₂_type_sites (around : Surroundings) {left right : Node}
    (paired : List.Forall₂ (EditedIn left.kind) left.children right.children) :
    List.Forall₂ SameSite (typeSites around left) (typeSites around right) := by
  rw [type_sites_eq, type_sites_eq]
  have parts := forall₂_parts EditedIn.same_role paired
  have smaller : ∀ child ∈ left.parts, child.tree.size < left.tree.size := fun child member =>
    Node.size_lt_of_mem_children (Node.mem_children_of_mem_parts member)
  refine List.rel_flatMap ((List.forall₂_and_left _ _).mpr ⟨smaller, parts⟩) ?_
  rintro child other ⟨inContainer, edited⟩
  have kinds := edited.same_role.1
  unfold childSites
  rw [← kinds]
  split
  · next isNamespace =>
      have kind : child.kind = .namespaceDeclaration := eq_of_beq isNamespace
      have inside := edited.children (by rw [kind]; exact Kind.swaps_eq_false nofun nofun)
      rcases rel_cases (rel_kept_declaration_name inside) with
        ⟨absent, absent'⟩ | ⟨name, otherName, isName, isOther, kept⟩
      · rw [absent, absent']
        exact .nil
      · rcases rel_cases (rel_body inside) with
          ⟨absent, absent'⟩ | ⟨body, otherBody, found, found', bodies⟩
        · rw [isName, isOther, absent, absent']
          exact .nil
        · rw [isName, isOther, found, found']
          have bodyPaired := bodies.children (by rw [kind]; rfl)
          have entered : around.enterNamespace name body =
              around.enterNamespace otherName otherBody := by
            simp only [Surroundings.enterNamespace, kept.text_eq,
              add_from_eq_of_edited around.usings bodyPaired]
          have := Nat.lt_trans (size_lt_of_body found) inContainer
          dsimp only
          rw [entered]
          exact forall₂_type_sites _ bodyPaired
  · split
    · next isFileScoped =>
        have kind : child.kind = .fileScopedNamespaceDeclaration := eq_of_beq isFileScoped
        have unswapped : left.kind.swaps child.kind = false := by
          rw [kind]
          exact Kind.swaps_eq_false nofun nofun
        exact forall₂_type_sites around (edited.children unswapped)
    · split
      · next isType =>
          have unswapped : left.kind.swaps child.kind = false := by
            apply Kind.swaps_eq_false <;> intro kind <;> rw [kind] at isType <;> cases isType
          have inside := edited.children unswapped
          rcases rel_cases (rel_kept_declaration_name inside) with
            ⟨absent, absent'⟩ | ⟨name, otherName, isName, isOther, kept⟩
          · rw [absent, absent']
            exact .nil
          · have same : SameSite (around.site child name) (around.site other otherName) := by
              refine ⟨?_, rfl, rfl, rfl, kinds, isType, inside⟩
              simp only [Surroundings.site, kept.text_eq]
            rcases rel_cases (rel_body inside) with
              ⟨absent, absent'⟩ | ⟨body, otherBody, found, found', bodies⟩
            · rw [isName, isOther, absent, absent']
              exact .cons same .nil
            · rw [isName, isOther, found, found']
              have bodyPaired := bodies.children (swaps_of_is_type_declaration isType body.kind)
              have entered : around.enterType (around.site child name) =
                  around.enterType (around.site other otherName) := by
                simp only [Surroundings.enterType, same.fullName, same.key]
              have := Nat.lt_trans (size_lt_of_body found) inContainer
              refine .cons same ?_
              rw [entered]
              exact forall₂_type_sites _ bodyPaired
      · exact .nil
termination_by left.tree.size

theorem top_surroundings_eq_of_edited {left right : Node}
    (paired : List.Forall₂ (EditedIn left.kind) left.children right.children) :
    topSurroundings left = topSurroundings right := by
  have namespaces := forall₂_parts_of EditedIn.same_role paired .fileScopedNamespaceDeclaration
  have kinds : ∀ child ∈ left.partsOf .fileScopedNamespaceDeclaration,
      left.kind.swaps child.kind = false := by
    intro child member
    have kind : child.kind = .fileScopedNamespaceDeclaration :=
      eq_of_beq (List.mem_filter.mp member).2
    rw [kind]
    exact Kind.swaps_eq_false nofun nofun
  unfold topSurroundings
  rw [add_from_eq_of_edited {} paired]
  generalize (⟨"", none, [], Usings.addFrom {} right⟩ : Surroundings) = around
  generalize left.partsOf .fileScopedNamespaceDeclaration = items,
    right.partsOf .fileScopedNamespaceDeclaration = others at namespaces kinds
  induction namespaces generalizing around with
  | nil => rfl
  | @cons child other items others pair _ ih =>
      have inside := pair.children (kinds child List.mem_cons_self)
      rw [List.foldl_cons, List.foldl_cons, declaration_name_text_eq inside,
        add_from_eq_of_edited around.usings inside]
      exact ih _ fun child member => kinds child (List.mem_cons_of_mem _ member)

/-- Documents that correspond in an edit enter the same declarations into every table. -/
theorem add_document_eq_of_edited (index : Index) {original changed : Document}
    (edited : EditedIn .compilationUnit original.root changed.root) :
    index.addDocument original = index.addDocument changed := by
  have paired := edited.children rfl
  have sites : List.Forall₂ SameSite (documentSites original) (documentSites changed) := by
    unfold documentSites
    rw [top_surroundings_eq_of_edited paired]
    exact forall₂_type_sites _ paired
  unfold Index.addDocument
  generalize documentSites original = items, documentSites changed = others at sites
  induction sites generalizing index with
  | nil => rfl
  | cons same _ ih =>
      rw [List.foldl_cons, List.foldl_cons, same.to_decl index]
      exact ih _

theorem add_document_eq_of_is_edit (index : Index) {original changed : Document}
    (edit : original.tree.isEdit changed.tree = true) :
    index.addDocument original = index.addDocument changed :=
  add_document_eq_of_edited index (.of_is_edit _ edit)

end ReleaseAudit.Declarations
