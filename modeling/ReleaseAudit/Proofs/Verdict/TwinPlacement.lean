import ReleaseAudit.Proofs.Verdict.TwinRelease

/-!
# Placements in the two spellings of a getter

Each question that places a value has alike answers for twins in the value of
the getter. The value itself is the one exception: it is returned through the
clause of the accessor in the short form and through a statement in the long
one. For a property both are a return from its getter. The clause finds no
property around the getter of an indexer, so there the short form does not see
that the value is returned.
-/

namespace ReleaseAudit.Source.Node

set_option autoImplicit false

theorem value_root_value_root (node : Node) : node.valueRoot.valueRoot = node.valueRoot := by
  induction depth : node.depth using Nat.strongRecOn generalizing node with
  | ind bound ih =>
      cases isParent : node.parent? with
      | none => rw [value_root_of_no_parent isParent, value_root_of_no_parent isParent]
      | some parent =>
          cases passes : passesValue parent node with
          | true =>
              have outward := depth_of_parent isParent
              rw [value_root_of_passes isParent passes]
              exact ih parent.depth (by omega) parent rfl
          | false =>
              rw [value_root_of_not_passes isParent passes,
                value_root_of_not_passes isParent passes]

theorem value_root_of_argument_owner {value owner : Node}
    (isOwner : value.argumentOwner? = some owner) : value.valueRoot = value := by
  obtain ⟨argument, isParent, kind⟩ := kind_of_argument_owner isOwner
  exact value_root_of_not_passes isParent (passes_value_eq_false (by rw [kind]; rfl))

end ReleaseAudit.Source.Node

namespace ReleaseAudit.Verdict

set_option autoImplicit false

open Source (Kind Node Respelling Tree)
open Source.Node (ClimbsTo rel_bind rel_cases rel_filter rel_map rel_or)
open Source.Respelling (Between InMember Twin Whole copying)
open ReleaseAudit.Types (TypeSymbol)

variable {before after : Tree} {spelling : Respelling before after} {left right : Node}

/-- Wherever twins create a resource, the placements decide alike about it. -/
structure DecidedAlike (spelling : Respelling before after) (audit other : Audit)
    (placement otherPlacement : Placement) : Prop where
  getterReturn_eq : placement.isGetterReturn = otherPlacement.isGetterReturn
  decide_eq : ∀ {site otherSite : Node}, spelling.Twin site otherSite → ∀ resource : TypeSymbol,
    audit.decide? placement site resource = other.decide? otherPlacement otherSite resource

theorem alike_get_or_else {audit other : Audit} {placement otherPlacement : Option Placement}
    (rel : Option.Rel (DecidedAlike spelling audit other) placement otherPlacement) :
    DecidedAlike spelling audit other (placement.getD .anonymous)
      (otherPlacement.getD .anonymous) := by
  cases rel with
  | none => exact ⟨rfl, fun _ _ => rfl⟩
  | some alike => exact alike

section Deciding

variable {audit other : Audit} (agrees : Agrees spelling audit other)

include agrees

theorem decide_member_eq_of_twin {name otherName : Node} (names : spelling.Whole name otherName)
    (sites : spelling.Twin left right) (resource : TypeSymbol) (holder : Holder) :
    audit.decideMember left name resource holder =
      other.decideMember right otherName resource holder := by
  unfold Audit.decideMember
  rw [copying.text_eq names, is_member_released_eq_of_twin agrees sites]

theorem decide_local_eq_of_twin {name otherName : Node} (names : spelling.Whole name otherName)
    (sites : spelling.Twin left right) (resource : TypeSymbol) :
    audit.decideLocal left name resource = other.decideLocal right otherName resource := by
  unfold Audit.decideLocal
  rw [copying.text_eq names, is_released_locally_eq_of_twin agrees sites]

theorem decide_auto_property_eq {property otherProperty : Node}
    (properties : spelling.Twin property otherProperty)
    (kind : property.kind = .propertyDeclaration) (sites : spelling.Twin left right)
    (resource : TypeSymbol) :
    audit.decide? (.autoProperty property) left resource =
      other.decide? (.autoProperty otherProperty) right resource := by
  have notGetter := properties.place_ne_hole (by rw [kind]; decide)
  unfold Audit.decide?
  dsimp only
  rcases rel_cases (properties.declaration_name notGetter) with
    ⟨absent, absent'⟩ | ⟨name, otherName, found, found', names⟩
  · rw [absent, absent']
  · rw [found, found']
    exact congrArg some (decide_member_eq_of_twin agrees names sites resource .property)

theorem alike_argument_placement {owner otherOwner : Node}
    (owners : spelling.Twin owner otherOwner) (creates : owner.kind.isCreation = true) :
    DecidedAlike spelling audit other (argumentPlacement owner) (argumentPlacement otherOwner) := by
  unfold argumentPlacement
  rw [← owners.kind_eq]
  split
  · refine ⟨rfl, ?_⟩
    intro site otherSite sites resource
    unfold Audit.decide?
    dsimp only
    rw [tracks_ownership_eq_of_twin agrees owners]
  · refine ⟨rfl, ?_⟩
    intro site otherSite sites resource
    unfold Audit.decide?
    dsimp only
    rw [is_tracked_construction_eq_of_twin agrees owners creates]

theorem alike_returned_by (statements : spelling.Twin left right) :
    DecidedAlike spelling audit other (returnedBy left) (returnedBy right) := by
  have accessors : ((left.ancestors.find? fun ancestor =>
        ancestor.kind == .accessorDeclaration).any Node.isGetter) =
      (right.ancestors.find? fun ancestor =>
        ancestor.kind == .accessorDeclaration).any Node.isGetter :=
    Node.any_eq_of_rel (statements.find_ancestor (· == .accessorDeclaration) rfl rfl rfl)
      Twin.is_getter_eq
  unfold returnedBy
  rcases rel_cases statements.enclosing_scope with
    ⟨absent, absent'⟩ | ⟨scope, otherScope, found, found', scopes⟩
  · rw [absent, absent']
    exact ⟨rfl, fun _ _ => rfl⟩
  · rw [found, found']
    dsimp only
    rw [← scopes.kind_eq, accessors]
    split
    · next isProperty =>
        split
        · exact ⟨rfl, decide_auto_property_eq agrees scopes (eq_of_beq isProperty)⟩
        · exact ⟨rfl, fun _ _ => rfl⟩
    · split
      · exact ⟨rfl, fun _ _ => rfl⟩
      · exact ⟨rfl, fun _ _ => rfl⟩

theorem rel_arrow_body_of (owners : spelling.Twin left right) :
    Option.Rel (DecidedAlike spelling audit other) (arrowBodyOf? left) (arrowBodyOf? right) := by
  unfold arrowBodyOf?
  rw [← owners.kind_eq]
  split
  · next isProperty => exact .some ⟨rfl, decide_auto_property_eq agrees owners isProperty⟩
  · rw [owners.is_getter_eq]
    unfold Node.accessorProperty?
    rcases rel_cases (owners.parent_of .accessorList (by decide) (by decide)) with
      ⟨absent, absent'⟩ | ⟨list, otherList, found, found', lists⟩
    · rw [absent, absent']
      exact .none
    · rw [found, found']
      rcases rel_cases (lists.parent_of .propertyDeclaration (by decide) (by decide)) with
        ⟨absent, absent'⟩ | ⟨property, otherProperty, isProperty, isOther, properties⟩
      · dsimp only [Option.bind_eq_bind, Option.bind_some]
        rw [absent, absent']
        exact .none
      · have kind := (Node.parent_of_eq_some_iff.mp isProperty).2
        dsimp only [Option.bind_eq_bind, Option.bind_some]
        rw [isProperty, isOther, Option.bind_some, Option.bind_some]
        split
        · exact .some ⟨rfl, decide_auto_property_eq agrees properties kind⟩
        · exact .none
  · exact .some ⟨rfl, fun _ _ => rfl⟩
  · exact .some ⟨rfl, fun _ _ => rfl⟩
  · exact .some ⟨rfl, fun _ _ => rfl⟩

theorem rel_returned_of_parents {parent otherParent : Node} (roots : spelling.Twin left right)
    (isParent : left.parent? = some parent) (isOther : right.parent? = some otherParent)
    (parents : spelling.Twin parent otherParent) :
    Option.Rel (DecidedAlike spelling audit other) (returned? left) (returned? right) := by
  have owners : Option.Rel spelling.Twin left.arrowBodyOwner? right.arrowBodyOwner? := by
    by_cases isArrow : parent.kind = .arrowExpressionClause
    · have otherArrow : otherParent.kind = .arrowExpressionClause := by
        rw [← parents.kind_eq]
        exact isArrow
      rw [Node.arrowBodyOwner?, Node.arrowBodyOwner?,
        Node.parent_of_eq_some_iff.mpr ⟨isParent, isArrow⟩,
        Node.parent_of_eq_some_iff.mpr ⟨isOther, otherArrow⟩]
      exact parents.parent (by rw [isArrow]; rfl)
    · have otherKind : otherParent.kind ≠ .arrowExpressionClause := by
        rw [← parents.kind_eq]
        exact isArrow
      rw [Node.arrow_body_owner_eq_none isParent isArrow,
        Node.arrow_body_owner_eq_none isOther otherKind]
      exact .none
  unfold returned?
  rw [isParent, isOther]
  dsimp only [Option.bind_eq_bind, Option.bind_some]
  rw [← parents.kind_eq]
  split
  · exact .some (alike_returned_by agrees parents)
  · rcases rel_cases owners with ⟨absent, absent'⟩ | ⟨owner, otherOwner, found, found', pair⟩
    · rw [absent, absent']
      by_cases isLambda : parent.kind = .lambdaExpression
      · have whole := parents.whole (by rw [isLambda]; rfl)
        have bodies : (parent.child? .body).any left.same =
            (otherParent.child? .body).any right.same :=
          Node.any_eq_of_rel (copying.child whole .body) fun inner => roots.same_eq inner.1
        dsimp only
        rw [bodies]
        split
        · exact .some ⟨rfl, fun _ _ => rfl⟩
        · exact .none
      · simp only [beq_false_of_ne isLambda, Bool.false_and, Bool.false_eq_true, if_false]
        exact .none
    · rw [found, found']
      exact rel_arrow_body_of agrees pair

end Deciding

/-- A call that is returned from the getter of a property leaves its arguments to the rules for
arguments. -/
theorem returned_as_argument_of_getter {root owner : Node} {placement : Placement}
    (isOwner : root.argumentOwner? = some owner)
    (isReturned : returned? owner.valueRoot = some placement)
    (isGetter : placement.isGetterReturn = true) : returnedAsArgument? root = none := by
  rw [returnedAsArgument?]
  split
  · rfl
  · next other found =>
      cases isOwner.symm.trans found
      simp [isReturned, isGetter]

section Value

variable {value otherValue clause getter statement block otherGetter list otherList owner
    otherOwner : Node}
  (values : spelling.Twin value otherValue)
  (between : spelling.Between value otherValue clause getter statement block otherGetter)
  (inMember : spelling.InMember getter otherGetter list otherList owner otherOwner)

include between inMember

/-- The clause looks for a property around its accessor. -/
theorem returned_by_clause_short (isParent : left.parent? = some clause) :
    returned? left =
      if owner.kind = .propertyDeclaration then some (.propertyExpressionBody owner) else none := by
  have isArrow := Node.parent_of_eq_some_iff.mpr ⟨isParent, between.arrow_kind⟩
  have isList := Node.parent_of_eq_some_iff.mpr ⟨inMember.isList, inMember.listKind⟩
  have arrowOwner : left.arrowBodyOwner? = some getter := by
    rw [Node.arrowBodyOwner?, isArrow]
    exact between.isGetter
  have placed : returned? left = arrowBodyOf? getter := by
    simp [returned?, isParent, between.arrow_kind, arrowOwner]
  rw [placed, arrowBodyOf?, between.getter_kind]
  dsimp only
  rw [Node.accessorProperty?, isList]
  dsimp only [Option.bind_eq_bind, Option.bind_some]
  by_cases isProperty : owner.kind = .propertyDeclaration
  · rw [Node.parent_of_eq_some_iff.mpr ⟨inMember.isOwner, isProperty⟩, Option.bind_some,
      between.is_getter_eq, if_pos rfl, if_pos isProperty]
  · rw [Node.parent_of_eq_none inMember.isOwner isProperty, Option.bind_none, if_neg isProperty]

theorem returned_by_long :
    returnedBy statement =
      if owner.kind = .propertyDeclaration then .propertyReturn otherOwner else .returnInBlock := by
  have isGetter : otherGetter.isGetter = true := by
    rw [← between.getters.is_getter_eq]
    exact between.is_getter_eq
  have getterKind : otherGetter.kind = .accessorDeclaration := by
    rw [← between.getters.kind_eq]
    exact between.getter_kind
  have accessor : (statement.ancestors.find? fun ancestor =>
      ancestor.kind == .accessorDeclaration) = some otherGetter := by
    rw [between.ancestors_statement inMember]
    simp [between.block_kind, getterKind]
  unfold returnedBy
  rw [between.enclosing_scope_statement inMember]
  dsimp only
  rw [accessor, Option.any_some, isGetter, ← inMember.owners.kind_eq]
  rcases Kind.has_accessors_iff.mp inMember.ownerKind with kind | kind
  · rw [kind]
    rfl
  · rw [kind]
    rfl

/-- The clause of an indexer does not see that its value is returned, with or without a call
around. -/
theorem returned_short (notProperty : owner.kind ≠ .propertyDeclaration)
    (climbs : ClimbsTo clause left) :
    returned? left.valueRoot = none ∧ returnedAsArgument? left.valueRoot = none := by
  induction climbs with
  | @operand node isParent =>
      have alone : node.valueRoot.argumentOwner? = none := by
        apply Node.argument_owner_eq_none isParent
        simp [between.arrow_kind]
      rw [returned_by_clause_short between inMember isParent, if_neg notProperty]
      exact ⟨rfl, returned_as_argument_eq_none alone⟩
  | @argument node call isOwner _ ih =>
      obtain ⟨parent, isParent, kind⟩ := Node.kind_of_argument_owner isOwner
      constructor
      · apply returned_eq_none isParent <;> simp [kind]
      · rw [returned_as_argument_of_not_returned isOwner ih.1]
        exact ih.2

section Rel

variable {audit other : Audit} (agrees : Agrees spelling audit other)

include values agrees

theorem rel_returned (roots : spelling.Twin left right)
    (settled : owner.kind = .propertyDeclaration ∨ left.parent? ≠ some clause) :
    Option.Rel (DecidedAlike spelling audit other) (returned? left) (returned? right) := by
  rcases roots.parents with ⟨atTop, otherAtTop⟩ | ⟨parent, otherParent, isParent, isOther, parents⟩
    | ⟨arrow, accessor, returning, body, otherAccessor, here⟩
  · rw [returned?, returned?, atTop, otherAtTop]
    exact .none
  · exact rel_returned_of_parents agrees roots isParent isOther parents
  · -- only the value itself stands between a clause and a statement
    have sameTop : left.top = value.top := by rw [roots.left_top, values.left_top]
    have isValue : left = value := Node.eq_of_place sameTop (by rw [here.place, between.place])
    subst isValue
    cases between.isArrow.symm.trans here.isArrow
    cases between.isGetter.symm.trans here.isGetter
    obtain ⟨accessors, otherAccessors, member, otherMember, around⟩ :=
      here.getters.in_member here.getterPlace
    cases inMember.isList.symm.trans around.isList
    cases inMember.isOwner.symm.trans around.isOwner
    have isProperty := settled.resolve_right fun differs => differs between.isArrow
    have long : returned? right = some (returnedBy returning) := by
      simp [returned?, here.isStatement, here.statement_kind]
    rw [returned_by_clause_short here around here.isArrow, long, returned_by_long here around,
      if_pos isProperty, if_pos isProperty]
    exact .some ⟨rfl, decide_auto_property_eq agrees around.owners isProperty⟩

theorem rel_returned_as_argument (roots : spelling.Twin left right)
    (settled : owner.kind = .propertyDeclaration ∨ ¬ClimbsTo clause left) :
    Option.Rel (DecidedAlike spelling audit other) (returnedAsArgument? left)
      (returnedAsArgument? right) := by
  induction depth : left.depth using Nat.strongRecOn generalizing left right with
  | ind bound ih =>
      rcases rel_cases roots.argument_owner with
        ⟨absent, absent'⟩ | ⟨call, otherCall, found, found', calls⟩
      · rw [returned_as_argument_eq_none absent, returned_as_argument_eq_none absent']
        exact .none
      · have further : owner.kind = .propertyDeclaration ∨ ¬ClimbsTo clause call.valueRoot := by
          apply settled.imp_right
          intro clear climbs
          have upward : ClimbsTo clause call :=
            climbs.of_value_root (Node.value_root_value_root call).symm
          apply clear
          exact .argument ((Node.value_root_of_argument_owner found).symm ▸ found) upward
        have notThere : owner.kind = .propertyDeclaration ∨
            call.valueRoot.parent? ≠ some clause := by
          apply further.imp_right
          intro clear isParent
          exact clear (.operand ((Node.value_root_value_root call).symm ▸ isParent))
        rcases rel_cases (rel_returned values between inMember agrees calls.value_root notThere)
          with ⟨absent, absent'⟩ | ⟨placement, otherPlacement, placed, placed', alike⟩
        · have outward := Node.depth_lt_of_argument_owner found
          have climbed := Node.depth_value_root_le call
          rw [returned_as_argument_of_not_returned found absent,
            returned_as_argument_of_not_returned found' absent']
          exact ih call.valueRoot.depth (by omega) calls.value_root further rfl
        · have getters := alike.getterReturn_eq
          cases isGetter : placement.isGetterReturn with
          | true =>
              rw [isGetter] at getters
              rw [returned_as_argument_of_getter found placed isGetter,
                returned_as_argument_of_getter found' placed' getters.symm]
              exact .none
          | false =>
              rw [isGetter] at getters
              rw [returned_as_argument_of_returned found placed isGetter,
                returned_as_argument_of_returned found' placed' getters.symm]
              exact .some alike

end Rel

end Value

section Questions

variable {audit other : Audit} (agrees : Agrees spelling audit other)
  (roots : spelling.Twin left right)

include agrees roots

theorem releases_receiver_eq_of_twin :
    left.invocationOnReceiver?.any audit.releasesReceiver =
      right.invocationOnReceiver?.any other.releasesReceiver := by
  rcases rel_cases roots.invocation_on_receiver with
    ⟨absent, absent'⟩ | ⟨call, otherCall, found, found', calls⟩
  · rw [absent, absent', Option.any_none, Option.any_none]
  · have kind := (Node.called_on_of_invocation_on_receiver found).invokes
    rw [found, found', Option.any_some, Option.any_some, Audit.releasesReceiver,
      Audit.releasesReceiver, agrees.rules, calls.invoked_name_eq (by rw [kind]; rfl)]

theorem rel_argument_placement :
    Option.Rel (DecidedAlike spelling audit other) (left.argumentOwner?.map argumentPlacement)
      (right.argumentOwner?.map argumentPlacement) := by
  rcases rel_cases roots.argument_owner with
    ⟨absent, absent'⟩ | ⟨call, otherCall, found, found', calls⟩
  · rw [absent, absent']
    exact .none
  · have creates := (Node.argument_owner_eq_some_iff.mp found).1
    rw [found, found']
    exact .some (alike_argument_placement agrees calls creates)

theorem rel_method_chain_link :
    Option.Rel (DecidedAlike spelling audit other)
      (left.invocationOnReceiver?.map .methodChainLink)
      (right.invocationOnReceiver?.map .methodChainLink) := by
  apply rel_map roots.invocation_on_receiver
  intro call otherCall calls
  refine ⟨rfl, ?_⟩
  intro site otherSite sites resource
  unfold Audit.decide?
  dsimp only
  rw [chain_tracks_eq_of_twin agrees calls]

omit agrees in
theorem forall₂_initializers :
    List.Forall₂ spelling.Twin
      (left.ancestors.takeWhile fun ancestor => ancestor.kind == .initializerExpression)
      (right.ancestors.takeWhile fun ancestor => ancestor.kind == .initializerExpression) := by
  apply Twin.upward _ _ _ roots
  · intro left right _ atTop otherAtTop
    rw [Node.ancestors_eq_nil atTop, Node.ancestors_eq_nil otherAtTop]
    exact .nil
  · intro left right parent otherParent _ isParent isOther parents further
    rw [Node.ancestors_of_parent isParent, Node.ancestors_of_parent isOther, List.takeWhile_cons,
      List.takeWhile_cons, ← parents.kind_eq]
    split
    · exact .cons parents further
    · exact .nil
  · intro left right arrow getter statement block otherGetter _ between _
    rw [Node.ancestors_of_parent between.isArrow, Node.ancestors_of_parent between.isStatement,
      List.takeWhile_cons_of_neg (by simp [between.arrow_kind]),
      List.takeWhile_cons_of_neg (by simp [between.statement_kind])]
    exact .nil

theorem alike_array_element :
    DecidedAlike spelling audit other
      (.arrayInitializerElement (left.valueRoot.argumentOwner?.filter fun owner =>
        owner.kind.isConstruction))
      (.arrayInitializerElement (right.valueRoot.argumentOwner?.filter fun owner =>
        owner.kind.isConstruction)) := by
  refine ⟨rfl, ?_⟩
  intro site otherSite sites resource
  unfold Audit.decide?
  dsimp only
  have owners : Option.Rel spelling.Twin
      (left.valueRoot.argumentOwner?.filter fun owner => owner.kind.isConstruction)
      (right.valueRoot.argumentOwner?.filter fun owner => owner.kind.isConstruction) := by
    apply rel_filter roots.value_root.argument_owner
    intro owner otherOwner pair
    rw [pair.kind_eq]
  rcases rel_cases owners with ⟨absent, absent'⟩ | ⟨owner, otherOwner, found, found', pair⟩
  · rw [absent, absent', Option.any_none, Option.any_none]
  · have constructs := (Option.filter_eq_some_iff.mp found).2
    rw [found, found', Option.any_some, Option.any_some,
      is_tracked_construction_eq_of_twin agrees pair (is_creation_of_is_construction constructs)]

theorem alike_collection_element (creates : left.kind.isCreation = true) :
    DecidedAlike spelling audit other (.collectionInitializerElement left)
      (.collectionInitializerElement right) := by
  refine ⟨rfl, ?_⟩
  intro site otherSite sites resource
  unfold Audit.decide?
  dsimp only
  rw [is_tracked_construction_eq_of_twin agrees roots creates]

theorem rel_initializer_element :
    Option.Rel (DecidedAlike spelling audit other) (initializerElement? left)
      (initializerElement? right) := by
  unfold initializerElement?
  apply rel_bind (Node.rel_get_last (forall₂_initializers roots))
  intro outermost otherOutermost outer
  rcases outer.parents with ⟨atTop, otherAtTop⟩ | ⟨holder, otherHolder, isHolder, isOther, holders⟩
    | ⟨arrow, getter, statement, block, otherGetter, between⟩
  · rw [atTop, otherAtTop]
    exact .none
  · rw [isHolder, isOther]
    dsimp only [Option.bind_eq_bind, Option.bind_some]
    rw [← holders.kind_eq]
    split
    · exact .some (alike_array_element agrees holders)
    · exact .some (alike_array_element agrees holders)
    · next kind => exact .some (alike_collection_element agrees holders (by rw [kind]; rfl))
    · next kind => exact .some (alike_collection_element agrees holders (by rw [kind]; rfl))
    · exact .some ⟨rfl, fun _ _ => rfl⟩
    · exact .some ⟨rfl, fun _ _ => rfl⟩
    · exact .none
  · rw [between.isArrow, between.isStatement]
    dsimp only [Option.bind_eq_bind, Option.bind_some]
    rw [between.arrow_kind, between.statement_kind]
    exact .none

omit agrees in
theorem rel_using_header :
    Option.Rel (DecidedAlike spelling audit other)
      (left.enclosingUsingHeader?.map fun _ => .usingHeader)
      (right.enclosingUsingHeader?.map fun _ => .usingHeader) := by
  have present := roots.is_some_enclosing_using_header
  cases found : left.enclosingUsingHeader? with
  | none =>
      rw [found, Option.isSome_none] at present
      have found' : right.enclosingUsingHeader? = none := by simpa using present.symm
      rw [found']
      exact .none
  | some statement =>
      rw [found, Option.isSome_some] at present
      obtain ⟨otherStatement, found'⟩ := Option.isSome_iff_exists.mp present.symm
      rw [found']
      exact .some ⟨rfl, fun _ _ => rfl⟩

/-- A value that fills a local is handed back later in both spellings, or in none. -/
theorem alike_local (inside : spelling.InValue left) {name otherName : Node}
    (names : spelling.Whole name otherName) {placement otherPlacement : Placement}
    (alike : DecidedAlike spelling audit other placement otherPlacement) :
    DecidedAlike spelling audit other
      (if audit.returnedLater left name.text then .returnLater else placement)
      (if other.returnedLater right otherName.text then .returnLater else otherPlacement) := by
  rw [copying.text_eq names, returned_later_eq_of_twin agrees roots inside]
  split
  · exact ⟨rfl, fun _ _ => rfl⟩
  · exact alike

theorem rel_declared (inside : spelling.InValue left) :
    Option.Rel (DecidedAlike spelling audit other) (left.declaratorOf?.map (audit.declared left))
      (right.declaratorOf?.map (other.declared right)) := by
  apply rel_map roots.declarator_of
  intro declarator otherDeclarator declarators
  have fields : declarator.isField = otherDeclarator.isField := by
    unfold Source.Declarator.isField
    rw [declarators.holders.kind_eq]
  have names := declarators.names
  unfold Audit.declared
  rw [fields]
  split
  · exact ⟨rfl, fun sites resource =>
      congrArg some (decide_member_eq_of_twin agrees names sites resource .field)⟩
  · apply alike_local agrees roots inside names
    exact ⟨rfl, fun sites resource =>
      congrArg some (decide_local_eq_of_twin agrees names sites resource)⟩

theorem alike_stored_under (inside : spelling.InValue left)
    {target otherTarget name otherName : Node}
    (targets : spelling.Twin target otherTarget) (names : spelling.Whole name otherName)
    (kinds : target.kind = .identifier ∨ target.kind = .memberAccessExpression) :
    DecidedAlike spelling audit other (audit.storedUnder left target name)
      (other.storedUnder right otherTarget otherName) := by
  unfold Audit.storedUnder
  rw [agrees.symbolOf targets (Or.inr kinds)]
  split
  · apply alike_local agrees roots inside names
    exact ⟨rfl, fun sites resource =>
      congrArg some (decide_local_eq_of_twin agrees names sites resource)⟩
  · apply alike_local agrees roots inside names
    exact ⟨rfl, fun sites resource =>
      congrArg some (decide_local_eq_of_twin agrees names sites resource)⟩
  · exact ⟨rfl, fun sites resource =>
      congrArg some (decide_member_eq_of_twin agrees names sites resource .property)⟩
  · exact ⟨rfl, fun sites resource =>
      congrArg some (decide_member_eq_of_twin agrees names sites resource .field)⟩

theorem rel_assigned (inside : spelling.InValue left) :
    Option.Rel (DecidedAlike spelling audit other) (audit.assigned? left)
      (other.assigned? right) := by
  unfold Audit.assigned?
  rcases rel_cases (roots.parent_of .assignmentExpression (by decide) (by decide)) with
    ⟨absent, absent'⟩ | ⟨assignment, otherAssignment, found, found', assignments⟩
  · rw [absent, absent']
    exact .none
  · have kind := (Node.parent_of_eq_some_iff.mp found).2
    have whole := assignments.whole (by rw [kind]; rfl)
    have elements := Node.is_some_eq_of_rel
      (assignments.parent_of .initializerExpression (by decide) (by decide))
    rw [found, found']
    apply rel_bind (rel_filter (copying.child whole .right) fun inner => roots.same_eq inner.1)
    intro _ _ _
    rw [elements]
    split
    · exact .some ⟨rfl, fun _ _ => rfl⟩
    · apply rel_bind (copying.child whole .left)
      intro assigned otherAssigned sides
      have targets := copying.unwrap_value sides
      dsimp only
      rw [← copying.kind_eq targets]
      split
      · next isName =>
          exact .some (alike_stored_under agrees roots inside targets.1 targets (Or.inl isName))
      · next isAccess =>
          apply rel_bind (copying.child targets .expression)
          intro receiver otherReceiver receivers
          rw [copying.is_this_eq receivers]
          split
          · apply rel_bind (copying.child targets .name)
            intro name otherName names
            exact .some (alike_stored_under agrees roots inside targets.1 names (Or.inr isAccess))
          · exact .some ⟨rfl, fun _ _ => rfl⟩
      · exact .some ⟨rfl, fun _ _ => rfl⟩

theorem rel_initialised_property :
    Option.Rel (DecidedAlike spelling audit other)
      ((initialisedProperty? left).map .autoProperty)
      ((initialisedProperty? right).map .autoProperty) := by
  unfold initialisedProperty?
  rcases rel_cases (roots.initialised .propertyDeclaration (by decide) (by decide)) with
    ⟨absent, absent'⟩ | ⟨property, otherProperty, found, found', properties⟩
  · rw [absent, absent']
    exact .none
  · have kind := eq_of_beq (Option.filter_eq_some_iff.mp found).2
    rw [found, found']
    exact .some ⟨rfl, decide_auto_property_eq agrees properties kind⟩

end Questions

section Placing

variable {value otherValue clause getter statement block otherGetter list otherList owner
    otherOwner : Node}
  (values : spelling.Twin value otherValue)
  (between : spelling.Between value otherValue clause getter statement block otherGetter)
  (inMember : spelling.InMember getter otherGetter list otherList owner otherOwner)

include between

theorem climbs_to_of_parent (isParent : left.parent? = some clause) : ClimbsTo clause left := by
  have stays : left.valueRoot = left := by
    apply Node.value_root_of_not_passes isParent
    apply Node.passes_value_eq_false
    rw [between.arrow_kind]
    rfl
  exact .operand (stays.symm ▸ isParent)

include values

theorem eq_value_of_parent (twins : spelling.Twin left right)
    (isParent : left.parent? = some clause) : left = value ∧ right = otherValue := by
  have there : value.place = (spelling.hole ++ [spelling.slot]) ++ [1] := by
    rw [between.place]
    simp
  obtain ⟨outer, isOuter, -, outerPlace, -⟩ := Node.parent_of_place there
  cases between.isArrow.symm.trans isOuter
  have isValue : left = value := by
    rcases twins.parents with ⟨atTop, -⟩ | ⟨parent, otherParent, isClause, -, parents⟩ |
      ⟨arrow, accessor, returning, body, otherAccessor, here⟩
    · rw [atTop] at isParent
      cases isParent
    · cases isParent.symm.trans isClause
      exact absurd outerPlace parents.place_ne_body
    · apply Node.eq_of_place (twins.left_top.trans values.left_top.symm)
      rw [here.place, between.place]
  subst isValue
  exact ⟨rfl, twins.unique values⟩

/-- What climbs to the clause in the short form climbs to the statement in the long one. -/
theorem climbs_to_statement (twins : spelling.Twin left right) (climbs : ClimbsTo clause left) :
    ClimbsTo statement right := by
  induction climbs generalizing right with
  | @operand node isParent =>
      have roots := twins.value_root
      obtain ⟨-, isOther⟩ := eq_value_of_parent values between roots isParent
      exact .operand (isOther.symm ▸ between.isStatement)
  | @argument node call isOwner _ ih =>
      rcases rel_cases twins.value_root.argument_owner with
        ⟨absent, -⟩ | ⟨_, otherCall, found, found', calls⟩
      · rw [isOwner] at absent
        cases absent
      · cases isOwner.symm.trans found
        exact .argument found' (ih calls)

include inMember

theorem place_value_short (audit : Audit) (notProperty : owner.kind ≠ .propertyDeclaration)
    (twins : spelling.Twin left right) (climbs : ClimbsTo clause left) :
    audit.placeValue left.valueRoot =
      (left.valueRoot.argumentOwner?.map argumentPlacement).getD .anonymous := by
  obtain ⟨notReturned, notPassedOn⟩ := returned_short between inMember notProperty climbs
  unfold Audit.placeValue
  rw [notReturned, notPassedOn, Option.none_or, Option.none_or]
  cases climbs with
  | operand isParent =>
      have kind := between.arrow_kind
      have isValue := (eq_value_of_parent values between twins.value_root isParent).1
      have notCalled : left.valueRoot.invocationOnReceiver? = none := by
        apply Node.invocation_on_receiver_eq_none isParent <;> simp [kind]
      have notPassed : left.valueRoot.argumentOwner? = none := by
        apply Node.argument_owner_eq_none isParent
        simp [kind]
      have notListed : initializerElement? left.valueRoot = none := by
        apply initializer_element_eq_none isParent
        simp [kind]
      have notHeader : left.valueRoot.enclosingUsingHeader? = none := by
        rw [isValue]
        exact between.enclosing_using_header_eq.1
      have notDeclared : left.valueRoot.declaratorOf? = none := by
        apply Node.declarator_of_eq_none isParent <;> simp [kind]
      have notAssigned : audit.assigned? left.valueRoot = none := by
        have notSide : left.valueRoot.parentOf? .assignmentExpression = none := by
          apply Node.parent_of_eq_none isParent
          simp [kind]
        rw [Audit.assigned?, notSide]
        rfl
      have notInitial : initialisedProperty? left.valueRoot = none := by
        simp [initialisedProperty?, Node.initialised?, isParent, kind]
      simp [notCalled, notPassed, notListed, notHeader, notDeclared, notAssigned, notInitial]
  | argument isOwner _ =>
      obtain ⟨parent, isParent, kind⟩ := Node.kind_of_argument_owner isOwner
      have notCalled : left.valueRoot.invocationOnReceiver? = none := by
        apply Node.invocation_on_receiver_eq_none isParent <;> simp [kind]
      simp [notCalled, isOwner]

/-- The statement of an indexer returns the value, and what is passed on with it. -/
theorem place_value_long (audit : Audit) (notProperty : owner.kind ≠ .propertyDeclaration)
    (twins : spelling.Twin left right) (climbs : ClimbsTo clause left) :
    audit.placeValue right.valueRoot = .returnInBlock := by
  have returning : returnedBy statement = .returnInBlock := by
    rw [returned_by_long between inMember, if_neg notProperty]
  have upward := climbs_to_statement values between twins climbs
  rw [audit.place_value_of_climbs_to between.statement_kind (by rw [returning]; rfl) upward,
    returning]

theorem alike_place_value {audit other : Audit} (agrees : Agrees spelling audit other)
    (roots : spelling.Twin left right) (inside : spelling.InValue left)
    (settled : owner.kind = .propertyDeclaration ∨ ¬ClimbsTo clause left) :
    DecidedAlike spelling audit other (audit.placeValue left) (other.placeValue right) := by
  have apart : owner.kind = .propertyDeclaration ∨ left.parent? ≠ some clause :=
    settled.imp_right fun clear isParent => clear (climbs_to_of_parent between isParent)
  unfold Audit.placeValue
  rw [releases_receiver_eq_of_twin agrees roots]
  split
  · exact ⟨rfl, fun _ _ => rfl⟩
  · apply alike_get_or_else
    apply rel_or (rel_returned values between inMember agrees roots apart)
    apply rel_or (rel_returned_as_argument values between inMember agrees roots settled)
    apply rel_or (rel_argument_placement agrees roots)
    apply rel_or (rel_method_chain_link agrees roots)
    apply rel_or (rel_initializer_element agrees roots)
    apply rel_or (rel_using_header roots)
    apply rel_or (rel_declared agrees roots inside)
    apply rel_or (rel_assigned agrees roots inside)
    exact rel_initialised_property agrees roots

end Placing

end ReleaseAudit.Verdict
