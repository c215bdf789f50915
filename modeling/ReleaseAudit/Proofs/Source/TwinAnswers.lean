import ReleaseAudit.Proofs.Source.Receiver
import ReleaseAudit.Proofs.Source.Twins

/-!
# Answers about twins

Where a value climbs to, what scope and what declaration it stands in, whom it
is passed to and what is called on it: from twins one comes to twins again.
-/

namespace ReleaseAudit.Source.Respelling

set_option autoImplicit false

open Node (rel_bind rel_cases rel_filter rel_map rel_or)

variable {before after : Tree} {spelling : Respelling before after} {left right : Node}

theorem Twin.passes_value_eq {parent otherParent : Node}
    (parents : spelling.Twin parent otherParent) (twins : spelling.Twin left right) :
    Node.passesValue parent left = Node.passesValue otherParent right := by
  cases wraps : Node.isWrapper parent.kind with
  | true =>
      have whole := parents.whole (Node.surrounds_accessor_of_is_wrapper wraps)
      exact copying.passes_value_eq whole fun inner => twins.same_eq inner.1
  | false =>
      have otherWraps : Node.isWrapper otherParent.kind = false := by
        rw [← parents.kind_eq]
        exact wraps
      rw [Node.passes_value_eq_false wraps, Node.passes_value_eq_false otherWraps]

/-- The climb ends at the value of the getter, in both spellings. -/
theorem Between.value_root_eq {arrow getter statement block otherGetter : Node}
    (between : spelling.Between left right arrow getter statement block otherGetter) :
    left.valueRoot = left ∧ right.valueRoot = right := by
  constructor
  · apply Node.value_root_of_not_passes between.isArrow
    apply Node.passes_value_eq_false
    rw [between.arrow_kind]
    rfl
  · apply Node.value_root_of_not_passes between.isStatement
    apply Node.passes_value_eq_false
    rw [between.statement_kind]
    rfl

theorem Twin.value_root (twins : spelling.Twin left right) :
    spelling.Twin left.valueRoot right.valueRoot := by
  apply Twin.upward _ _ _ twins
  · intro left right twins atTop otherAtTop
    rw [Node.value_root_of_no_parent atTop, Node.value_root_of_no_parent otherAtTop]
    exact twins
  · intro left right parent otherParent twins isParent isOther parents further
    have agree := parents.passes_value_eq twins
    cases passes : Node.passesValue parent left with
    | true =>
        rw [Node.value_root_of_passes isParent passes,
          Node.value_root_of_passes isOther (agree ▸ passes)]
        exact further
    | false =>
        rw [Node.value_root_of_not_passes isParent passes,
          Node.value_root_of_not_passes isOther (agree ▸ passes)]
        exact twins
  · intro left right arrow getter statement block otherGetter twins between _
    rw [between.value_root_eq.1, between.value_root_eq.2]
    exact twins

theorem Twin.awaited_by (twins : spelling.Twin left right) :
    Option.Rel spelling.Twin left.awaitedBy? right.awaitedBy? := by
  apply Twin.upward _ _ _ twins
  · intro left right _ atTop otherAtTop
    rw [Node.awaitedBy?, Node.awaitedBy?, Node.ancestors_eq_nil atTop,
      Node.ancestors_eq_nil otherAtTop]
    exact .none
  · intro left right parent otherParent _ isParent isOther parents further
    rw [Node.awaitedBy?, Node.awaitedBy?, Node.ancestors_of_parent isParent,
      Node.ancestors_of_parent isOther, Node.awaitAmong?, Node.awaitAmong?, ← parents.kind_eq]
    split
    · exact further
    · exact .some parents
    · exact .none
  · intro left right arrow getter statement block otherGetter _ between _
    rw [Node.awaitedBy?, Node.awaitedBy?, Node.ancestors_of_parent between.isArrow,
      Node.ancestors_of_parent between.isStatement, Node.awaitAmong?, Node.awaitAmong?,
      between.arrow_kind, between.statement_kind]
    exact .none

theorem scope_among_skip {node : Node} (notScope : node.kind.isScope = false)
    (notUnit : node.kind ≠ .compilationUnit) (notGlobal : node.kind ≠ .globalStatement)
    (inGlobalStatement : Bool) (enclosing : List Node) :
    Node.scopeAmong? inGlobalStatement (node :: enclosing) =
      Node.scopeAmong? inGlobalStatement enclosing := by
  rw [Node.scopeAmong?, beq_false_of_ne notUnit, beq_false_of_ne notGlobal]
  simp [notScope]

theorem Lined.scope_among {nodes others : List Node} (lined : spelling.Lined nodes others)
    (inGlobalStatement : Bool) :
    Option.Rel spelling.Twin (Node.scopeAmong? inGlobalStatement nodes)
      (Node.scopeAmong? inGlobalStatement others) := by
  induction lined generalizing inGlobalStatement with
  | nil => exact .none
  | cons pair _ ih =>
      rw [Node.scopeAmong?, Node.scopeAmong?, ← pair.kind_eq]
      split
      · exact .some pair
      · split
        · exact .some pair
        · exact ih _
  | short isArrow _ ih =>
      rw [scope_among_skip (by rw [isArrow]; rfl) (by simp [isArrow]) (by simp [isArrow])]
      exact ih inGlobalStatement
  | long wraps _ ih =>
      rcases wraps.kind_cases with kind | kind
      · rw [scope_among_skip (by rw [kind]; rfl) (by simp [kind]) (by simp [kind])]
        exact ih inGlobalStatement
      · rw [scope_among_skip (by rw [kind]; rfl) (by simp [kind]) (by simp [kind])]
        exact ih inGlobalStatement

theorem Twin.enclosing_scope (twins : spelling.Twin left right) :
    Option.Rel spelling.Twin left.enclosingScope? right.enclosingScope? :=
  twins.ancestors.scope_among false

section Around

variable {arrow getter statement block otherGetter list otherList owner otherOwner : Node}
  (between : spelling.Between left right arrow getter statement block otherGetter)
  (inMember : spelling.InMember getter otherGetter list otherList owner otherOwner)

include between inMember

theorem Between.ancestors_statement :
    statement.ancestors =
      block :: otherGetter :: otherList :: otherOwner :: otherOwner.ancestors := by
  rw [Node.ancestors_of_parent between.isBlock, Node.ancestors_of_parent between.isOther,
    Node.ancestors_of_parent inMember.isOtherList, Node.ancestors_of_parent inMember.isOtherOwner]

theorem Between.enclosing_scope_statement : statement.enclosingScope? = some otherOwner := by
  have getterKind : otherGetter.kind = .accessorDeclaration := by
    rw [← between.getters.kind_eq]
    exact between.getter_kind
  have listKind : otherList.kind = .accessorList := by
    rw [← inMember.lists.kind_eq]
    exact inMember.listKind
  have isScope : otherOwner.kind.isScope = true := by
    rw [← inMember.owners.kind_eq]
    exact Kind.is_scope_of_has_accessors inMember.ownerKind
  rw [Node.enclosingScope?, between.ancestors_statement inMember,
    scope_among_skip (by rw [between.block_kind]; rfl) (by simp [between.block_kind])
      (by simp [between.block_kind]),
    scope_among_skip (by rw [getterKind]; rfl) (by simp [getterKind]) (by simp [getterKind]),
    scope_among_skip (by rw [listKind]; rfl) (by simp [listKind]) (by simp [listKind]),
    Node.scopeAmong?, if_pos isScope]

end Around

/-- The first enclosing node of a kind that none of the nodes around the value has. -/
theorem Twin.find_ancestor (twins : spelling.Twin left right) (test : Kind → Bool)
    (notArrow : test .arrowExpressionClause = false) (notBlock : test .block = false)
    (notReturn : test .returnStatement = false) :
    Option.Rel spelling.Twin (left.ancestors.find? fun ancestor => test ancestor.kind)
      (right.ancestors.find? fun ancestor => test ancestor.kind) := by
  apply Lined.find _ _ _ twins.ancestors
  · intro node other pair
    rw [pair.kind_eq]
  · intro node isArrow
    rw [isArrow, notArrow]
  · intro node wraps
    rcases wraps.kind_cases with kind | kind
    · rw [kind, notBlock]
    · rw [kind, notReturn]

theorem Twin.enclosing_type (twins : spelling.Twin left right) :
    Option.Rel spelling.Twin left.enclosingType? right.enclosingType? :=
  twins.find_ancestor Kind.isTypeDeclaration rfl rfl rfl

theorem Twin.initialised (twins : spelling.Twin left right) (kind : Kind)
    (notArrow : kind ≠ .arrowExpressionClause) (notReturn : kind ≠ .returnStatement) :
    Option.Rel spelling.Twin (left.initialised?.filter fun node => node.kind == kind)
      (right.initialised?.filter fun node => node.kind == kind) := by
  unfold Node.initialised?
  rcases twins.parents with ⟨atTop, otherAtTop⟩ | ⟨parent, otherParent, isParent, isOther, parents⟩
    | ⟨arrow, getter, statement, block, otherGetter, between⟩
  · rw [atTop, otherAtTop]
    exact .none
  · rw [isParent, isOther]
    dsimp only [Option.bind_eq_bind, Option.bind_some]
    rw [← parents.kind_eq]
    have agree : ∀ {node other : Node}, spelling.Twin node other →
        (node.kind == kind) = (other.kind == kind) := by
      intro node other pair
      rw [pair.kind_eq]
    split
    · next isClause =>
        apply rel_filter (parents.parent _) agree
        rw [eq_of_beq isClause]
        rfl
    · exact rel_filter (.some parents) agree
  · have arrow : (some arrow).filter (fun node => node.kind == kind) = none := by
      rw [Option.filter_some, between.arrow_kind, beq_false_of_ne notArrow.symm]
      rfl
    have statement : (some statement).filter (fun node => node.kind == kind) = none := by
      rw [Option.filter_some, between.statement_kind, beq_false_of_ne notReturn.symm]
      rfl
    rw [between.isArrow, between.isStatement]
    dsimp only [Option.bind_eq_bind, Option.bind_some]
    rw [between.arrow_kind, between.statement_kind, if_neg (by decide), if_neg (by decide), arrow,
      statement]
    exact .none

structure SameDeclarator (spelling : Respelling before after) (left right : Declarator) : Prop where
  names : spelling.Whole left.name right.name
  declarations : spelling.Whole left.declaration right.declaration
  holders : spelling.Twin left.holder right.holder

theorem Twin.declarator_of (twins : spelling.Twin left right) :
    Option.Rel spelling.SameDeclarator left.declaratorOf? right.declaratorOf? := by
  unfold Node.declaratorOf?
  rcases rel_cases (twins.initialised .variableDeclarator (by decide) (by decide)) with
    ⟨absent, absent'⟩ | ⟨declarator, other, found, found', declarators⟩
  · rw [absent, absent']
    exact .none
  · have kind : declarator.kind = .variableDeclarator :=
      eq_of_beq (Option.filter_eq_some_iff.mp found).2
    have whole := declarators.whole (by rw [kind]; rfl)
    rw [found, found']
    apply rel_bind
      (rel_filter (copying.declarator_value whole) fun inner => twins.same_eq inner.1)
    intro _ _ _
    rcases rel_cases (declarators.parent_of .variableDeclaration (by decide) (by decide)) with
      ⟨absent, absent'⟩ | ⟨declaration, otherDeclaration, isAround, isOther, declarations⟩
    · rw [absent, absent']
      exact .none
    · have isVariables := (Node.parent_of_eq_some_iff.mp isAround).2
      rw [isAround, isOther]
      apply rel_bind (copying.declaration_name whole)
      intro name otherName names
      apply rel_bind (declarations.parent (by rw [isVariables]; rfl))
      intro holder otherHolder holders
      exact .some ⟨names, declarations.whole (by rw [isVariables]; rfl), holders⟩

theorem Twin.argument_owner (twins : spelling.Twin left right) :
    Option.Rel spelling.Twin left.argumentOwner? right.argumentOwner? := by
  unfold Node.argumentOwner?
  rcases rel_cases (twins.parent_of .argument (by decide) (by decide)) with
    ⟨absent, absent'⟩ | ⟨argument, other, found, found', arguments⟩
  · rw [absent, absent']
    exact .none
  · have kind := (Node.parent_of_eq_some_iff.mp found).2
    have whole := arguments.whole (by rw [kind]; rfl)
    rw [found, found']
    apply rel_bind (rel_filter (copying.last_part whole) fun inner => twins.same_eq inner.1)
    intro _ _ _
    apply rel_bind (arguments.parent_of .argumentList (by decide) (by decide))
    intro list otherList lists
    apply lists.parent_filter
    · intro owner otherOwner owners
      rw [owners.kind_eq]
    · intro node isArrow
      rw [isArrow]
      rfl
    · intro node isReturn
      rw [isReturn]
      rfl

theorem Twin.invocation_on_receiver (twins : spelling.Twin left right) :
    Option.Rel spelling.Twin left.invocationOnReceiver? right.invocationOnReceiver? := by
  rcases twins.parents with ⟨atTop, otherAtTop⟩ | ⟨parent, otherParent, isParent, isOther, parents⟩
    | ⟨arrow, getter, statement, block, otherGetter, between⟩
  · rw [Node.invocationOnReceiver?, Node.invocationOnReceiver?, atTop, otherAtTop]
    exact .none
  · rw [Node.invocationOnReceiver?, Node.invocationOnReceiver?, isParent, isOther]
    dsimp only [Option.bind_eq_bind, Option.bind_some]
    rw [← parents.kind_eq]
    split
    · next isAccess =>
        have whole := parents.whole (by rw [isAccess]; rfl)
        apply rel_bind
          (rel_filter (copying.child whole .expression) fun inner => twins.same_eq inner.1)
        intro _ _ _
        rcases rel_cases (parents.parent_of .invocationExpression (by decide) (by decide)) with
          ⟨absent, absent'⟩ | ⟨call, otherCall, found, found', calls⟩
        · rw [absent, absent']
          exact .none
        · have isCall := (Node.parent_of_eq_some_iff.mp found).2
          have wholeCall := calls.whole (by rw [isCall]; rfl)
          rw [found, found']
          apply rel_bind (rel_filter (copying.child_or_first wholeCall .function)
            fun inner => parents.same_eq inner.1)
          intro _ _ _
          exact .some calls
    · next isAccess =>
        have whole := parents.whole (by rw [isAccess]; rfl)
        apply rel_bind (rel_filter (copying.first_part whole) fun inner => twins.same_eq inner.1)
        intro _ _ _
        apply rel_or (parents.parent_of .invocationExpression (by decide) (by decide))
        exact Node.rel_imp (copying.part_of whole .invocationExpression) And.left
    · exact .none
  · have ofArrow : left.invocationOnReceiver? = none := by
      apply Node.invocation_on_receiver_eq_none between.isArrow <;> simp [between.arrow_kind]
    have ofStatement : right.invocationOnReceiver? = none := by
      apply Node.invocation_on_receiver_eq_none between.isStatement <;> simp
        [between.statement_kind]
    rw [ofArrow, ofStatement]
    exact .none

structure SameTarget (spelling : Respelling before after) (left right : CallTarget) : Prop where
  receivers : Option.Rel spelling.Whole left.receiver right.receiver
  names : spelling.Whole left.name right.name

theorem Twin.call_target (twins : spelling.Twin left right)
    (apart : left.kind.surroundsAccessor = false) :
    Option.Rel spelling.SameTarget left.callTarget? right.callTarget? := by
  unfold Node.callTarget?
  have whole := twins.whole apart
  apply rel_bind (copying.child_or_first whole .function)
  intro function other functions
  rw [← functions.1.kind_eq]
  split
  · apply rel_bind (copying.child_or_last functions .name)
    intro name otherName names
    exact .some ⟨copying.child functions .expression, names⟩
  · apply rel_bind (copying.part_of functions .memberBindingExpression)
    intro binding otherBinding bindings
    apply rel_bind (copying.child_or_last bindings .name)
    intro name otherName names
    exact .some ⟨copying.first_part functions, names⟩
  · apply rel_bind (copying.child_or_last functions .name)
    intro name otherName names
    refine .some ⟨?_, names⟩
    rcases rel_cases (twins.parent_of .conditionalAccessExpression (by decide) (by decide)) with
      ⟨absent, absent'⟩ | ⟨access, otherAccess, found, found', accesses⟩
    · rw [absent, absent']
      exact .none
    · have isAccess := (Node.parent_of_eq_some_iff.mp found).2
      rw [found, found']
      exact copying.first_part (accesses.whole (by rw [isAccess]; rfl))
  · exact .some ⟨.none, functions⟩
  · exact .some ⟨.none, functions⟩
  · exact .none

theorem Twin.invoked_name_eq (twins : spelling.Twin left right)
    (apart : left.kind.surroundsAccessor = false) : left.invokedName? = right.invokedName? := by
  unfold Node.invokedName?
  apply Node.map_eq_of_rel (twins.call_target apart)
  intro target other targets
  exact copying.simple_name_eq targets.names

theorem enclosing_using_header_outward {node parent : Node} (isParent : node.parent? = some parent)
    (passed : parent.kind = .arrowExpressionClause ∨ parent.kind = .accessorDeclaration ∨
      parent.kind = .accessorList) :
    node.enclosingUsingHeader? = parent.enclosingUsingHeader? := by
  rw [Node.enclosingUsingHeader?, Node.ancestors_of_parent isParent, Node.headerAmong?,
    Node.enclosingUsingHeader?]
  rcases passed with kind | kind | kind <;> rw [kind] <;> rfl

/-- The search for a header ends at the statement of the long form, and at the member in the
short form. -/
theorem Between.enclosing_using_header_eq {arrow getter statement block otherGetter : Node}
    (between : spelling.Between left right arrow getter statement block otherGetter) :
    left.enclosingUsingHeader? = none ∧ right.enclosingUsingHeader? = none := by
  obtain ⟨list, otherList, owner, otherOwner, inMember⟩ :=
    between.getters.in_member between.getterPlace
  constructor
  · rw [enclosing_using_header_outward between.isArrow (Or.inl between.arrow_kind),
      enclosing_using_header_outward between.isGetter (Or.inr (Or.inl between.getter_kind)),
      enclosing_using_header_outward inMember.isList (Or.inr (Or.inr inMember.listKind)),
      Node.enclosingUsingHeader?, Node.ancestors_of_parent inMember.isOwner, Node.headerAmong?]
    rcases Kind.has_accessors_iff.mp inMember.ownerKind with kind | kind
    · rw [kind]
      rfl
    · rw [kind]
      rfl
  · rw [Node.enclosingUsingHeader?, Node.ancestors_of_parent between.isStatement,
      Node.headerAmong?, between.statement_kind]
    rfl

theorem Twin.is_some_enclosing_using_header (twins : spelling.Twin left right) :
    left.enclosingUsingHeader?.isSome = right.enclosingUsingHeader?.isSome := by
  apply Twin.upward _ _ _ twins
  · intro left right _ atTop otherAtTop
    rw [Node.enclosingUsingHeader?, Node.enclosingUsingHeader?, Node.ancestors_eq_nil atTop,
      Node.ancestors_eq_nil otherAtTop]
    rfl
  · intro left right parent otherParent twins isParent isOther parents further
    rw [Node.enclosingUsingHeader?, Node.enclosingUsingHeader?, Node.ancestors_of_parent isParent,
      Node.ancestors_of_parent isOther, Node.headerAmong?, Node.headerAmong?, ← parents.kind_eq]
    split
    · next isUsing =>
        have whole := parents.whole (by rw [eq_of_beq isUsing]; rfl)
        have bodies : parent.usingBody?.any left.same = otherParent.usingBody?.any right.same :=
          Node.any_eq_of_rel (copying.child_or_last whole .body) fun inner => twins.same_eq inner.1
        rw [bodies]
        split <;> rfl
    · split
      · next isLocal =>
          have whole := parents.whole (by rw [eq_of_beq isLocal]; rfl)
          rw [copying.is_using_declaration_eq whole]
          split <;> rfl
      · split
        · rfl
        · exact further
  · intro left right arrow getter statement block otherGetter _ between _
    rw [between.enclosing_using_header_eq.1, between.enclosing_using_header_eq.2]

def IsValue (spelling : Respelling before after) (node : Node) : Prop :=
  node.place = spelling.hole ++ [spelling.slot, 1]

def InValue (spelling : Respelling before after) (node : Node) : Prop :=
  ∃ rest, node.place = spelling.hole ++ spelling.slot :: 1 :: rest

/-- The node that the value hangs from has no twin. -/
theorem Twin.place_ne_body (twins : spelling.Twin left right) :
    left.place ≠ spelling.hole ++ [spelling.slot] := by
  intro there
  cases twins with
  | outside _ _ _ clear => exact Nat.lt_irrefl _ (clear spelling.slot [] there)
  | inside rest _ _ leftThere =>
      have lengths := congrArg List.length (leftThere.symm.trans there)
      simp at lengths

theorem Twin.unique {other : Node} (twins : spelling.Twin left right)
    (others : spelling.Twin left other) : right = other := by
  apply Node.eq_of_place (twins.right_top.trans others.right_top.symm)
  cases twins with
  | outside _ _ there clear =>
      cases others with
      | outside _ _ otherThere => rw [there, otherThere]
      | inside rest _ _ leftThere => exact absurd (clear _ _ leftThere) (Nat.lt_irrefl _)
  | inside rest _ _ leftThere rightThere =>
      cases others with
      | outside _ _ _ clear => exact absurd (clear _ _ leftThere) (Nat.lt_irrefl _)
      | inside otherRest _ _ otherLeft otherRight =>
          have same : rest = otherRest := by
            simpa using leftThere.symm.trans otherLeft
          rw [rightThere, otherRight, same]

theorem Twin.between (twins : spelling.Twin left right) (isValue : spelling.IsValue left) :
    ∃ arrow getter statement block otherGetter,
      spelling.Between left right arrow getter statement block otherGetter := by
  rcases twins.cases_parent with ⟨atTop, -⟩ | ⟨parent, otherParent, index, below⟩ | between
  · rw [IsValue, atTop] at isValue
    simp at isValue
  · have split : parent.place ++ [index] = (spelling.hole ++ [spelling.slot]) ++ [1] := by
      rw [← below.place, isValue]
      simp
    exact absurd (List.append_inj' split rfl).1 below.parents.place_ne_body
  · exact between

theorem InValue.parent {parent otherParent : Node} (inside : spelling.InValue left)
    (isParent : left.parent? = some parent) (parents : spelling.Twin parent otherParent) :
    spelling.InValue parent := by
  obtain ⟨rest, there⟩ := inside
  rcases List.eq_nil_or_concat rest with rfl | ⟨start, index, rfl⟩
  · have split : left.place = (spelling.hole ++ [spelling.slot]) ++ [1] := by
      rw [there]
      simp
    obtain ⟨outer, isOuter, -, outerPlace, -⟩ := Node.parent_of_place split
    cases isParent.symm.trans isOuter
    exact absurd outerPlace parents.place_ne_body
  · have split : left.place = (spelling.hole ++ spelling.slot :: 1 :: start) ++ [index] := by
      rw [there]
      simp
    obtain ⟨outer, isOuter, -, outerPlace, -⟩ := Node.parent_of_place split
    cases isParent.symm.trans isOuter
    exact ⟨start, outerPlace⟩

theorem InValue.value_root (inside : spelling.InValue left) (twins : spelling.Twin left right) :
    spelling.InValue left.valueRoot := by
  revert inside
  apply Twin.upward _ _ _ twins
  · intro left right _ atTop _ inside
    rw [Node.value_root_of_no_parent atTop]
    exact inside
  · intro left right parent otherParent _ isParent _ parents further inside
    cases passes : Node.passesValue parent left with
    | true =>
        rw [Node.value_root_of_passes isParent passes]
        exact further (inside.parent isParent parents)
    | false =>
        rw [Node.value_root_of_not_passes isParent passes]
        exact inside
  · intro left right arrow getter statement block otherGetter _ between _ inside
    rw [between.value_root_eq.1]
    exact inside

theorem InValue.awaited_by {await : Node} (inside : spelling.InValue left)
    (twins : spelling.Twin left right) (found : left.awaitedBy? = some await) :
    spelling.InValue await := by
  revert inside found
  apply Twin.upward _ _ _ twins
  · intro left right _ atTop _ inside found
    rw [Node.awaitedBy?, Node.ancestors_eq_nil atTop] at found
    cases found
  · intro left right parent otherParent _ isParent _ parents further inside found
    rw [Node.awaitedBy?, Node.ancestors_of_parent isParent, Node.awaitAmong?] at found
    split at found
    · exact further (inside.parent isParent parents) found
    · cases found
      exact inside.parent isParent parents
    · cases found
  · intro left right arrow getter statement block otherGetter _ between _ _ found
    rw [Node.awaitedBy?, Node.ancestors_of_parent between.isArrow, Node.awaitAmong?,
      between.arrow_kind] at found
    cases found

theorem InValue.start_le_stop {value other : Node} (inside : spelling.InValue left)
    (twins : spelling.Twin left right) (isValue : spelling.IsValue value)
    (values : spelling.Twin value other) : value.start ≤ left.stop := by
  obtain ⟨rest, there⟩ := inside
  obtain ⟨_, _, _, _, _, between⟩ := values.between isValue
  have found := left.at_place
  have outer := value.at_place
  rw [twins.left_top, there] at found
  rw [values.left_top, isValue] at outer
  have split : spelling.hole ++ spelling.slot :: 1 :: rest =
      (spelling.hole ++ [spelling.slot, 1]) ++ rest := by simp
  rw [split, Tree.at_append, outer, Option.bind_some] at found
  obtain ⟨ordered, nested, -⟩ := Tree.nested_of_at between.ordered found
  have own := ((Tree.is_ordered_iff left.tree).mp ordered).1
  exact Nat.le_trans nested own

/-- The statement of the long form starts before the value, so nothing in the value has ended
by then. -/
theorem WrapsValue.start_lt_stop {node : Node} (wraps : spelling.WrapsValue node)
    (isReturn : node.kind = .returnStatement) (inside : spelling.InValue left)
    (twins : spelling.Twin left right) : node.start < right.stop := by
  cases wraps with
  | block isBlock =>
      rw [isReturn] at isBlock
      cases isBlock
  | @statement value other _ values isValue later =>
      have ends := (values.start.le_iff twins.stop).mp (inside.start_le_stop twins isValue values)
      omega

end ReleaseAudit.Source.Respelling
