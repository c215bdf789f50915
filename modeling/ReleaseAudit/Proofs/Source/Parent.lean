import ReleaseAudit.Source.Declaration
import ReleaseAudit.Source.Call

/-!
# What a parent's kind rules out

Every upward question about a value looks at the parent first. Where the kind
of the parent does not fit, the question has no answer; where the question has
an answer, the kind of the parent is known.
-/

namespace ReleaseAudit.Source.Node

set_option autoImplicit false

theorem ancestors_of_parent {node parent : Node} (found : node.parent? = some parent) :
    node.ancestors = parent :: parent.ancestors := by
  obtain ⟨tree, above, linked⟩ := node
  cases above with
  | nil => cases found
  | cons frame above =>
      cases found
      rfl

theorem parent_of_mem_parts {node child : Node} (member : child ∈ node.parts) :
    child.parent? = some node :=
  parent_of_mem_children (mem_children_of_mem_parts member)

theorem parent_of_body {node body : Node} (found : node.body? = some body) :
    body.parent? = some node := by
  rcases Option.or_eq_some_iff.mp found with byField | ⟨_, byKind⟩
  · exact parent_of_mem_children (mem_children_of_child byField)
  · exact parent_of_mem_parts (mem_parts_of_part_of byKind)

theorem parent_of_eq_some_iff {node parent : Node} {kind : Kind} :
    node.parentOf? kind = some parent ↔ node.parent? = some parent ∧ parent.kind = kind := by
  simp [parentOf?, Option.filter_eq_some_iff]

theorem parent_of_eq_none {node parent : Node} {kind : Kind} (found : node.parent? = some parent)
    (other : parent.kind ≠ kind) : node.parentOf? kind = none := by
  simp [parentOf?, found, other]

theorem argument_owner_eq_none {root parent : Node} (found : root.parent? = some parent)
    (other : parent.kind ≠ .argument) : root.argumentOwner? = none := by
  rw [argumentOwner?, parent_of_eq_none found other]
  rfl

theorem kind_of_argument_owner {root owner : Node} (found : root.argumentOwner? = some owner) :
    ∃ parent, root.parent? = some parent ∧ parent.kind = .argument := by
  obtain ⟨argument, isArgument, -⟩ := Option.bind_eq_some_iff.mp found
  exact ⟨argument, parent_of_eq_some_iff.mp isArgument⟩

theorem arrow_body_owner_eq_none {root parent : Node} (found : root.parent? = some parent)
    (other : parent.kind ≠ .arrowExpressionClause) : root.arrowBodyOwner? = none := by
  rw [arrowBodyOwner?, parent_of_eq_none found other]
  rfl

theorem invocation_on_receiver_eq_none {root parent : Node} (found : root.parent? = some parent)
    (notAccess : parent.kind ≠ .memberAccessExpression)
    (notConditional : parent.kind ≠ .conditionalAccessExpression) :
    root.invocationOnReceiver? = none := by
  simp only [invocationOnReceiver?, found, Option.bind_eq_bind, Option.bind_some]

theorem kind_of_invocation_on_receiver {root invocation : Node}
    (found : root.invocationOnReceiver? = some invocation) :
    ∃ parent, root.parent? = some parent ∧
      (parent.kind = .memberAccessExpression ∨ parent.kind = .conditionalAccessExpression) := by
  obtain ⟨parent, isParent, found⟩ := Option.bind_eq_some_iff.mp found
  refine ⟨parent, isParent, ?_⟩
  split at found
  · next access => exact Or.inl access
  · next conditional => exact Or.inr conditional
  · cases found

theorem declarator_of_eq_none {root parent : Node} (found : root.parent? = some parent)
    (notClause : parent.kind ≠ .equalsValueClause)
    (notDeclarator : parent.kind ≠ .variableDeclarator) : root.declaratorOf? = none := by
  simp [declaratorOf?, initialised?, found, notClause, notDeclarator]

theorem parent_of_declarator_of {root : Node} {declared : Declarator}
    (found : root.declaratorOf? = some declared) :
    ∃ parent, root.parent? = some parent ∧
      (parent.kind = .variableDeclarator ∧ parent = declared.declarator ∨
        parent.kind = .equalsValueClause ∧ parent.parent? = some declared.declarator) := by
  obtain ⟨declarator, isDeclarator, found⟩ := Option.bind_eq_some_iff.mp found
  obtain ⟨value, -, found⟩ := Option.bind_eq_some_iff.mp found
  obtain ⟨declaration, -, found⟩ := Option.bind_eq_some_iff.mp found
  obtain ⟨name, -, found⟩ := Option.bind_eq_some_iff.mp found
  obtain ⟨holder, -, found⟩ := Option.bind_eq_some_iff.mp found
  cases found
  obtain ⟨initialised, isKind⟩ := Option.filter_eq_some_iff.mp isDeclarator
  obtain ⟨parent, isParent, stands⟩ := Option.bind_eq_some_iff.mp initialised
  refine ⟨parent, isParent, ?_⟩
  split at stands
  · next clause => exact Or.inr ⟨eq_of_beq clause, stands⟩
  · cases stands
    exact Or.inl ⟨eq_of_beq isKind, rfl⟩

theorem declarator_of_declarator_of {root : Node} {declared : Declarator}
    (found : root.declaratorOf? = some declared) :
    declared.declarator.kind = .variableDeclarator ∧
      declared.declarator.parent? = some declared.declaration ∧
      declared.declaration.kind = .variableDeclaration := by
  obtain ⟨declarator, isDeclarator, found⟩ := Option.bind_eq_some_iff.mp found
  obtain ⟨value, -, found⟩ := Option.bind_eq_some_iff.mp found
  obtain ⟨declaration, isDeclaration, found⟩ := Option.bind_eq_some_iff.mp found
  obtain ⟨name, -, found⟩ := Option.bind_eq_some_iff.mp found
  obtain ⟨holder, -, found⟩ := Option.bind_eq_some_iff.mp found
  cases found
  exact ⟨eq_of_beq (Option.filter_eq_some_iff.mp isDeclarator).2,
    parent_of_eq_some_iff.mp isDeclaration⟩

theorem parent_of_mem_using_header {resource statement : Node}
    (member : resource ∈ statement.usingHeader) :
    resource.parent? = some statement ∧
      (statement.kind = .usingStatement ∧ statement.usingBody?.any resource.same = false ∨
        statement.kind = .localDeclarationStatement ∧ statement.isUsingDeclaration = true) := by
  unfold usingHeader at member
  split at member
  · next kind =>
      obtain ⟨inParts, notBody⟩ := List.mem_filter.mp member
      refine ⟨parent_of_mem_children (mem_children_of_mem_parts inParts), Or.inl ⟨kind, ?_⟩⟩
      simpa using notBody
  · next kind =>
      split at member
      · next isUsing =>
          have inParts := (List.mem_filter.mp member).1
          exact ⟨parent_of_mem_children (mem_children_of_mem_parts inParts),
            Or.inr ⟨kind, isUsing⟩⟩
      · cases member
  · cases member

theorem enclosing_using_header_of_mem {resource statement : Node}
    (member : resource ∈ statement.usingHeader) :
    resource.enclosingUsingHeader? = some statement := by
  obtain ⟨isParent, shape⟩ := parent_of_mem_using_header member
  rw [enclosingUsingHeader?, ancestors_of_parent isParent, headerAmong?]
  rcases shape with ⟨kind, notBody⟩ | ⟨kind, isUsing⟩
  · simp [kind, notBody]
  · simp [kind, isUsing]

theorem enclosing_using_header_of_parent {node parent : Node} (found : node.parent? = some parent)
    (passed : parent.kind = .equalsValueClause ∨ parent.kind = .variableDeclarator ∨
      parent.kind = .variableDeclaration) :
    node.enclosingUsingHeader? = parent.enclosingUsingHeader? := by
  rw [enclosingUsingHeader?, ancestors_of_parent found, headerAmong?, enclosingUsingHeader?]
  rcases passed with kind | kind | kind <;> rw [kind] <;> rfl

theorem enclosing_using_header_of_declarator_of {root statement : Node} {declared : Declarator}
    (found : root.declaratorOf? = some declared)
    (member : declared.declaration ∈ statement.usingHeader) :
    root.enclosingUsingHeader? = some statement := by
  obtain ⟨isDeclarator, isDeclaration, kind⟩ := declarator_of_declarator_of found
  have above : declared.declarator.enclosingUsingHeader? = some statement := by
    rw [enclosing_using_header_of_parent isDeclaration (Or.inr (Or.inr kind))]
    exact enclosing_using_header_of_mem member
  obtain ⟨parent, isParent, ⟨kind, rfl⟩ | ⟨kind, isGrandparent⟩⟩ := parent_of_declarator_of found
  · rw [enclosing_using_header_of_parent isParent (Or.inr (Or.inl kind))]
    exact above
  · rw [enclosing_using_header_of_parent isParent (Or.inl kind),
      enclosing_using_header_of_parent isGrandparent (Or.inr (Or.inl isDeclarator))]
    exact above

end ReleaseAudit.Source.Node
