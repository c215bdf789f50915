import ReleaseAudit.Proofs.Source.Argument
import ReleaseAudit.Proofs.Source.Sample

/-!
# Headers of `using`, from inside and from outside

A creation looks for the `using` that acquires it going up, past everything
that is neither a statement nor a scope; a `using` lists the parts of its
header going down. A way up that nothing ends passes through one child of the
statement, and the search accepts that child exactly if the header lists it.
-/

namespace ReleaseAudit.Source

set_option autoImplicit false

/-- No search for a header goes beyond blocks, files, lists of declarations, scopes and
statements. -/
def Kind.endsHeaderSearch (kind : Kind) : Bool :=
  kind == .block || kind == .compilationUnit || kind == .declarationList || kind.isScope ||
    kind.isStatement

@[simp] theorem Kind.ends_header_search_using_statement :
    Kind.usingStatement.endsHeaderSearch = true := by
  decide +kernel

@[simp] theorem Kind.ends_header_search_local_declaration_statement :
    Kind.localDeclarationStatement.endsHeaderSearch = true := by
  decide +kernel

namespace Node

/-- The statement is a `using` that acquires what its child holds. -/
def acquires (statement child : Node) : Bool :=
  statement.kind == .usingStatement && !statement.usingBody?.any child.same ||
    statement.isUsingDeclaration

theorem kind_of_acquires {statement child : Node} (acquired : statement.acquires child = true) :
    statement.kind = .usingStatement ∨ statement.kind = .localDeclarationStatement := by
  simp only [acquires, isUsingDeclaration, Bool.or_eq_true, Bool.and_eq_true,
    beq_iff_eq] at acquired
  exact acquired.imp And.left And.left

theorem ends_header_search_of_acquires {statement child : Node}
    (acquired : statement.acquires child = true) : statement.kind.endsHeaderSearch = true := by
  rcases kind_of_acquires acquired with kind | kind <;> simp [kind]

theorem enclosing_using_header_step {node parent : Node} (isParent : node.parent? = some parent) :
    node.enclosingUsingHeader? =
      if parent.acquires node then some parent
      else if parent.kind.endsHeaderSearch then none
      else parent.enclosingUsingHeader? := by
  rw [enclosingUsingHeader?, ancestors_of_parent isParent, headerAmong?]
  by_cases isUsing : parent.kind = .usingStatement
  · cases isBody : parent.usingBody?.any node.same <;>
      simp [acquires, isUsingDeclaration, isUsing, isBody]
  by_cases isDeclaration : parent.kind = .localDeclarationStatement
  · simp [acquires, isDeclaration]
  · have notAcquired : ¬parent.acquires node = true := by
      simp [acquires, isUsingDeclaration, isUsing, isDeclaration]
    rw [if_neg notAcquired, if_neg (by simpa using isUsing), if_neg (by simpa using isDeclaration)]
    rfl

/-- Nothing from the parent of the node up to the outer node ends the search. -/
def ClearUpTo (node outer : Node) : Prop :=
  ∀ between ∈ node.ancestors, between.Within outer → between.kind.endsHeaderSearch = false

theorem clear_up_to_self (node : Node) : node.ClearUpTo node := by
  intro between above inside
  have higher := depth_lt_of_mem_ancestors_from above
  have lower := inside.depth_le
  unfold depth at *
  omega

theorem clear_up_to_iff {node parent outer : Node} (isParent : node.parent? = some parent)
    (inside : parent.Within outer) :
    node.ClearUpTo outer ↔ parent.kind.endsHeaderSearch = false ∧ parent.ClearUpTo outer := by
  unfold ClearUpTo
  rw [ancestors_of_parent isParent, List.forall_mem_cons]
  constructor
  · rintro ⟨own, further⟩
    exact ⟨own inside, further⟩
  · rintro ⟨own, further⟩
    exact ⟨fun _ => own, further⟩

/-- The search finds the statements that acquire a child of theirs to which the way is clear. -/
theorem enclosing_using_header_eq_some_iff {node statement : Node} :
    node.enclosingUsingHeader? = some statement ↔
      ∃ child : Node, child.parent? = some statement ∧ statement.acquires child = true ∧
        node.Within child ∧ node.ClearUpTo child := by
  obtain ⟨tree, above, linked⟩ := node
  induction above generalizing tree with
  | nil =>
      constructor
      · intro found
        cases found
      · rintro ⟨child, isChild, -, inside, -⟩
        rcases inside with rfl | further
        · cases isChild
        · cases further
  | cons frame above ih =>
      have isParent : parent? ⟨tree, frame :: above, linked⟩ =
          some ⟨frame.parent, above, linked.2⟩ := rfl
      have outer := ih frame.parent linked.2
      generalize (⟨tree, frame :: above, linked⟩ : Node) = node at *
      generalize (⟨frame.parent, above, linked.2⟩ : Node) = parent at *
      rw [enclosing_using_header_step isParent]
      constructor
      · intro found
        split at found
        · next acquired =>
            cases found
            exact ⟨node, isParent, acquired, .self node, node.clear_up_to_self⟩
        · split at found
          · cases found
          · next passes =>
              obtain ⟨child, isChild, acquired, inside, clear⟩ := outer.mp found
              refine ⟨child, isChild, acquired, .parent isParent inside, ?_⟩
              exact (clear_up_to_iff isParent inside).mpr ⟨by simpa using passes, clear⟩
      · rintro ⟨child, isChild, acquired, inside, clear⟩
        rcases inside.eq_or_parent isParent with rfl | further
        · cases isParent.symm.trans isChild
          rw [if_pos acquired]
        · obtain ⟨passes, clearAbove⟩ := (clear_up_to_iff isParent further).mp clear
          have notAcquired : ¬parent.acquires node = true := by
            intro acquired
            rw [ends_header_search_of_acquires acquired] at passes
            cases passes
          rw [if_neg notAcquired, if_neg (by simp [passes])]
          exact outer.mpr ⟨child, isChild, acquired, further, clearAbove⟩

theorem mem_using_header_iff {statement child : Node} :
    child ∈ statement.usingHeader ↔
      child ∈ statement.parts ∧ statement.acquires child = true ∧
        (statement.kind = .localDeclarationStatement → child.kind = .variableDeclaration) := by
  unfold usingHeader
  split
  · next kind => simp [acquires, kind, isUsingDeclaration]
  · next kind =>
      by_cases isUsing : statement.isUsingDeclaration = true
      · simp [acquires, kind, isUsing, partsOf]
      · simp [acquires, kind, isUsing]
  · next notUsing notDeclaration =>
      constructor
      · intro member
        cases member
      · rintro ⟨-, acquired, -⟩
        rcases kind_of_acquires acquired with kind | kind
        · exact absurd kind notUsing
        · exact absurd kind notDeclaration

end Node

namespace Tree

/-- A local declaration holds its variables and, beside them, only modifiers and comments. -/
def holdsOnlyVariables (tree : Tree) : Bool :=
  decide (tree.label.kind = .localDeclarationStatement → ∀ child ∈ tree.children,
    child.label.named = true → child.label.kind ≠ .comment → child.label.kind ≠ .modifier →
      child.label.kind = .variableDeclaration)

/-- What the grammar says of the smallest nodes: tokens and comments hold nothing, modifiers hold
tokens, and no token passes for a creation. -/
def isBare (tree : Tree) : Bool :=
  decide ((tree.label.named = false ∨ tree.label.kind = .comment → tree.children.isEmpty = true) ∧
    (tree.label.kind = .modifier → ∀ child ∈ tree.children, child.label.named = false) ∧
    (tree.label.kind.isCreation = true → tree.label.named = true))

end Tree

namespace Node

theorem Within.of_parents {holds : Node → Prop}
    (passes : ∀ node parent : Node, node.parent? = some parent → holds node → holds parent)
    {node outer : Node} (inside : node.Within outer) (start : holds node) : holds outer := by
  obtain ⟨tree, above, linked⟩ := node
  induction above generalizing tree with
  | nil =>
      rcases inside with rfl | further
      · exact start
      · cases further
  | cons frame above ih =>
      rcases inside.eq_or_parent rfl with rfl | further
      · exact start
      · exact ih frame.parent linked.2 further (passes _ _ rfl start)

def IsPlain (node : Node) : Prop :=
  node.named = true ∧ node.kind ≠ .comment ∧ node.kind ≠ .modifier

theorem is_plain_of_child {node parent : Node} (bare : parent.top.everywhere Tree.isBare = true)
    (isParent : node.parent? = some parent) (isNamed : node.named = true) : parent.IsPlain := by
  have member := tree_mem_of_mem_children (mem_children_of_parent isParent)
  obtain ⟨leaf, modifiers, -⟩ := of_decide_eq_true (check_tree_of_everywhere bare :)
  have notEmpty : ¬parent.tree.children.isEmpty = true := by
    intro empty
    rw [List.isEmpty_iff.mp empty] at member
    cases member
  refine ⟨?_, ?_, ?_⟩
  · cases named : parent.named with
    | true => rfl
    | false => exact absurd (leaf (Or.inl named)) notEmpty
  · intro comment
    exact notEmpty (leaf (Or.inr comment))
  · intro modifier
    have unnamed : node.named = false := modifiers modifier node.tree member
    rw [isNamed] at unnamed
    cases unnamed

theorem is_plain_of_within_creation {node outer : Node}
    (bare : node.top.everywhere Tree.isBare = true) (creates : node.kind.isCreation = true)
    (inside : node.Within outer) : outer.IsPlain := by
  have isNamed : node.named = true :=
    (of_decide_eq_true (check_tree_of_everywhere bare :)).2.2 creates
  have own : node.IsPlain := by
    refine ⟨isNamed, ?_, ?_⟩ <;> intro kind <;> rw [kind] at creates <;> cases creates
  have passes : ∀ inner parent : Node, inner.parent? = some parent →
      inner.top = node.top ∧ inner.IsPlain → parent.top = node.top ∧ parent.IsPlain := by
    rintro inner parent isParent ⟨sameTop, plain⟩
    rw [top_of_parent isParent] at sameTop
    exact ⟨sameTop, is_plain_of_child (sameTop ▸ bare) isParent plain.1⟩
  exact (inside.of_parents passes ⟨rfl, own⟩).2

/-- Of the nodes around a creation, the child that a statement acquires is in its header. -/
theorem mem_using_header_of_acquires {node child statement : Node}
    (declares : node.top.everywhere Tree.holdsOnlyVariables = true)
    (bare : node.top.everywhere Tree.isBare = true) (creates : node.kind.isCreation = true)
    (inside : node.Within child) (isChild : child.parent? = some statement)
    (acquired : statement.acquires child = true) : child ∈ statement.usingHeader := by
  obtain ⟨isNamed, notComment, notModifier⟩ := is_plain_of_within_creation bare creates inside
  have member := mem_children_of_parent isChild
  have isPart : child ∈ statement.parts :=
    List.mem_filter.mpr ⟨List.mem_filter.mpr ⟨member, isNamed⟩, bne_iff_ne.mpr notComment⟩
  refine mem_using_header_iff.mpr ⟨isPart, acquired, fun kind => ?_⟩
  have sameTop : statement.top = node.top :=
    (top_of_parent isChild).symm.trans (Within.iff_place.mp inside).1
  rw [← sameTop] at declares
  exact of_decide_eq_true (check_tree_of_everywhere declares :) kind child.tree
    (tree_mem_of_mem_children member) isNamed notComment notModifier

theorem Within.of_depth_le {node inner outer : Node} (inInner : node.Within inner)
    (inOuter : node.Within outer) (deeper : outer.depth ≤ inner.depth) : inner.Within outer := by
  obtain ⟨sameInner, innerPlace⟩ := iff_place.mp inInner
  obtain ⟨sameOuter, outerPlace⟩ := iff_place.mp inOuter
  refine iff_place.mpr ⟨sameOuter.trans sameInner.symm, ?_⟩
  apply List.prefix_of_prefix_length_le outerPlace innerPlace
  simpa [place, path, depth] using deeper

/-- No search leaves a scope. -/
theorem enclosing_using_header_ne_of_scope {node function statement : Node}
    (isScope : function.kind.isScope = true) (above : function ∈ node.ancestors)
    (outside : statement ∈ function.ancestors) :
    node.enclosingUsingHeader? ≠ some statement := by
  intro found
  obtain ⟨child, isChild, -, inside, clear⟩ := enclosing_using_header_eq_some_iff.mp found
  have deeper : child.depth ≤ function.depth := by
    have first := depth_of_parent isChild
    have second := depth_lt_of_mem_ancestors_from outside
    unfold depth at *
    omega
  have passes := clear function above (Within.of_depth_le (Or.inr above) inside deeper)
  simp [Kind.endsHeaderSearch, isScope] at passes

/-- The body of a `using` is not acquired. -/
theorem enclosing_using_header_ne_of_body {node body statement : Node}
    (kind : statement.kind = .usingStatement) (isBody : statement.usingBody? = some body)
    (inBody : node.Within body) : node.enclosingUsingHeader? ≠ some statement := by
  intro found
  obtain ⟨child, isChild, acquired, inside, -⟩ := enclosing_using_header_eq_some_iff.mp found
  have bodyChild := parent_of_mem_children (mem_children_of_child_or_last isBody)
  cases inside.child_unique inBody isChild bodyChild
  simp [acquires, kind, isUsingDeclaration, isBody, same_self] at acquired

end Node

/-- A creation finds a `using` exactly if a part of its header is around the creation and nothing
between them ends the search. So no `using` is found from its body or out of a function. -/
theorem enclosing_using_header_iff_header (node : Node) (creates : node.kind.isCreation = true)
    (declares : node.top.everywhere Tree.holdsOnlyVariables = true)
    (bare : node.top.everywhere Tree.isBare = true) :
    (∀ statement : Node, node.enclosingUsingHeader? = some statement ↔
      ∃ header ∈ statement.usingHeader, node.Within header ∧
        ∀ between ∈ node.ancestors, between.Within header →
          between.kind.endsHeaderSearch = false) ∧
    (∀ statement body : Node, statement.kind = .usingStatement →
      statement.usingBody? = some body → node.Within body →
      node.enclosingUsingHeader? ≠ some statement) ∧
    ∀ statement function : Node, function.kind.isScope = true → function ∈ node.ancestors →
      statement ∈ function.ancestors → node.enclosingUsingHeader? ≠ some statement := by
  refine ⟨fun statement => ?_, ?_, ?_⟩
  · rw [Node.enclosing_using_header_eq_some_iff]
    constructor
    · rintro ⟨child, isChild, acquired, inside, clear⟩
      have listed := Node.mem_using_header_of_acquires declares bare creates inside isChild acquired
      exact ⟨child, listed, inside, clear⟩
    · rintro ⟨header, listed, inside, clear⟩
      obtain ⟨isPart, acquired, -⟩ := Node.mem_using_header_iff.mp listed
      exact ⟨header, Node.parent_of_mem_parts isPart, acquired, inside, clear⟩
  · intro statement body kind isBody inBody
    exact Node.enclosing_using_header_ne_of_body kind isBody inBody
  · intro statement function isScope above outside
    exact Node.enclosing_using_header_ne_of_scope isScope above outside

section

open Sample (branch invocationOf)

/-- `() => F()` -/
def functionTree : Tree :=
  branch .lambdaExpression none [invocationOf []]

/-- `r = F(() => F())` -/
def declaratorTree : Tree :=
  branch .variableDeclarator none [invocationOf [branch .argument none [functionTree]]]

/-- `F();` -/
def bodyTree : Tree :=
  branch (.other "expression_statement") (some .body) [invocationOf []]

/-- `using (var r = F(() => F())) F();` -/
def usingTree : Tree :=
  branch .usingStatement none
    [.node ⟨.other "using", false, none, 0, 0, "using"⟩ [],
      branch .variableDeclaration none [declaratorTree], bodyTree]

def acquiredCall : Node :=
  ⟨invocationOf [branch .argument none [functionTree]],
    [⟨declaratorTree, 0⟩, ⟨branch .variableDeclaration none [declaratorTree], 0⟩, ⟨usingTree, 1⟩],
    rfl, rfl, rfl, trivial⟩

/-- The call in the function that is passed in the header. -/
def functionCall : Node :=
  ⟨invocationOf [], ⟨functionTree, 0⟩ :: ⟨branch .argument none [functionTree], 0⟩ ::
    ⟨branch .argumentList (some .arguments) [branch .argument none [functionTree]], 0⟩ ::
    ⟨acquiredCall.tree, 1⟩ :: acquiredCall.above, rfl, rfl, rfl, rfl, acquiredCall.linked⟩

def bodyCall : Node :=
  ⟨invocationOf [], [⟨bodyTree, 0⟩, ⟨usingTree, 2⟩], rfl, rfl, trivial⟩

theorem enclosing_using_header_iff_header_nested :
    (∃ header ∈ (Node.root usingTree).usingHeader, acquiredCall.Within header) ∧
    functionCall.enclosingUsingHeader? ≠ some (.root usingTree) ∧
    bodyCall.enclosingUsingHeader? ≠ some (.root usingTree) := by
  have acquired := (enclosing_using_header_iff_header acquiredCall rfl (by decide +kernel)
    (by decide +kernel)).1
  have inFunction := (enclosing_using_header_iff_header functionCall rfl (by decide +kernel)
    (by decide +kernel)).2.2
  have inBody := (enclosing_using_header_iff_header bodyCall rfl (by decide +kernel)
    (by decide +kernel)).2.1
  refine ⟨?_, ?_, ?_⟩
  · obtain ⟨header, listed, inside, -⟩ := (acquired (.root usingTree)).mp rfl
    exact ⟨header, listed, inside⟩
  · apply inFunction _ ⟨functionTree, functionCall.above.tail, functionCall.linked.2⟩ rfl
    · exact List.mem_cons_self
    · simp [functionCall, acquiredCall, Node.ancestors, Node.ancestorsFrom, Node.root]
  · apply inBody _ ⟨bodyTree, bodyCall.above.tail, bodyCall.linked.2⟩ rfl rfl
    exact Or.inr List.mem_cons_self

end

end ReleaseAudit.Source
