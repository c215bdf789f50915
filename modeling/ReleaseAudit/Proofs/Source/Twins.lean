import ReleaseAudit.Proofs.Source.Climb
import ReleaseAudit.Proofs.Source.Copy
import ReleaseAudit.Proofs.Source.Preorder
import ReleaseAudit.Proofs.Source.Respelling

/-!
# What is asked of twins

Questions about enclosing nodes pass over the clause of the one spelling and
over the block and the statement of the other, or end at them alike. So the
nodes that are found from twins are twins again, and the nodes found below
twins are the same but for those three.
-/

namespace ReleaseAudit.Source

set_option autoImplicit false

namespace Node

theorem ancestors_eq_nil {node : Node} (atTop : node.parent? = none) : node.ancestors = [] := by
  obtain ⟨tree, above, linked⟩ := node
  cases above with
  | nil => rfl
  | cons frame above => cases atTop

theorem value_root_of_no_parent {node : Node} (atTop : node.parent? = none) :
    node.valueRoot = node := by
  rw [valueRoot, ancestors_eq_nil atTop, climbValue]

theorem surrounds_accessor_of_is_wrapper {kind : Kind} (wraps : isWrapper kind = true) :
    kind.surroundsAccessor = false := by
  unfold isWrapper at wraps
  split at wraps
  case h_7 => cases wraps
  all_goals rfl

theorem children_split {node : Node} {first second : List Tree}
    (trees : node.tree.children = first ++ second) :
    ∃ front back, node.children = front ++ back ∧ front.map Node.tree = first ∧
      back.map Node.tree = second := by
  rw [← map_tree_children] at trees
  exact List.map_eq_append_iff.mp trees

theorem place_of_split {node child : Node} {front back : List Node}
    (split : node.children = front ++ child :: back) :
    child.place = node.place ++ [front.length] := by
  have inside : front.length < node.children.length := by
    rw [split]
    simp
  have place := place_get_elem_children node front.length inside
  simpa [split] using place

theorem eq_of_map_pair {nodes : List Node} {first second : Tree}
    (trees : nodes.map Node.tree = [first, second]) :
    ∃ left right, nodes = [left, right] ∧ left.tree = first ∧ right.tree = second := by
  match nodes with
  | [left, right] =>
      cases trees
      exact ⟨left, right, rfl, rfl, rfl⟩

theorem eq_of_map_triple {nodes : List Node} {first second third : Tree}
    (trees : nodes.map Node.tree = [first, second, third]) :
    ∃ left middle right, nodes = [left, middle, right] ∧ left.tree = first ∧
      middle.tree = second ∧ right.tree = third := by
  match nodes with
  | [left, middle, right] =>
      cases trees
      exact ⟨left, middle, right, rfl, rfl, rfl, rfl⟩

theorem is_getter_eq_names_getter (node : Node) :
    node.isGetter = Tree.namesGetter node.tree.children := by
  unfold isGetter Tree.namesGetter child? hasToken
  rw [← map_tree_children, List.find?_map, List.any_map]
  cases found : node.children.find? fun child => child.field == some .name with
  | none =>
      have absent : node.children.find?
          ((fun child => child.label.field == some .name) ∘ Node.tree) = none := found
      rw [absent]
      rfl
  | some name =>
      have present : node.children.find?
          ((fun child => child.label.field == some .name) ∘ Node.tree) = some name := found
      rw [present]
      rfl

end Node

namespace Respelling

open Node (Carried Copying Kept rel_cases)

variable {before after : Tree} {spelling : Respelling before after} {left right : Node}

/-- Twins that are copies of each other. -/
def Whole (spelling : Respelling before after) (left right : Node) : Prop :=
  spelling.Twin left right ∧ Carried spelling.move left right

theorem Twin.whole (twins : spelling.Twin left right)
    (apart : left.kind.surroundsAccessor = false) : spelling.Whole left right :=
  ⟨twins, twins.carried apart⟩

theorem Twin.whole_of_is_heading (twins : spelling.Twin left right)
    (heading : left.label.isHeading = true) : spelling.Whole left right := by
  refine ⟨twins, ?_⟩
  rcases twins.carried_or_around with carried | ⟨around, -⟩
  · exact carried
  · simp [Label.isAround, heading] at around

theorem Whole.place_ne_hole (whole : spelling.Whole left right) : left.place ≠ spelling.hole := by
  intro isGetter
  have respelled := whole.1.kin.around [] (by rw [isGetter, List.append_nil])
  rw [Tree.isRespelled, Bool.and_eq_true] at respelled
  obtain ⟨front, otherFront, arrow, ending, block, children, others, -, fronts, -⟩ :=
    Tree.is_getter_respelled_split respelled.2
  have lengths := whole.2.children.length_eq
  rw [length_children, length_children, children, others, List.length_append, List.length_append,
    fronts.length_eq] at lengths
  simp at lengths

theorem Whole.children (whole : spelling.Whole left right) :
    List.Forall₂ spelling.Whole left.children right.children := by
  have twins := whole.1.children whole.place_ne_hole
  have carried := whole.2.children
  apply List.forall₂_iff_get.mpr
  refine ⟨twins.length_eq, ?_⟩
  intro index inside otherInside
  exact ⟨twins.get inside otherInside, carried.get inside otherInside⟩

theorem copying : Copying spelling.Whole where
  sameRole whole := whole.1.same_role
  text_eq whole := whole.2.1.text_eq
  children whole := whole.children
  same_eq whole other := whole.1.same_eq other.1

section Choosing

variable (twins : spelling.Twin left right) (notGetter : left.place ≠ spelling.hole)

include twins notGetter

theorem Twin.child_by_field (field : Field) :
    Option.Rel spelling.Twin (left.child? field) (right.child? field) :=
  Node.rel_child Twin.same_role (twins.children notGetter) field

theorem Twin.parts_of (kind : Kind) :
    List.Forall₂ spelling.Twin (left.partsOf kind) (right.partsOf kind) :=
  Node.forall₂_parts_of Twin.same_role (twins.children notGetter) kind

theorem Twin.body : Option.Rel spelling.Twin left.body? right.body? :=
  Node.rel_or (twins.child_by_field notGetter .body)
    (Node.rel_part_of Twin.same_role (twins.children notGetter) .declarationList)

theorem Twin.child_of_is_heading {field : Field} (heading : field.isHeading = true) :
    Option.Rel spelling.Whole (left.child? field) (right.child? field) := by
  rcases rel_cases (twins.child_by_field notGetter field) with
    ⟨absent, absent'⟩ | ⟨child, other, found, found', children⟩
  · rw [absent, absent']
    exact .none
  · rw [found, found']
    have isField : child.label.field = some field := eq_of_beq (List.find?_some found :)
    exact .some (children.whole_of_is_heading (by simp [Label.isHeading, isField, heading]))

theorem Twin.part_of_of_is_heading {kind : Kind} (heading : kind.isHeading = true) :
    Option.Rel spelling.Whole (left.partOf? kind) (right.partOf? kind) := by
  rcases rel_cases (Node.rel_part_of Twin.same_role (twins.children notGetter) kind) with
    ⟨absent, absent'⟩ | ⟨child, other, found, found', children⟩
  · rw [absent, absent']
    exact .none
  · rw [found, found']
    have isKind : child.label.kind = kind := eq_of_beq (List.find?_some found :)
    exact .some (children.whole_of_is_heading (by simp [Label.isHeading, isKind, heading]))

theorem Twin.declaration_name :
    Option.Rel spelling.Whole left.declarationName? right.declarationName? :=
  Node.rel_or (twins.child_of_is_heading notGetter rfl) (twins.part_of_of_is_heading notGetter rfl)

end Choosing

theorem twin_roots (spelling : Respelling before after) :
    spelling.Twin (Node.root before) (Node.root after) := by
  have leftTop : (Node.root before).top = before := rfl
  have rightTop : (Node.root after).top = after := rfl
  apply Twin.outside leftTop rightTop rfl
  intro index rest same
  have lengths := congrArg List.length same
  simp [Node.root, Node.place, Node.path] at lengths

theorem Twin.parents (twins : spelling.Twin left right) :
    (left.parent? = none ∧ right.parent? = none) ∨
      (∃ parent otherParent, left.parent? = some parent ∧ right.parent? = some otherParent ∧
        spelling.Twin parent otherParent) ∨
      ∃ arrow getter statement block otherGetter,
        spelling.Between left right arrow getter statement block otherGetter := by
  rcases twins.cases_parent with ⟨atTop, otherAtTop⟩ | ⟨parent, otherParent, index, below⟩ | between
  · exact Or.inl ⟨(Node.tree_of_place_nil atTop).2, (Node.tree_of_place_nil otherAtTop).2⟩
  · exact Or.inr (Or.inl ⟨parent, otherParent, below.isParent, below.isOther, below.parents⟩)
  · exact Or.inr (Or.inr between)

section Between

variable {arrow getter statement block otherGetter : Node}
  (between : spelling.Between left right arrow getter statement block otherGetter)

include between

theorem Between.arrow_kind : arrow.kind = .arrowExpressionClause := by
  obtain ⟨_, _, _, _, _, _, _, bodies⟩ := between.bodies between.getters.kin
  exact bodies.arrowKind

theorem Between.statement_kind : statement.kind = .returnStatement := by
  obtain ⟨_, _, _, _, _, _, _, bodies⟩ := between.bodies between.getters.kin
  exact bodies.statementKind

theorem Between.block_kind : block.kind = .block := by
  obtain ⟨_, _, _, _, _, _, _, bodies⟩ := between.bodies between.getters.kin
  exact bodies.blockKind

theorem Between.value_kind : left.kind.isValue = true := by
  obtain ⟨_, _, _, _, _, _, _, bodies⟩ := between.bodies between.getters.kin
  exact bodies.valueKind

theorem Between.later : statement.start < right.start := by
  obtain ⟨_, _, _, _, _, _, _, bodies⟩ := between.bodies between.getters.kin
  exact bodies.later

theorem Between.ordered : left.tree.isOrdered = true := by
  obtain ⟨_, _, _, _, _, _, _, bodies⟩ := between.bodies between.getters.kin
  exact bodies.valueOrdered

theorem Between.getter_kind : getter.kind = .accessorDeclaration := by
  have respelled := between.getters.kin.around [] (by rw [between.getterPlace, List.append_nil])
  rw [Tree.isRespelled, Bool.and_eq_true, Bool.and_eq_true, Bool.and_eq_true] at respelled
  exact eq_of_beq respelled.1.1.2

end Between

/-- A parent that is none of the nodes around the value has a twin. -/
theorem Twin.parent_filter (twins : spelling.Twin left right) {test otherTest : Node → Bool}
    (agree : ∀ {parent otherParent : Node}, spelling.Twin parent otherParent →
      test parent = otherTest otherParent)
    (notArrow : ∀ {node : Node}, node.kind = .arrowExpressionClause → test node = false)
    (notReturn : ∀ {node : Node}, node.kind = .returnStatement → otherTest node = false) :
    Option.Rel spelling.Twin (left.parent?.filter test) (right.parent?.filter otherTest) := by
  rcases twins.parents with ⟨atTop, otherAtTop⟩ | ⟨parent, otherParent, isParent, isOther, parents⟩
    | ⟨arrow, getter, statement, block, otherGetter, between⟩
  · rw [atTop, otherAtTop]
    exact .none
  · rw [isParent, isOther]
    exact Node.rel_filter (.some parents) agree
  · rw [between.isArrow, between.isStatement, Option.filter_some, Option.filter_some,
      notArrow between.arrow_kind, notReturn between.statement_kind]
    exact .none

theorem Twin.parent_of (twins : spelling.Twin left right) (kind : Kind)
    (notArrow : kind ≠ .arrowExpressionClause) (notReturn : kind ≠ .returnStatement) :
    Option.Rel spelling.Twin (left.parentOf? kind) (right.parentOf? kind) := by
  apply twins.parent_filter
  · intro parent otherParent parents
    rw [parents.kind_eq]
  · intro node isArrow
    rw [isArrow]
    exact beq_false_of_ne notArrow.symm
  · intro node isReturn
    rw [isReturn]
    exact beq_false_of_ne notReturn.symm

theorem Twin.any_parent (twins : spelling.Twin left right) (test : Kind → Bool)
    (notArrow : test .arrowExpressionClause = false) (notReturn : test .returnStatement = false) :
    (left.parent?.any fun parent => test parent.kind) =
      right.parent?.any fun parent => test parent.kind := by
  rcases twins.parents with ⟨atTop, otherAtTop⟩ | ⟨parent, otherParent, isParent, isOther, parents⟩
    | ⟨arrow, getter, statement, block, otherGetter, between⟩
  · rw [atTop, otherAtTop]
  · rw [isParent, isOther, Option.any_some, Option.any_some, parents.kind_eq]
  · rw [between.isArrow, between.isStatement, Option.any_some, Option.any_some, between.arrow_kind,
      between.statement_kind, notArrow, notReturn]

theorem Twin.parent (twins : spelling.Twin left right) (notValue : left.kind.isValue = false) :
    Option.Rel spelling.Twin left.parent? right.parent? := by
  rcases twins.parents with ⟨atTop, otherAtTop⟩ | ⟨parent, otherParent, isParent, isOther, parents⟩
    | ⟨arrow, getter, statement, block, otherGetter, between⟩
  · rw [atTop, otherAtTop]
    exact .none
  · rw [isParent, isOther]
    exact .some parents
  · rw [between.value_kind] at notValue
    cases notValue

theorem Twin.outward (twins : spelling.Twin left right) {rest : List Nat}
    (onWay : spelling.hole = left.place ++ rest) (further : rest.length < spelling.hole.length) :
    ∃ parent otherParent index, left.parent? = some parent ∧ right.parent? = some otherParent ∧
      spelling.Twin parent otherParent ∧ spelling.hole = parent.place ++ index :: rest ∧
      parent.kind.leadsToAccessor rest.length = true := by
  rcases twins.cases_parent with ⟨atTop, -⟩ | ⟨parent, otherParent, index, below⟩ |
    ⟨arrow, getter, statement, block, otherGetter, between⟩
  · rw [onWay, atTop] at further
    simp at further
  · have there : spelling.hole = parent.place ++ index :: rest := by
      rw [onWay, below.place]
      simp
    have respelled := below.parents.kin.around _ there
    rw [Tree.isRespelled, Bool.and_eq_true, Bool.and_eq_true] at respelled
    exact ⟨parent, otherParent, index, below.isParent, below.isOther, below.parents, there,
      respelled.1.2⟩
  · have lengths := congrArg List.length onWay
    rw [between.place] at lengths
    simp at lengths

/-- The list of accessors around the getters, and the members around the lists. -/
structure InMember (spelling : Respelling before after)
    (getter otherGetter list otherList owner otherOwner : Node) : Prop where
  isList : getter.parent? = some list
  isOtherList : otherGetter.parent? = some otherList
  lists : spelling.Twin list otherList
  listKind : list.kind = .accessorList
  isOwner : list.parent? = some owner
  isOtherOwner : otherList.parent? = some otherOwner
  owners : spelling.Twin owner otherOwner
  ownerKind : owner.kind.hasAccessors = true

theorem Twin.in_member {getter otherGetter : Node} (getters : spelling.Twin getter otherGetter)
    (isGetter : getter.place = spelling.hole) :
    ∃ list otherList owner otherOwner,
      spelling.InMember getter otherGetter list otherList owner otherOwner := by
  have deep := spelling.inMember
  have here : spelling.hole = getter.place ++ [] := by rw [isGetter, List.append_nil]
  have outer : ([] : List Nat).length < spelling.hole.length := by
    rw [List.length_nil]
    omega
  obtain ⟨list, otherList, index, isList, isOtherList, lists, there, listLeads⟩ :=
    getters.outward here outer
  have outermost : [index].length < spelling.hole.length := by
    rw [List.length_singleton]
    omega
  obtain ⟨owner, otherOwner, _, isOwner, isOtherOwner, owners, -, ownerLeads⟩ :=
    lists.outward there outermost
  exact ⟨list, otherList, owner, otherOwner, isList, isOtherList, lists, eq_of_beq listLeads,
    isOwner, isOtherOwner, owners, ownerLeads⟩

/-- The children of the two getters: what stands in front of the bodies, and the bodies down to
the value. -/
structure Getters (spelling : Respelling before after) (getter otherGetter : Node)
    (front otherFront : List Node) (arrow ending block value statement other : Node) : Prop where
  children : getter.children = front ++ [arrow, ending]
  others : otherGetter.children = otherFront ++ [block]
  fronts : List.Forall₂ spelling.Whole front otherFront
  untyped : ∀ child ∈ front, child.field ≠ some .type ∧ child.field ≠ some .returns
  arrowPlain : arrow.label.isHeading = false
  endingPlain : ending.label.isHeading = false
  blockPlain : block.label.isHeading = false
  endingKind : ending.kind = .other ";"
  namedArrow : arrow.named = true
  namedEnding : ending.named = false
  namedBlock : block.named = true
  belowArrow : arrow.namedChildren = [value]
  belowBlock : block.namedChildren = [statement]
  belowStatement : statement.namedChildren = [other]
  between : spelling.Between value other arrow getter statement block otherGetter
  values : spelling.Twin value other

theorem Twin.fronts {getter otherGetter : Node} {front back otherFront otherBack : List Node}
    (twins : spelling.Twin getter otherGetter) (children : getter.children = front ++ back)
    (others : otherGetter.children = otherFront ++ otherBack) (slot : front.length = spelling.slot)
    (carried : List.Forall₂ (Tree.IsFront spelling.move) (front.map Node.tree)
      (otherFront.map Node.tree)) : List.Forall₂ spelling.Whole front otherFront := by
  have trees := List.forall₂_map_left_iff.mp (List.forall₂_map_right_iff.mp carried)
  apply List.forall₂_iff_get.mpr
  refine ⟨trees.length_eq, ?_⟩
  intro index inside otherInside
  have inChildren : index < getter.children.length := by
    rw [children, List.length_append]
    omega
  have inOthers : index < otherGetter.children.length := by
    rw [others, List.length_append]
    omega
  have pair := twins.child (Or.inr (slot ▸ inside)) inChildren inOthers
  have isFront : getter.children[index] = front.get ⟨index, inside⟩ := by
    simp [children, inside]
  have isOther : otherGetter.children[index] = otherFront.get ⟨index, otherInside⟩ := by
    simp [others, otherInside]
  rw [isFront, isOther] at pair
  exact ⟨pair, Node.carried_of_is_carried (trees.get inside otherInside).1⟩

theorem Twin.getters {getter otherGetter : Node} (twins : spelling.Twin getter otherGetter)
    (isGetter : getter.place = spelling.hole) :
    ∃ front otherFront arrow ending block value statement other,
      spelling.Getters getter otherGetter front otherFront arrow ending block value statement
        other := by
  have respelled := twins.kin.around [] (by rw [isGetter, List.append_nil])
  rw [Tree.isRespelled, Bool.and_eq_true] at respelled
  obtain ⟨frontTrees, otherTrees, arrowTree, endingTree, blockTree, trees, others, slot, fronts,
    body⟩ := Tree.is_getter_respelled_split respelled.2
  obtain ⟨valueTree, statementTree, otherTree, bodies⟩ := Tree.bodies_of_is_body_respelled body
  obtain ⟨front, back, children, rfl, isBack⟩ := Node.children_split trees
  obtain ⟨otherFront, otherBack, otherChildren, rfl, isOtherBack⟩ := Node.children_split others
  obtain ⟨arrow, ending, rfl, rfl, rfl⟩ := Node.eq_of_map_pair isBack
  obtain ⟨block, rfl, rfl⟩ := List.map_eq_singleton_iff.mp isOtherBack
  obtain ⟨mark, arrowTrees, markToken⟩ := bodies.arrowChildren
  obtain ⟨markNode, value, arrowChildren, rfl, rfl⟩ :=
    Node.eq_of_map_pair ((Node.map_tree_children arrow).trans arrowTrees)
  obtain ⟨opening, closing, blockTrees, openingToken, closingToken⟩ := bodies.blockChildren
  obtain ⟨openingNode, statement, closingNode, blockChildren, rfl, rfl, rfl⟩ :=
    Node.eq_of_map_triple ((Node.map_tree_children block).trans blockTrees)
  obtain ⟨keyword, last, statementTrees, keywordToken, lastToken⟩ := bodies.statementChildren
  obtain ⟨keywordNode, other, lastNode, statementChildren, rfl, rfl, rfl⟩ :=
    Node.eq_of_map_triple ((Node.map_tree_children statement).trans statementTrees)
  rw [List.length_map] at slot
  have sameLength : otherFront.length = spelling.slot := by
    have lengths := fronts.length_eq
    rw [List.length_map, List.length_map] at lengths
    omega
  have untyped : ∀ child ∈ front, child.field ≠ some .type ∧ child.field ≠ some .returns := by
    intro child member
    obtain ⟨index, inside, rfl⟩ := List.getElem_of_mem member
    have pairs := List.forall₂_map_left_iff.mp (List.forall₂_map_right_iff.mp fronts)
    have otherInside : index < otherFront.length := by omega
    exact (pairs.get inside otherInside).2
  -- the values lie below the bodies, one level deeper in the long form
  have isArrow : arrow ∈ getter.children := by simp [children]
  have isBlock : block ∈ otherGetter.children := by simp [otherChildren]
  have isValue : value ∈ arrow.children := by simp [arrowChildren]
  have isStatement : statement ∈ block.children := by simp [blockChildren]
  have isOther : other ∈ statement.children := by simp [statementChildren]
  have sameHole : otherGetter.place = spelling.hole := by
    cases twins with
    | outside _ _ there _ => rw [there, isGetter]
    | inside rest _ _ leftThere _ =>
        have lengths := congrArg List.length (leftThere.symm.trans isGetter)
        simp at lengths
  have valuePlace : value.place = spelling.hole ++ [spelling.slot, 1] := by
    have split : arrow.children = [markNode] ++ value :: [] := arrowChildren
    rw [Node.place_of_split split, Node.place_of_split children, isGetter, slot]
    simp
  have otherPlace : other.place = spelling.hole ++ [spelling.slot, 1, 1] := by
    have split : statement.children = [keywordNode] ++ other :: [lastNode] := statementChildren
    have outerSplit : block.children = [openingNode] ++ statement :: [closingNode] := blockChildren
    rw [Node.place_of_split split, Node.place_of_split outerSplit,
      Node.place_of_split otherChildren, sameHole, sameLength]
    simp
  have valueTop : value.top = before := by
    rw [Node.top_of_mem_children isValue, Node.top_of_mem_children isArrow, twins.left_top]
  have otherTop : other.top = after := by
    rw [Node.top_of_mem_children isOther, Node.top_of_mem_children isStatement,
      Node.top_of_mem_children isBlock, twins.right_top]
  have between : spelling.Between value other arrow getter statement block otherGetter := by
    obtain ⟨_, _, _, _, _, between⟩ := between_of_place valueTop otherTop valuePlace otherPlace
    cases between.isArrow.symm.trans (Node.parent_of_mem_children isValue)
    cases between.isGetter.symm.trans (Node.parent_of_mem_children isArrow)
    cases between.isStatement.symm.trans (Node.parent_of_mem_children isOther)
    cases between.isBlock.symm.trans (Node.parent_of_mem_children isStatement)
    cases between.isOther.symm.trans (Node.parent_of_mem_children isBlock)
    exact between
  have values : spelling.Twin value other := .inside [] valueTop otherTop valuePlace otherPlace
  refine ⟨front, otherFront, arrow, ending, block, value, statement, other, children, otherChildren,
    twins.fronts children otherChildren slot fronts, untyped, bodies.arrowPlain, bodies.endingPlain,
    bodies.blockPlain, bodies.endingKind, bodies.arrowNamed, bodies.endingToken, bodies.blockNamed,
    ?_, ?_, ?_, between, values⟩
  · simp [Node.namedChildren, arrowChildren, Node.named, Node.label, markToken, bodies.valueNamed]
  · simp [Node.namedChildren, blockChildren, Node.named, Node.label, openingToken, closingToken,
      bodies.statementNamed]
  · have named : other.tree.label.named = true :=
      values.same_role.2.1.symm.trans bodies.valueNamed
    simp [Node.namedChildren, statementChildren, Node.named, Node.label, keywordToken, lastToken,
      named]

section Getters

variable {getter otherGetter arrow ending block value statement other : Node}
  {front otherFront : List Node}
  (getters : spelling.Getters getter otherGetter front otherFront arrow ending block value
    statement other)

include getters

theorem Getters.child_eq {field : Field} (heading : field.isHeading = true) :
    (getter.child? field = front.find? fun child => child.field == some field) ∧
      otherGetter.child? field = otherFront.find? fun child => child.field == some field := by
  have plain : ∀ {node : Node}, node.label.isHeading = false →
      (node.field == some field) = false := by
    intro node notHeading
    apply beq_false_of_ne
    intro isField
    have inLabel : node.label.field = some field := isField
    simp [Label.isHeading, inLabel, heading] at notHeading
  unfold Node.child?
  rw [getters.children, getters.others, List.find?_append, List.find?_append]
  simp [plain getters.arrowPlain, plain getters.endingPlain, plain getters.blockPlain]

theorem Getters.declared_type_eq :
    getter.declaredType? = none ∧ otherGetter.declaredType? = none := by
  have absent : ∀ field : Field, field.isHeading = true →
      (∀ child ∈ front, child.field ≠ some field) →
        getter.child? field = none ∧ otherGetter.child? field = none := by
    intro field heading inFront
    have missing : getter.child? field = none := by
      rw [(getters.child_eq heading).1, List.find?_eq_none]
      intro child member
      simpa using inFront child member
    have pair : Option.Rel spelling.Whole (getter.child? field) (otherGetter.child? field) := by
      rw [(getters.child_eq heading).1, (getters.child_eq heading).2]
      apply Node.rel_find _ getters.fronts
      intro child otherChild children
      rw [children.1.same_role.2.2]
    rcases rel_cases pair with ⟨_, otherMissing⟩ | ⟨child, _, found, _⟩
    · exact ⟨missing, otherMissing⟩
    · cases missing.symm.trans found
  have type := absent .type rfl fun child member => (getters.untyped child member).1
  have returns := absent .returns rfl fun child member => (getters.untyped child member).2
  have kind := getters.between.getter_kind
  have otherKind : otherGetter.kind = .accessorDeclaration := by
    rw [← getters.between.getters.kind_eq]
    exact kind
  constructor
  · simp [Node.declaredType?, type.1, returns.1, kind]
  · simp [Node.declaredType?, type.2, returns.2, otherKind]

theorem Getters.is_getter_eq : getter.isGetter = otherGetter.isGetter := by
  have names : Option.Rel spelling.Whole (getter.child? .name) (otherGetter.child? .name) := by
    rw [(getters.child_eq rfl).1, (getters.child_eq rfl).2]
    apply Node.rel_find _ getters.fronts
    intro child otherChild pair
    rw [pair.1.same_role.2.2]
  have tokens : getter.hasToken "get" = otherGetter.hasToken "get" := by
    have fronts : (front.any fun child => child.kind.spelling == "get") =
        otherFront.any fun child => child.kind.spelling == "get" := by
      have paired := getters.fronts
      clear getters names
      induction paired with
      | nil => rfl
      | cons pair _ ih => rw [List.any_cons, List.any_cons, pair.1.kind_eq, ih]
    have arrowKind := getters.between.arrow_kind
    have blockKind := getters.between.block_kind
    unfold Node.hasToken
    rw [getters.children, getters.others, List.any_append, List.any_append, fronts]
    simp [arrowKind, getters.endingKind, blockKind, Kind.spelling]
  unfold Node.isGetter
  rcases rel_cases names with ⟨absent, absent'⟩ | ⟨name, otherName, found, found', pair⟩
  · rw [absent, absent']
    exact tokens
  · rw [found, found']
    simp only [pair.2.1.text_eq]

end Getters

theorem Between.is_getter_eq {arrow getter statement block otherGetter : Node}
    (between : spelling.Between left right arrow getter statement block otherGetter) :
    getter.isGetter = true := by
  have respelled := between.getters.kin.around [] (by rw [between.getterPlace, List.append_nil])
  rw [Tree.isRespelled, Bool.and_eq_true, Bool.and_eq_true] at respelled
  rw [Node.is_getter_eq_names_getter]
  exact respelled.1.2

theorem Twin.is_getter_eq (twins : spelling.Twin left right) : left.isGetter = right.isGetter := by
  by_cases isGetter : left.place = spelling.hole
  · obtain ⟨_, _, _, _, _, _, _, _, getters⟩ := twins.getters isGetter
    exact getters.is_getter_eq
  · have tokens : left.hasToken "get" = right.hasToken "get" := by
      have paired := twins.children isGetter
      unfold Node.hasToken
      generalize left.children = items, right.children = others at paired
      induction paired with
      | nil => rfl
      | cons pair _ ih => rw [List.any_cons, List.any_cons, pair.kind_eq, ih]
    have names : Option.Rel spelling.Whole (left.child? .name) (right.child? .name) :=
      twins.child_of_is_heading isGetter rfl
    unfold Node.isGetter
    rcases rel_cases names with
      ⟨absent, absent'⟩ | ⟨name, otherName, found, found', pair⟩
    · rw [absent, absent']
      exact tokens
    · rw [found, found']
      simp only [pair.2.1.text_eq]

/-- The block of the long form, or its statement, which starts before the value. -/
inductive WrapsValue (spelling : Respelling before after) (node : Node) : Prop
  | block (isBlock : node.kind = .block)
  | statement {value other : Node} (isReturn : node.kind = .returnStatement)
      (values : spelling.Twin value other)
      (isValue : value.place = spelling.hole ++ [spelling.slot, 1])
      (later : node.start < other.start)

/-- Twins in the same order, with the clause of the short form on the one side and the block and
the statement of the long form on the other. -/
inductive Lined (spelling : Respelling before after) : (nodes others : List Node) → Prop
  | nil : Lined spelling [] []
  | cons {node other : Node} {nodes others : List Node} (pair : spelling.Twin node other)
      (rest : Lined spelling nodes others) : Lined spelling (node :: nodes) (other :: others)
  | short {arrow : Node} {nodes others : List Node} (isArrow : arrow.kind = .arrowExpressionClause)
      (rest : Lined spelling nodes others) : Lined spelling (arrow :: nodes) others
  | long {node : Node} {nodes others : List Node} (wraps : spelling.WrapsValue node)
      (rest : Lined spelling nodes others) : Lined spelling nodes (node :: others)

theorem Between.wraps_statement {arrow getter statement block otherGetter : Node}
    (between : spelling.Between left right arrow getter statement block otherGetter)
    (twins : spelling.Twin left right) : spelling.WrapsValue statement :=
  .statement between.statement_kind twins between.place between.later

namespace Lined

variable {nodes others : List Node}

theorem append {more otherMore : List Node} (first : spelling.Lined nodes others)
    (second : spelling.Lined more otherMore) :
    spelling.Lined (nodes ++ more) (others ++ otherMore) := by
  induction first with
  | nil => exact second
  | cons pair _ ih => exact .cons pair ih
  | short isArrow _ ih => exact .short isArrow ih
  | long wraps _ ih => exact .long wraps ih

theorem flat_map {list otherList : List Node} {ask : Node → List Node}
    (paired : List.Forall₂ spelling.Twin list otherList)
    (each : ∀ node ∈ list, ∀ other, spelling.Twin node other →
      spelling.Lined (ask node) (ask other)) :
    spelling.Lined (list.flatMap ask) (otherList.flatMap ask) := by
  induction paired with
  | nil => exact .nil
  | @cons node other list otherList pair _ ih =>
      rw [List.flatMap_cons, List.flatMap_cons]
      apply append (each node List.mem_cons_self other pair)
      apply ih
      intro node member
      exact each node (List.mem_cons_of_mem _ member)

variable {test otherTest : Node → Bool}
  (agree : ∀ {node other : Node}, spelling.Twin node other → test node = otherTest other)
  (notArrow : ∀ {node : Node}, node.kind = .arrowExpressionClause → test node = false)
  (notWrap : ∀ {node : Node}, spelling.WrapsValue node → otherTest node = false)
  (lined : spelling.Lined nodes others)

include agree notArrow notWrap lined

/-- A choice that leaves the clause, the block and the statement out takes twins. -/
theorem filter : List.Forall₂ spelling.Twin (nodes.filter test) (others.filter otherTest) := by
  induction lined with
  | nil => exact .nil
  | cons pair _ ih =>
      rw [List.filter_cons, List.filter_cons, agree pair]
      split
      · exact .cons pair ih
      · exact ih
  | short isArrow _ ih =>
      rw [List.filter_cons_of_neg (by simp [notArrow isArrow])]
      exact ih
  | long wraps _ ih =>
      rw [List.filter_cons_of_neg (by simp [notWrap wraps])]
      exact ih

theorem any_eq : nodes.any test = others.any otherTest := by
  induction lined with
  | nil => rfl
  | cons pair _ ih => rw [List.any_cons, List.any_cons, agree pair, ih]
  | short isArrow _ ih => rw [List.any_cons, notArrow isArrow, ih, Bool.false_or]
  | long wraps _ ih => rw [List.any_cons, notWrap wraps, ih, Bool.false_or]

theorem find : Option.Rel spelling.Twin (nodes.find? test) (others.find? otherTest) := by
  induction lined with
  | nil => exact .none
  | cons pair _ ih =>
      rw [List.find?_cons, List.find?_cons, agree pair]
      split
      · exact .some pair
      · exact ih
  | short isArrow _ ih =>
      rw [List.find?_cons, notArrow isArrow]
      exact ih
  | long wraps _ ih =>
      rw [List.find?_cons, notWrap wraps]
      exact ih

end Lined

theorem Twin.ancestors (twins : spelling.Twin left right) :
    spelling.Lined left.ancestors right.ancestors := by
  apply Twin.upward _ _ _ twins
  · intro left right _ atTop otherAtTop
    rw [Node.ancestors_eq_nil atTop, Node.ancestors_eq_nil otherAtTop]
    exact .nil
  · intro left right parent otherParent _ isParent isOther parents further
    rw [Node.ancestors_of_parent isParent, Node.ancestors_of_parent isOther]
    exact .cons parents further
  · intro left right arrow getter statement block otherGetter values between further
    rw [Node.ancestors_of_parent between.isArrow, Node.ancestors_of_parent between.isGetter,
      Node.ancestors_of_parent between.isStatement, Node.ancestors_of_parent between.isBlock,
      Node.ancestors_of_parent between.isOther]
    apply Lined.short between.arrow_kind
    apply Lined.long (between.wraps_statement values)
    apply Lined.long (.block between.block_kind)
    exact .cons between.getters further

theorem Getters.descendants {getter otherGetter arrow ending block value statement other : Node}
    {front otherFront : List Node}
    (getters : spelling.Getters getter otherGetter front otherFront arrow ending block value
      statement other)
    (each : ∀ node, node.tree.size < getter.tree.size → ∀ other, spelling.Twin node other →
      spelling.Lined node.descendants other.descendants) :
    spelling.Lined (getter.namedChildren.flatMap Node.descendants)
      (otherGetter.namedChildren.flatMap Node.descendants) := by
  have inGetter : ∀ child ∈ getter.children, child.tree.size < getter.tree.size :=
    fun child member => Node.size_lt_of_mem_children member
  have arrowSize := inGetter arrow (by simp [getters.children])
  have valueSize : value.tree.size < arrow.tree.size := by
    apply Node.size_lt_of_mem_children
    apply Node.mem_children_of_mem_named_children
    simp [getters.belowArrow]
  have fronts : List.Forall₂ spelling.Twin (front.filter Node.named)
      (otherFront.filter Node.named) := by
    apply List.rel_filter _ (getters.fronts.imp fun _ _ pair => pair.1)
    intro child otherChild pair
    simp only [pair.same_role.2.1]
  have namedChildren : getter.namedChildren = front.filter Node.named ++ [arrow] := by
    simp [Node.namedChildren, getters.children, getters.namedArrow, getters.namedEnding]
  have otherNamed : otherGetter.namedChildren = otherFront.filter Node.named ++ [block] := by
    simp [Node.namedChildren, getters.others, getters.namedBlock]
  rw [namedChildren, otherNamed, List.flatMap_append, List.flatMap_append, List.flatMap_singleton,
    List.flatMap_singleton, Node.descendants_eq arrow, Node.descendants_eq block,
    getters.belowArrow, getters.belowBlock, List.flatMap_singleton, List.flatMap_singleton,
    Node.descendants_eq statement, getters.belowStatement, List.flatMap_singleton]
  apply Lined.append
  · apply Lined.flat_map fronts
    intro node member otherNode pair
    have inFront := (List.mem_filter.mp member).1
    exact each node (inGetter node (by simp [getters.children, inFront])) otherNode pair
  · apply Lined.short getters.between.arrow_kind
    apply Lined.long (.block getters.between.block_kind)
    apply Lined.long (getters.between.wraps_statement getters.values)
    exact each value (by omega) other getters.values

theorem Twin.descendants (twins : spelling.Twin left right) :
    spelling.Lined left.descendants right.descendants := by
  induction size : left.tree.size using Nat.strongRecOn generalizing left right with
  | ind bound ih =>
      rw [Node.descendants_eq left, Node.descendants_eq right]
      apply Lined.cons twins
      by_cases isGetter : left.place = spelling.hole
      · obtain ⟨_, _, _, _, _, _, _, _, getters⟩ := twins.getters isGetter
        apply getters.descendants
        intro node smaller other pair
        exact ih _ (size ▸ smaller) pair rfl
      · have paired : List.Forall₂ spelling.Twin left.namedChildren right.namedChildren := by
          apply List.rel_filter _ (twins.children isGetter)
          intro child otherChild pair
          simp only [pair.same_role.2.1]
        apply Lined.flat_map paired
        intro node member other pair
        have smaller :=
          Node.size_lt_of_mem_children (Node.mem_children_of_mem_named_children member)
        exact ih _ (size ▸ smaller) pair rfl

theorem WrapsValue.kind_cases {node : Node} (wraps : spelling.WrapsValue node) :
    node.kind = .block ∨ node.kind = .returnStatement := by
  cases wraps with
  | block isBlock => exact Or.inl isBlock
  | statement isReturn => exact Or.inr isReturn

/-- The nodes below twins that are chosen by their kind, where the choice leaves out the kinds of
the nodes around the value. -/
theorem Twin.filter_descendants (twins : spelling.Twin left right) (test : Kind → Bool)
    (notArrow : test .arrowExpressionClause = false) (notBlock : test .block = false)
    (notReturn : test .returnStatement = false) :
    List.Forall₂ spelling.Twin (left.descendants.filter fun node => test node.kind)
      (right.descendants.filter fun node => test node.kind) := by
  apply Lined.filter _ _ _ twins.descendants
  · intro node other pair
    rw [pair.kind_eq]
  · intro node isArrow
    rw [isArrow, notArrow]
  · intro node wraps
    rcases wraps.kind_cases with kind | kind
    · rw [kind, notBlock]
    · rw [kind, notReturn]

theorem Twin.descendants_of (twins : spelling.Twin left right) (kind : Kind)
    (notArrow : kind ≠ .arrowExpressionClause) (notBlock : kind ≠ .block)
    (notReturn : kind ≠ .returnStatement) :
    List.Forall₂ spelling.Twin (left.descendantsOf kind) (right.descendantsOf kind) :=
  twins.filter_descendants (· == kind) (beq_false_of_ne notArrow.symm)
    (beq_false_of_ne notBlock.symm) (beq_false_of_ne notReturn.symm)

end Respelling

end ReleaseAudit.Source
