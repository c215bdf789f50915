import Mathlib.Order.Monotone.Basic
import ReleaseAudit.Proofs.Source.Edit
import ReleaseAudit.Proofs.Source.Order

/-!
# One getter in two spellings

A getter is written `get => value;` or `get { return value; }`. Two trees that
differ in the spelling of one getter have all other nodes in common: what lies
beside the way to the getter and the value itself are moved as they are, and
what encloses the getter keeps its role and its place. The nodes that the trees
have in common are twins of each other; only the nodes between the accessor and
the value have no twin.
-/

namespace ReleaseAudit.Source

set_option autoImplicit false

namespace Kind

def hasAccessors : Kind → Bool
  | propertyDeclaration | indexerDeclaration => true
  | _ => false

theorem has_accessors_iff {kind : Kind} :
    kind.hasAccessors = true ↔ kind = .propertyDeclaration ∨ kind = .indexerDeclaration := by
  cases kind <;> simp [hasAccessors]

theorem is_scope_of_has_accessors {kind : Kind} (has : kind.hasAccessors = true) :
    kind.isScope = true := by
  rcases has_accessors_iff.mp has with rfl | rfl <;> rfl

def holdsMembers : Kind → Bool
  | compilationUnit | namespaceDeclaration | fileScopedNamespaceDeclaration | declarationList
  | classDeclaration | structDeclaration | interfaceDeclaration | recordDeclaration
  | recordStructDeclaration => true
  | _ => false

/-- Nodes on the way to an accessor, with `count` nodes between: the list of accessors, the
member, and what holds it. -/
def leadsToAccessor (kind : Kind) : (count : Nat) → Bool
  | 0 => kind == .accessorList
  | 1 => kind.hasAccessors
  | _ + 2 => kind.holdsMembers

def surroundsAccessor (kind : Kind) : Bool :=
  kind == .accessorDeclaration || kind == .accessorList || kind.hasAccessors || kind.holdsMembers

def isValue : Kind → Bool
  | comment | arrowExpressionClause | equalsValueClause | variableDeclaration
  | variableDeclarator => false
  | _ => true

theorem surrounds_accessor_of_leads_to_accessor {kind : Kind} {count : Nat}
    (leads : kind.leadsToAccessor count = true) : kind.surroundsAccessor = true := by
  unfold surroundsAccessor
  match count with
  | 0 =>
      rw [eq_of_beq leads]
      rfl
  | 1 =>
      have has : kind.hasAccessors = true := leads
      simp [has]
  | count + 2 =>
      have holds : kind.holdsMembers = true := leads
      simp [holds]

end Kind

/-- The label of a node around a getter: its role stays, and its offsets are moved. -/
def Label.isAround (move : Nat → Nat) (label other : Label) : Bool :=
  label.sameRole other && !label.isHeading && other.start == move label.start &&
    other.stop == move label.stop

namespace Tree

def offsets : Tree → List Nat
  | .node label children => label.start :: label.stop :: allOffsets children
where
  allOffsets : List Tree → List Nat
    | [] => []
    | tree :: rest => tree.offsets ++ allOffsets rest

/-- The offsets of the one tree are taken to those of the other by `move`. -/
def follows (move : Nat → Nat) : Tree → Tree → Bool
  | .node label children, other =>
      other.label.start == move label.start && other.label.stop == move label.stop &&
        allFollow move children other.children
where
  allFollow (move : Nat → Nat) : List Tree → List Tree → Bool
    | [], [] => true
    | tree :: rest, other :: others => follows move tree other && allFollow move rest others
    | _, _ => false

/-- The same tree at the place that `move` gives. -/
def isCarried (move : Nat → Nat) (tree other : Tree) : Bool :=
  tree.isMoved tree.label.start other.label.start other && tree.follows move other

/-- `=> value;` against `{ return value; }` -/
def isBodyRespelled (move : Nat → Nat) : (arrow ending block : Tree) → Bool
  | .node arrow [mark, value], ending,
      .node block [opening, .node statement [keyword, other, last], closing] =>
      arrow.kind == .arrowExpressionClause && arrow.named && !arrow.isHeading &&
        ending.label.kind == .other ";" && !ending.label.named && !ending.label.isHeading &&
        block.kind == .block && block.named && !block.isHeading &&
        statement.kind == .returnStatement && statement.named &&
        !mark.label.named && !opening.label.named && !keyword.label.named && !last.label.named &&
        !closing.label.named &&
        value.label.named && value.label.kind.isValue && value.isOrdered &&
        value.isCarried move other && decide (statement.start < other.label.start)
  | _, _, _ => false

/-- The children of the two accessors: `slot` of them before the body, with no type among them. -/
def isGetterRespelled (move : Nat → Nat) : (slot : Nat) → (children others : List Tree) → Bool
  | 0, [arrow, ending], [block] => isBodyRespelled move arrow ending block
  | slot + 1, tree :: rest, other :: others =>
      tree.isCarried move other && tree.label.field != some .type &&
        tree.label.field != some .returns && isGetterRespelled move slot rest others
  | _, _, _ => false

/-- All children are carried over but the one at `index`, which changes as `inner` says. -/
def isCarriedBut (move : Nat → Nat) (inner : Tree → Tree → Bool) :
    (index : Nat) → (children others : List Tree) → Bool
  | 0, tree :: rest, other :: others =>
      inner tree other && List.all₂ (isCarried move) rest others
  | index + 1, tree :: rest, other :: others =>
      tree.isCarried move other && isCarriedBut move inner index rest others
  | _, _, _ => false

def namesGetter (children : List Tree) : Bool :=
  match children.find? fun child => child.label.field == some .name with
  | some name => name.label.text == "get"
  | none => children.any fun child => child.label.kind.spelling == "get"

/-- The trees differ in the spelling of the getter at the place `hole` only. -/
def isRespelled (move : Nat → Nat) (slot : Nat) : (hole : List Nat) → (tree other : Tree) → Bool
  | [], tree, other =>
      tree.label.isAround move other.label && tree.label.kind == .accessorDeclaration &&
        namesGetter tree.children && isGetterRespelled move slot tree.children other.children
  | index :: hole, tree, other =>
      tree.label.isAround move other.label && tree.label.kind.leadsToAccessor hole.length &&
        isCarriedBut move (isRespelled move slot hole) index tree.children other.children

theorem all_follow_iff {move : Nat → Nat} {trees others : List Tree} :
    follows.allFollow move trees others = true ↔
      List.Forall₂ (fun tree other => tree.follows move other = true) trees others := by
  induction trees generalizing others with
  | nil => cases others <;> simp [follows.allFollow]
  | cons tree rest ih => cases others <;> simp [follows.allFollow, ih]

theorem follows_iff {move : Nat → Nat} {tree other : Tree} :
    tree.follows move other = true ↔
      other.label.start = move tree.label.start ∧ other.label.stop = move tree.label.stop ∧
        List.Forall₂ (fun child otherChild => child.follows move otherChild = true) tree.children
          other.children := by
  obtain ⟨label, children⟩ := tree
  rw [follows, Bool.and_eq_true, Bool.and_eq_true, beq_iff_eq, beq_iff_eq, all_follow_iff,
    and_assoc]
  rfl

theorem mem_all_offsets {tree : Tree} {trees : List Tree} (member : tree ∈ trees) {offset : Nat}
    (inside : offset ∈ tree.offsets) : offset ∈ offsets.allOffsets trees := by
  induction trees with
  | nil => cases member
  | cons first rest ih =>
      rw [offsets.allOffsets]
      apply List.mem_append.mpr
      rcases List.mem_cons.mp member with rfl | later
      · exact Or.inl inside
      · exact Or.inr (ih later)

theorem mem_offsets_of_at {tree inner : Tree} {place : List Nat}
    (found : tree.at? place = some inner) {offset : Nat} (inside : offset ∈ inner.offsets) :
    offset ∈ tree.offsets := by
  induction place generalizing tree with
  | nil =>
      cases found
      exact inside
  | cons index rest ih =>
      obtain ⟨child, isChild, below⟩ := Option.bind_eq_some_iff.mp found
      obtain ⟨label, children⟩ := tree
      rw [offsets]
      have inChild := mem_all_offsets (List.mem_of_getElem? isChild) (ih below)
      exact List.mem_cons_of_mem _ (List.mem_cons_of_mem _ inChild)

end Tree

namespace Tree

theorem is_carried_but_iff {move : Nat → Nat} {inner : Tree → Tree → Bool} {index : Nat}
    {children others : List Tree} (carried : isCarriedBut move inner index children others = true) :
    children.length = others.length ∧
      ∀ (at_ : Nat) (child other : Tree), children[at_]? = some child → others[at_]? = some other →
        (at_ = index → inner child other = true) ∧
          (at_ ≠ index → child.isCarried move other = true) := by
  induction index generalizing children others with
  | zero =>
      match children, others with
      | child :: rest, other :: others =>
          rw [isCarriedBut, Bool.and_eq_true, List.all₂_eq_true] at carried
          obtain ⟨changes, beside⟩ := carried
          refine ⟨by simp [beside.length_eq], ?_⟩
          intro at_ found otherFound isFound isOther
          cases at_ with
          | zero =>
              cases isFound
              cases isOther
              exact ⟨fun _ => changes, fun differs => absurd rfl differs⟩
          | succ at_ =>
              refine ⟨nofun, fun _ => ?_⟩
              obtain ⟨inside, rfl⟩ := List.getElem?_eq_some_iff.mp isFound
              obtain ⟨otherInside, rfl⟩ := List.getElem?_eq_some_iff.mp isOther
              exact beside.get (Nat.lt_of_succ_lt_succ inside) (Nat.lt_of_succ_lt_succ otherInside)
  | succ index ih =>
      match children, others with
      | child :: rest, other :: others =>
          rw [isCarriedBut, Bool.and_eq_true] at carried
          obtain ⟨first, later⟩ := carried
          obtain ⟨lengths, agree⟩ := ih later
          refine ⟨by simp [lengths], ?_⟩
          intro at_ found otherFound isFound isOther
          cases at_ with
          | zero =>
              cases isFound
              cases isOther
              exact ⟨nofun, fun _ => first⟩
          | succ at_ =>
              obtain ⟨changes, carries⟩ := agree at_ found otherFound isFound isOther
              exact ⟨fun same => changes (Nat.succ.inj same),
                fun differs => carries fun same => differs (congrArg Nat.succ same)⟩

def IsFront (move : Nat → Nat) (tree other : Tree) : Prop :=
  tree.isCarried move other = true ∧ tree.label.field ≠ some .type ∧
    tree.label.field ≠ some .returns

theorem is_getter_respelled_split {move : Nat → Nat} {slot : Nat} {children others : List Tree}
    (respelled : isGetterRespelled move slot children others = true) :
    ∃ front otherFront arrow ending block, children = front ++ [arrow, ending] ∧
      others = otherFront ++ [block] ∧ front.length = slot ∧
      List.Forall₂ (IsFront move) front otherFront ∧
      isBodyRespelled move arrow ending block = true := by
  induction slot generalizing children others with
  | zero =>
      match children, others with
      | [arrow, ending], [block] => exact ⟨[], [], arrow, ending, block, rfl, rfl, rfl, .nil,
        respelled⟩
  | succ slot ih =>
      match children, others with
      | tree :: rest, other :: others =>
          rw [isGetterRespelled, Bool.and_eq_true, Bool.and_eq_true, Bool.and_eq_true, bne_iff_ne,
            bne_iff_ne] at respelled
          obtain ⟨⟨⟨carried, notType⟩, notReturns⟩, later⟩ := respelled
          obtain ⟨front, otherFront, arrow, ending, block, rfl, rfl, length, fronts, body⟩ :=
            ih later
          refine ⟨tree :: front, other :: otherFront, arrow, ending, block, rfl, rfl, ?_, ?_, body⟩
          · rw [List.length_cons, length]
          · exact .cons ⟨carried, notType, notReturns⟩ fronts

structure Bodies (move : Nat → Nat) (arrow ending block value statement other : Tree) : Prop where
  arrowKind : arrow.label.kind = .arrowExpressionClause
  arrowNamed : arrow.label.named = true
  arrowPlain : arrow.label.isHeading = false
  arrowChildren : ∃ mark, arrow.children = [mark, value] ∧ mark.label.named = false
  endingKind : ending.label.kind = .other ";"
  endingToken : ending.label.named = false
  endingPlain : ending.label.isHeading = false
  blockKind : block.label.kind = .block
  blockNamed : block.label.named = true
  blockPlain : block.label.isHeading = false
  blockChildren : ∃ opening closing, block.children = [opening, statement, closing] ∧
    opening.label.named = false ∧ closing.label.named = false
  statementKind : statement.label.kind = .returnStatement
  statementNamed : statement.label.named = true
  statementChildren : ∃ keyword last, statement.children = [keyword, other, last] ∧
    keyword.label.named = false ∧ last.label.named = false
  valueNamed : value.label.named = true
  valueKind : value.label.kind.isValue = true
  valueOrdered : value.isOrdered = true
  carried : value.isCarried move other = true
  later : statement.label.start < other.label.start

theorem bodies_of_is_body_respelled {move : Nat → Nat} {arrow ending block : Tree}
    (respelled : isBodyRespelled move arrow ending block = true) :
    ∃ value statement other, Bodies move arrow ending block value statement other := by
  unfold isBodyRespelled at respelled
  split at respelled
  · next _ arrow mark value block opening statement keyword other last closing =>
      simp only [Bool.and_eq_true, Bool.not_eq_true', beq_iff_eq, decide_eq_true_eq,
        and_assoc] at respelled
      obtain ⟨arrowKind, arrowNamed, arrowPlain, endingKind, endingToken, endingPlain, blockKind,
        blockNamed, blockPlain, statementKind, statementNamed, markToken, openingToken,
        keywordToken, lastToken, closingToken, valueNamed, valueKind, valueOrdered, carried,
        later⟩ := respelled
      exact ⟨value, .node statement [keyword, other, last], other, arrowKind, arrowNamed,
        arrowPlain, ⟨mark, rfl, markToken⟩, endingKind, endingToken, endingPlain, blockKind, blockNamed,
        blockPlain, ⟨opening, closing, rfl, openingToken, closingToken⟩, statementKind,
        statementNamed, ⟨keyword, last, rfl, keywordToken, lastToken⟩, valueNamed, valueKind,
        valueOrdered, carried, later⟩
  · cases respelled

end Tree

namespace Node

theorem place_injective {left right : Node} (sameTop : left.top = right.top) :
    left.same right = true ↔ left = right := by
  constructor
  · intro same
    exact eq_of_place sameTop (congrArg List.reverse (eq_of_beq same))
  · rintro rfl
    exact beq_self_eq_true left.path

theorem tree_of_place_nil {node : Node} (atTop : node.place = []) :
    node.tree = node.top ∧ node.parent? = none := by
  obtain ⟨tree, above, linked⟩ := node
  cases above with
  | nil => exact ⟨rfl, rfl⟩
  | cons frame above =>
      rw [place_of_parent] at atTop
      simp at atTop

theorem parent_of_place {node : Node} {place : List Nat} {index : Nat}
    (there : node.place = place ++ [index]) :
    ∃ parent, node.parent? = some parent ∧ parent.top = node.top ∧ parent.place = place ∧
      parent.tree.children[index]? = some node.tree := by
  obtain ⟨tree, above, linked⟩ := node
  cases above with
  | nil => simp [Node.place, path] at there
  | cons frame above =>
      rw [place_of_parent] at there
      obtain ⟨outer, last⟩ := List.append_inj' there rfl
      cases last
      exact ⟨⟨frame.parent, above, linked.2⟩, rfl, rfl, outer, linked.1⟩

def Carried (move : Nat → Nat) (left right : Node) : Prop :=
  Kept left right ∧ left.tree.follows move right.tree = true

theorem carried_of_is_carried {move : Nat → Nat} {left right : Node}
    (carried : left.tree.isCarried move right.tree = true) : Carried move left right := by
  obtain ⟨moved, follows⟩ := Bool.and_eq_true_iff.mp carried
  exact ⟨⟨_, _, moved⟩, follows⟩

theorem Carried.children {move : Nat → Nat} {left right : Node}
    (carried : Carried move left right) :
    List.Forall₂ (Carried move) left.children right.children := by
  obtain ⟨⟨before, after, moved⟩, follows⟩ := carried
  have offsets := forall₂_children (Tree.follows_iff.mp follows).2.2
  apply List.forall₂_iff_get.mpr
  refine ⟨offsets.length_eq, ?_⟩
  intro index inside otherInside
  exact ⟨⟨before, after, moved.children.get inside otherInside⟩, offsets.get inside otherInside⟩

end Node

/-- A tree with a getter in the short form, and the tree with that getter in the long form. -/
structure Respelling (before after : Tree) where
  move : Nat → Nat
  /-- Place of the accessor. -/
  hole : List Nat
  /-- Number of its children before the body. -/
  slot : Nat
  inMember : 2 ≤ hole.length
  respelled : before.isRespelled move slot hole after = true
  ordered : StrictMonoOn move {offset | offset ∈ before.offsets}

namespace Respelling

open Node (Carried Kept)

variable {before after : Tree} (spelling : Respelling before after)

def Clear (place : List Nat) : Prop :=
  ∀ index rest, place = spelling.hole ++ index :: rest → index < spelling.slot

/-- Nodes that the trees have in common, outside of the body of the getter and in its value. -/
inductive Twin : (left right : Node) → Prop
  | outside {left right : Node} (leftTop : left.top = before) (rightTop : right.top = after)
      (there : right.place = left.place) (clear : spelling.Clear left.place) : Twin left right
  | inside {left right : Node} (rest : List Nat) (leftTop : left.top = before)
      (rightTop : right.top = after)
      (leftThere : left.place = spelling.hole ++ spelling.slot :: 1 :: rest)
      (rightThere : right.place = spelling.hole ++ spelling.slot :: 1 :: 1 :: rest) :
      Twin left right

variable {spelling} {left right : Node}

theorem Twin.left_top (twins : spelling.Twin left right) : left.top = before := by
  cases twins with
  | outside leftTop => exact leftTop
  | inside _ leftTop => exact leftTop

theorem Twin.right_top (twins : spelling.Twin left right) : right.top = after := by
  cases twins with
  | outside _ rightTop => exact rightTop
  | inside _ _ rightTop => exact rightTop

theorem clear_hole : spelling.Clear spelling.hole := by
  intro index rest same
  have lengths := congrArg List.length same
  simp at lengths

theorem Clear.of_append {place : List Nat} {index : Nat}
    (clear : spelling.Clear (place ++ [index])) : spelling.Clear place := by
  intro first rest same
  apply clear first (rest ++ [index])
  rw [same]
  simp

theorem Clear.append {place : List Nat} (clear : spelling.Clear place)
    (notHole : place ≠ spelling.hole) (index : Nat) : spelling.Clear (place ++ [index]) := by
  intro first rest same
  rcases List.eq_nil_or_concat rest with rfl | ⟨start, last, rfl⟩
  · exact absurd (List.append_inj' same rfl).1 notHole
  · have split : place ++ [index] = (spelling.hole ++ first :: start) ++ [last] := by
      rw [same]
      simp
    exact clear first start (List.append_inj' split rfl).1

theorem Twin.place_eq_iff {other otherRight : Node} (twins : spelling.Twin left right)
    (others : spelling.Twin other otherRight) :
    left.place = other.place ↔ right.place = otherRight.place := by
  cases twins with
  | outside _ _ there clear =>
      cases others with
      | outside _ _ otherThere _ => rw [there, otherThere]
      | inside rest _ _ leftThere rightThere =>
          constructor
          · intro same
            rw [same] at clear
            exact absurd (clear _ _ leftThere) (Nat.lt_irrefl _)
          · intro same
            rw [← there, same] at clear
            exact absurd (clear _ _ rightThere) (Nat.lt_irrefl _)
  | inside rest _ _ leftThere rightThere =>
      cases others with
      | outside _ _ otherThere clear =>
          constructor
          · intro same
            rw [← same] at clear
            exact absurd (clear _ _ leftThere) (Nat.lt_irrefl _)
          · intro same
            rw [← otherThere, ← same] at clear
            exact absurd (clear _ _ rightThere) (Nat.lt_irrefl _)
      | inside otherRest _ _ otherLeft otherRight =>
          rw [leftThere, rightThere, otherLeft, otherRight]
          simp

theorem Twin.same_eq {other otherRight : Node} (twins : spelling.Twin left right)
    (others : spelling.Twin other otherRight) : left.same other = right.same otherRight := by
  have agree := twins.place_eq_iff others
  rw [Bool.eq_iff_iff, Node.place_injective (twins.left_top.trans others.left_top.symm),
    Node.place_injective (twins.right_top.trans others.right_top.symm)]
  constructor
  · rintro rfl
    exact Node.eq_of_place (twins.right_top.trans others.right_top.symm) (agree.mp rfl)
  · rintro rfl
    exact Node.eq_of_place (twins.left_top.trans others.left_top.symm) (agree.mpr rfl)

/-- The nodes between the value of the getter and the accessor, in both trees. -/
structure Between (spelling : Respelling before after)
    (left right arrow getter statement block otherGetter : Node) : Prop where
  place : left.place = spelling.hole ++ [spelling.slot, 1]
  isArrow : left.parent? = some arrow
  isGetter : arrow.parent? = some getter
  isStatement : right.parent? = some statement
  isBlock : statement.parent? = some block
  isOther : block.parent? = some otherGetter
  getters : spelling.Twin getter otherGetter
  getterPlace : getter.place = spelling.hole
  leftTree : arrow.tree.children[1]? = some left.tree
  arrowTree : getter.tree.children[spelling.slot]? = some arrow.tree
  rightTree : statement.tree.children[1]? = some right.tree
  statementTree : block.tree.children[1]? = some statement.tree
  blockTree : otherGetter.tree.children[spelling.slot]? = some block.tree

theorem between_of_place (leftTop : left.top = before) (rightTop : right.top = after)
    (leftThere : left.place = spelling.hole ++ [spelling.slot, 1])
    (rightThere : right.place = spelling.hole ++ [spelling.slot, 1, 1]) :
    ∃ arrow getter statement block otherGetter,
      spelling.Between left right arrow getter statement block otherGetter := by
  obtain ⟨arrow, isArrow, arrowTop, arrowPlace, leftTree⟩ :=
    Node.parent_of_place (leftThere.trans (List.append_assoc _ [_] [1]).symm)
  obtain ⟨getter, isGetter, getterTop, getterPlace, arrowTree⟩ := Node.parent_of_place arrowPlace
  obtain ⟨statement, isStatement, statementTop, statementPlace, rightTree⟩ :=
    Node.parent_of_place (rightThere.trans (List.append_assoc _ [_, 1] [1]).symm)
  obtain ⟨block, isBlock, blockTop, blockPlace, statementTree⟩ :=
    Node.parent_of_place (statementPlace.trans (List.append_assoc _ [_] [1]).symm)
  obtain ⟨otherGetter, isOther, otherTop, otherPlace, blockTree⟩ := Node.parent_of_place blockPlace
  have getters : spelling.Twin getter otherGetter := by
    apply Twin.outside
    · rw [getterTop, arrowTop, leftTop]
    · rw [otherTop, blockTop, statementTop, rightTop]
    · rw [getterPlace, otherPlace]
    · rw [getterPlace]
      exact clear_hole
  exact ⟨arrow, getter, statement, block, otherGetter, leftThere, isArrow, isGetter, isStatement,
    isBlock, isOther, getters, getterPlace, leftTree, arrowTree, rightTree, statementTree,
    blockTree⟩

/-- Parents of twins at the same index. -/
structure Below (spelling : Respelling before after) (left right parent otherParent : Node)
    (index : Nat) : Prop where
  isParent : left.parent? = some parent
  isOther : right.parent? = some otherParent
  parents : spelling.Twin parent otherParent
  place : left.place = parent.place ++ [index]
  tree : parent.tree.children[index]? = some left.tree
  otherTree : otherParent.tree.children[index]? = some right.tree

/-- Twins are the tops, or they stand at the same index below twins, or they are the values of
the getter. -/
theorem Twin.cases_parent (twins : spelling.Twin left right) :
    (left.place = [] ∧ right.place = []) ∨
      (∃ parent otherParent index, spelling.Below left right parent otherParent index) ∨
      ∃ arrow getter statement block otherGetter,
        spelling.Between left right arrow getter statement block otherGetter := by
  cases twins with
  | outside leftTop rightTop there clear =>
      rcases List.eq_nil_or_concat left.place with atTop | ⟨place, index, below⟩
      · exact Or.inl ⟨atTop, there.trans atTop⟩
      · right
        left
        rw [List.concat_eq_append] at below
        obtain ⟨parent, isParent, parentTop, parentPlace, tree⟩ := Node.parent_of_place below
        obtain ⟨otherParent, isOther, otherTop, otherPlace, otherTree⟩ :=
          Node.parent_of_place (there.trans below)
        refine ⟨parent, otherParent, index, isParent, isOther, ?_, ?_, tree, otherTree⟩
        · apply Twin.outside
          · rw [parentTop, leftTop]
          · rw [otherTop, rightTop]
          · rw [parentPlace, otherPlace]
          · rw [parentPlace]
            rw [below] at clear
            exact clear.of_append
        · rw [parentPlace, below]
  | inside rest leftTop rightTop leftThere rightThere =>
      rcases List.eq_nil_or_concat rest with rfl | ⟨start, index, rfl⟩
      · exact Or.inr (Or.inr (between_of_place leftTop rightTop leftThere rightThere))
      · right
        left
        rw [List.concat_eq_append] at leftThere rightThere
        obtain ⟨parent, isParent, parentTop, parentPlace, tree⟩ :=
          Node.parent_of_place (leftThere.trans (List.append_assoc _ (_ :: 1 :: start) _).symm)
        obtain ⟨otherParent, isOther, otherTop, otherPlace, otherTree⟩ :=
          Node.parent_of_place (rightThere.trans (List.append_assoc _
            (_ :: 1 :: 1 :: start) _).symm)
        refine ⟨parent, otherParent, index, isParent, isOther, ?_, ?_, tree, otherTree⟩
        · exact .inside start (parentTop.trans leftTop) (otherTop.trans rightTop) parentPlace
            otherPlace
        · rw [parentPlace, leftThere]
          simp

/-- What twins share by their place: nodes on the way to the getter are respelled, and all others
are carried over. -/
structure Kin (spelling : Respelling before after) (left right : Node) : Prop where
  around : ∀ rest, spelling.hole = left.place ++ rest →
    left.tree.isRespelled spelling.move spelling.slot rest right.tree = true
  beside : (∀ rest, spelling.hole ≠ left.place ++ rest) → Carried spelling.move left right

theorem Between.bodies {arrow getter statement block otherGetter : Node}
    (between : spelling.Between left right arrow getter statement block otherGetter)
    (kin : spelling.Kin getter otherGetter) :
    ∃ front otherFront ending, getter.tree.children = front ++ [arrow.tree, ending] ∧
      otherGetter.tree.children = otherFront ++ [block.tree] ∧ front.length = spelling.slot ∧
      List.Forall₂ (Tree.IsFront spelling.move) front otherFront ∧
      Tree.Bodies spelling.move arrow.tree ending block.tree left.tree statement.tree
        right.tree := by
  have respelled := kin.around [] (by rw [between.getterPlace, List.append_nil])
  rw [Tree.isRespelled, Bool.and_eq_true] at respelled
  obtain ⟨front, otherFront, arrowTree, ending, blockTree, children, others, length, fronts,
      body⟩ :=
    Tree.is_getter_respelled_split respelled.2
  obtain ⟨value, statementTree, other, bodies⟩ := Tree.bodies_of_is_body_respelled body
  have isArrow := between.arrowTree
  have isBlock := between.blockTree
  rw [children, ← length] at isArrow
  rw [others, ← length, fronts.length_eq] at isBlock
  simp only [List.getElem?_append_right (Nat.le_refl _), Nat.sub_self, List.getElem?_cons_zero,
    Option.some.injEq] at isArrow isBlock
  subst isArrow isBlock
  obtain ⟨mark, arrowChildren, -⟩ := bodies.arrowChildren
  obtain ⟨opening, closing, blockChildren, -⟩ := bodies.blockChildren
  have isValue := between.leftTree
  have isStatement := between.statementTree
  rw [arrowChildren] at isValue
  rw [blockChildren] at isStatement
  cases isValue
  cases isStatement
  obtain ⟨keyword, last, statementChildren, -⟩ := bodies.statementChildren
  have isOther := between.rightTree
  rw [statementChildren] at isOther
  cases isOther
  exact ⟨front, otherFront, ending, children, others, length, fronts, bodies⟩

theorem Between.kin {arrow getter statement block otherGetter : Node}
    (between : spelling.Between left right arrow getter statement block otherGetter)
    (kin : spelling.Kin getter otherGetter) : spelling.Kin left right := by
  constructor
  · intro rest onWay
    have lengths := congrArg List.length onWay
    rw [between.place] at lengths
    simp at lengths
  · intro _
    obtain ⟨_, _, _, _, _, _, _, bodies⟩ := between.bodies kin
    exact Node.carried_of_is_carried bodies.carried

theorem Below.carried {parent otherParent : Node} {index : Nat}
    (below : spelling.Below left right parent otherParent index)
    (kin : spelling.Kin parent otherParent) (twins : spelling.Twin left right)
    (off : ∀ rest, spelling.hole ≠ left.place ++ rest) : Carried spelling.move left right := by
  by_cases onWay : ∃ rest, spelling.hole = parent.place ++ rest
  · obtain ⟨rest, onWay⟩ := onWay
    have respelled := kin.around rest onWay
    cases rest with
    | nil =>
        rw [List.append_nil] at onWay
        have inFront : index < spelling.slot := by
          have place := below.place
          rw [← onWay] at place
          cases twins with
          | outside _ _ _ clear => exact clear index [] place
          | inside rest _ _ leftThere =>
              rw [leftThere] at place
              have lengths := congrArg List.length place
              simp at lengths
        rw [Tree.isRespelled, Bool.and_eq_true] at respelled
        obtain ⟨front, otherFront, arrow, ending, block, children, others, length, fronts, -⟩ :=
          Tree.is_getter_respelled_split respelled.2
        have tree := below.tree
        have otherTree := below.otherTree
        rw [← length] at inFront
        rw [children, List.getElem?_append_left inFront] at tree
        rw [others, List.getElem?_append_left (fronts.length_eq ▸ inFront)] at otherTree
        obtain ⟨inside, isLeft⟩ := List.getElem?_eq_some_iff.mp tree
        obtain ⟨otherInside, isRight⟩ := List.getElem?_eq_some_iff.mp otherTree
        have isFront := fronts.get inside otherInside
        apply Node.carried_of_is_carried
        rw [← isLeft, ← isRight]
        exact isFront.1
    | cons step rest =>
        rw [Tree.isRespelled, Bool.and_eq_true] at respelled
        have differs : index ≠ step := by
          rintro rfl
          apply off rest
          rw [onWay, below.place]
          simp
        obtain ⟨-, agree⟩ := Tree.is_carried_but_iff respelled.2
        have carries := (agree index left.tree right.tree below.tree below.otherTree).2 differs
        exact Node.carried_of_is_carried carries
  · have carried := kin.beside fun rest onTheWay => onWay ⟨rest, onTheWay⟩
    obtain ⟨⟨origin, target, moved⟩, follows⟩ := carried
    obtain ⟨-, -, -, -, movedChildren⟩ := Node.Moved.iff.mp moved
    obtain ⟨-, -, followsChildren⟩ := Tree.follows_iff.mp follows
    obtain ⟨inside, isLeft⟩ := List.getElem?_eq_some_iff.mp below.tree
    obtain ⟨otherInside, isRight⟩ := List.getElem?_eq_some_iff.mp below.otherTree
    have movedHere := movedChildren.get inside otherInside
    have followsHere := followsChildren.get inside otherInside
    refine ⟨⟨origin, target, ?_⟩, ?_⟩
    · unfold Node.Moved
      rw [← isLeft, ← isRight]
      exact movedHere
    · rw [← isLeft, ← isRight]
      exact followsHere

theorem Below.kin {parent otherParent : Node} {index : Nat}
    (below : spelling.Below left right parent otherParent index)
    (kin : spelling.Kin parent otherParent) (twins : spelling.Twin left right) :
    spelling.Kin left right := by
  constructor
  · intro rest onWay
    have further : spelling.hole = parent.place ++ index :: rest := by
      rw [onWay, below.place]
      simp
    have respelled := kin.around _ further
    rw [Tree.isRespelled, Bool.and_eq_true] at respelled
    obtain ⟨-, agree⟩ := Tree.is_carried_but_iff respelled.2
    exact (agree index left.tree right.tree below.tree below.otherTree).1 rfl
  · exact below.carried kin twins

theorem kin_of_tops (leftTop : left.top = before) (rightTop : right.top = after)
    (leftThere : left.place = []) (rightThere : right.place = []) : spelling.Kin left right := by
  have isBefore := (Node.tree_of_place_nil leftThere).1.trans leftTop
  have isAfter := (Node.tree_of_place_nil rightThere).1.trans rightTop
  constructor
  · intro rest onWay
    rw [leftThere, List.nil_append] at onWay
    rw [isBefore, isAfter, ← onWay]
    exact spelling.respelled
  · intro off
    exact absurd (by rw [leftThere, List.nil_append]) (off spelling.hole)

theorem Twin.kin (twins : spelling.Twin left right) : spelling.Kin left right := by
  induction bound : left.place.length using Nat.strongRecOn generalizing left right with
  | ind length ih =>
      rcases twins.cases_parent with ⟨atTop, otherAtTop⟩ | ⟨parent, otherParent, index, below⟩ |
        ⟨arrow, getter, statement, block, otherGetter, between⟩
      · exact kin_of_tops twins.left_top twins.right_top atTop otherAtTop
      · have shorter : parent.place.length < length := by
          rw [← bound, below.place]
          simp
        exact below.kin (ih _ shorter below.parents rfl) twins
      · have shorter : getter.place.length < length := by
          rw [← bound, between.place, between.getterPlace]
          simp
        exact between.kin (ih _ shorter between.getters rfl)

/-- What holds of the tops, and is passed from twins to the twins below them and from the accessors
to the values of the getter, holds of all twins. -/
theorem Twin.upward {holds : (left right : Node) → Prop}
    (top : ∀ {left right : Node}, spelling.Twin left right → left.parent? = none →
      right.parent? = none → holds left right)
    (step : ∀ {left right parent otherParent : Node}, spelling.Twin left right →
      left.parent? = some parent → right.parent? = some otherParent →
      spelling.Twin parent otherParent → holds parent otherParent → holds left right)
    (value : ∀ {left right arrow getter statement block otherGetter : Node},
      spelling.Twin left right →
      spelling.Between left right arrow getter statement block otherGetter →
      holds getter otherGetter → holds left right)
    (twins : spelling.Twin left right) : holds left right := by
  induction bound : left.place.length using Nat.strongRecOn generalizing left right with
  | ind length ih =>
      rcases twins.cases_parent with ⟨atTop, otherAtTop⟩ | ⟨parent, otherParent, index, below⟩ |
        ⟨arrow, getter, statement, block, otherGetter, between⟩
      · exact top twins (Node.tree_of_place_nil atTop).2 (Node.tree_of_place_nil otherAtTop).2
      · have shorter : parent.place.length < length := by
          rw [← bound, below.place]
          simp
        exact step twins below.isParent below.isOther below.parents
          (ih _ shorter below.parents rfl)
      · have shorter : getter.place.length < length := by
          rw [← bound, between.place, between.getterPlace]
          simp
        exact value twins between (ih _ shorter between.getters rfl)

theorem is_around_of_is_respelled {move : Nat → Nat} {slot : Nat} {hole : List Nat}
    {tree other : Tree} (respelled : tree.isRespelled move slot hole other = true) :
    tree.label.isAround move other.label = true ∧
      tree.label.kind.surroundsAccessor = true := by
  cases hole with
  | nil =>
      rw [Tree.isRespelled, Bool.and_eq_true, Bool.and_eq_true, Bool.and_eq_true] at respelled
      obtain ⟨⟨⟨around, kind⟩, -⟩, -⟩ := respelled
      refine ⟨around, ?_⟩
      rw [eq_of_beq kind]
      rfl
  | cons index hole =>
      rw [Tree.isRespelled, Bool.and_eq_true, Bool.and_eq_true] at respelled
      obtain ⟨⟨around, leads⟩, -⟩ := respelled
      exact ⟨around, Kind.surrounds_accessor_of_leads_to_accessor leads⟩

theorem Twin.carried_or_around (twins : spelling.Twin left right) :
    Carried spelling.move left right ∨
      (left.label.isAround spelling.move right.label = true ∧
        left.kind.surroundsAccessor = true) := by
  by_cases onWay : ∃ rest, spelling.hole = left.place ++ rest
  · obtain ⟨rest, onWay⟩ := onWay
    exact Or.inr (is_around_of_is_respelled (twins.kin.around rest onWay))
  · exact Or.inl (twins.kin.beside fun rest same => onWay ⟨rest, same⟩)

theorem Twin.same_role (twins : spelling.Twin left right) : left.SameRole right := by
  rcases twins.carried_or_around with ⟨⟨_, _, moved⟩, -⟩ | ⟨around, -⟩
  · exact moved.same_role
  · simp only [Label.isAround, Bool.and_eq_true] at around
    exact Node.same_role_iff.mp around.1.1.1

theorem Twin.kind_eq (twins : spelling.Twin left right) : left.kind = right.kind :=
  twins.same_role.1

theorem Twin.carried (twins : spelling.Twin left right)
    (apart : left.kind.surroundsAccessor = false) : Carried spelling.move left right := by
  rcases twins.carried_or_around with carried | ⟨-, surrounds⟩
  · exact carried
  · rw [apart] at surrounds
    cases surrounds

theorem Twin.kept_of_is_heading (twins : spelling.Twin left right)
    (heading : left.label.isHeading = true) : Kept left right := by
  rcases twins.carried_or_around with carried | ⟨around, -⟩
  · exact carried.1
  · simp [Label.isAround, heading] at around

structure Moved (spelling : Respelling before after) (offset other : Nat) : Prop where
  inside : offset ∈ before.offsets
  there : other = spelling.move offset

theorem Moved.le_iff {offset other first otherFirst : Nat} (pair : spelling.Moved offset other)
    (firsts : spelling.Moved first otherFirst) : offset ≤ first ↔ other ≤ otherFirst := by
  rw [pair.there, firsts.there]
  exact (spelling.ordered.le_iff_le pair.inside firsts.inside).symm

theorem Moved.lt_iff {offset other first otherFirst : Nat} (pair : spelling.Moved offset other)
    (firsts : spelling.Moved first otherFirst) : offset < first ↔ other < otherFirst := by
  rw [← Nat.not_le, ← Nat.not_le, firsts.le_iff pair]

theorem Twin.offsets (twins : spelling.Twin left right) :
    right.start = spelling.move left.start ∧ right.stop = spelling.move left.stop := by
  rcases twins.carried_or_around with ⟨-, follows⟩ | ⟨around, -⟩
  · obtain ⟨starts, stops, -⟩ := Tree.follows_iff.mp follows
    exact ⟨starts, stops⟩
  · simp only [Label.isAround, Bool.and_eq_true, beq_iff_eq] at around
    exact ⟨around.1.2, around.2⟩

theorem Twin.start (twins : spelling.Twin left right) : spelling.Moved left.start right.start := by
  refine ⟨?_, twins.offsets.1⟩
  have there := left.at_place
  rw [twins.left_top] at there
  apply Tree.mem_offsets_of_at there
  show left.tree.label.start ∈ left.tree.offsets
  cases left.tree
  exact List.mem_cons_self

theorem Twin.stop (twins : spelling.Twin left right) : spelling.Moved left.stop right.stop := by
  refine ⟨?_, twins.offsets.2⟩
  have there := left.at_place
  rw [twins.left_top] at there
  apply Tree.mem_offsets_of_at there
  show left.tree.label.stop ∈ left.tree.offsets
  cases left.tree
  exact List.mem_cons_of_mem _ List.mem_cons_self

theorem length_children (node : Node) : node.children.length = node.tree.children.length := by
  rw [← Node.map_tree_children, List.length_map]

theorem Twin.length_children_eq (twins : spelling.Twin left right)
    (notGetter : left.place ≠ spelling.hole) : left.children.length = right.children.length := by
  rw [length_children, length_children]
  by_cases onWay : ∃ rest, spelling.hole = left.place ++ rest
  · obtain ⟨rest, onWay⟩ := onWay
    have respelled := twins.kin.around rest onWay
    cases rest with
    | nil => exact absurd (by rw [onWay, List.append_nil]) notGetter
    | cons index rest =>
        rw [Tree.isRespelled, Bool.and_eq_true] at respelled
        exact (Tree.is_carried_but_iff respelled.2).1
  · obtain ⟨-, follows⟩ := twins.kin.beside fun rest same => onWay ⟨rest, same⟩
    exact (Tree.follows_iff.mp follows).2.2.length_eq

theorem Twin.child (twins : spelling.Twin left right) {index : Nat}
    (apart : left.place ≠ spelling.hole ∨ index < spelling.slot)
    (inside : index < left.children.length) (otherInside : index < right.children.length) :
    spelling.Twin left.children[index] right.children[index] := by
  have leftTop := (Node.top_of_mem_children (List.getElem_mem inside)).trans twins.left_top
  have rightTop := (Node.top_of_mem_children (List.getElem_mem otherInside)).trans twins.right_top
  have leftPlace := Node.place_get_elem_children left index inside
  have rightPlace := Node.place_get_elem_children right index otherInside
  cases twins with
  | outside _ _ there clear =>
      apply Twin.outside leftTop rightTop
      · rw [leftPlace, rightPlace, there]
      · rw [leftPlace]
        by_cases isGetter : left.place = spelling.hole
        · intro first rest same
          rw [isGetter] at same
          have inFront := apart.resolve_left (fun differs => differs isGetter)
          have same := List.append_cancel_left same
          cases same
          exact inFront
        · exact clear.append isGetter index
  | inside rest _ _ leftThere rightThere =>
      apply Twin.inside (rest ++ [index]) leftTop rightTop
      · rw [leftPlace, leftThere]
        simp
      · rw [rightPlace, rightThere]
        simp

theorem Twin.children (twins : spelling.Twin left right)
    (notGetter : left.place ≠ spelling.hole) :
    List.Forall₂ spelling.Twin left.children right.children := by
  apply List.forall₂_iff_get.mpr
  refine ⟨twins.length_children_eq notGetter, ?_⟩
  intro index inside otherInside
  exact twins.child (Or.inl notGetter) inside otherInside

theorem Twin.place_ne_hole (twins : spelling.Twin left right)
    (notAccessor : left.kind ≠ .accessorDeclaration) : left.place ≠ spelling.hole := by
  intro isGetter
  have respelled := twins.kin.around [] (by rw [isGetter, List.append_nil])
  rw [Tree.isRespelled, Bool.and_eq_true, Bool.and_eq_true, Bool.and_eq_true] at respelled
  exact notAccessor (eq_of_beq respelled.1.1.2)

end Respelling

end ReleaseAudit.Source
