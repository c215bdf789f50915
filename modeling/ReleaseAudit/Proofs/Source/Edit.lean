import Mathlib.Data.List.Forall2
import ReleaseAudit.Source.Declaration
import ReleaseAudit.Source.Walk

/-!
# Trees before and after an edit of statement bodies

An edit replaces the blocks that are statement bodies of members. What holds no
such block is moved as it is, and what holds one changes its text and its
offsets but keeps its place among its siblings. What declarations are read off
needs no more of an edit than that headings are moved and that children
correspond wherever no content is swapped.
-/

namespace ReleaseAudit.Source

set_option autoImplicit false

def Kind.hasStatementBody : Kind → Bool
  | methodDeclaration | constructorDeclaration | destructorDeclaration | operatorDeclaration
  | conversionOperatorDeclaration | accessorDeclaration => true
  | _ => false

/-- Below a node of kind `owner`, one content of a node of that kind may stand for another:
statements of a body, or the whole of an accessor. -/
def Kind.swaps (owner kind : Kind) : Bool :=
  owner.hasStatementBody && kind == .block || owner == .accessorList && kind == .accessorDeclaration

theorem Kind.swaps_eq_false {owner kind : Kind} (notBlock : kind ≠ .block)
    (notAccessor : kind ≠ .accessorDeclaration) : owner.swaps kind = false := by
  simp [swaps, notBlock, notAccessor]

/-- Parts of a declaration that come before its body; the grammar has no member inside them. -/
def Kind.isHeading : Kind → Bool
  | usingDirective | identifier | modifier | typeParameterList | parameterList | baseList
  | variableDeclaration => true
  | _ => false

def Field.isHeading : Field → Bool
  | name | type | returns | typeParameters | parameters => true
  | _ => false

namespace Label

/-- Everything but the offsets and the text. -/
def sameRole (left right : Label) : Bool :=
  left.kind == right.kind && left.named == right.named && left.field == right.field

def isHeading (label : Label) : Bool :=
  label.kind.isHeading || label.field.any Field.isHeading

end Label

namespace Tree

/-- The same tree, with the offset `before` moved to `after`. -/
def isMoved (before after : Nat) : Tree → Tree → Bool
  | .node label children, other =>
      label.sameRole other.label && label.text == other.label.text &&
        label.start + after == other.label.start + before &&
        label.stop + after == other.label.stop + before &&
        allMoved before after children other.children
where
  allMoved (before after : Nat) : List Tree → List Tree → Bool
    | [], [] => true
    | tree :: rest, other :: others =>
        isMoved before after tree other && allMoved before after rest others
    | _, _ => false

/-- One block of statements in place of another, as the body of a member of kind `owner`. -/
def isBodySwap (owner : Kind) (tree other : Tree) : Bool :=
  owner.hasStatementBody && tree.label.kind == .block && !tree.label.isHeading &&
    tree.label.sameRole other.label

/-- The trees differ in statement bodies of members only, and by what that moves. -/
def isEdit : Tree → Tree → Bool
  | .node label children, other =>
      isMoved label.start other.label.start (.node label children) other ||
        (label.sameRole other.label && !label.isHeading &&
          allEdits label.kind children other.children)
where
  allEdits (owner : Kind) : List Tree → List Tree → Bool
    | [], [] => true
    | tree :: rest, other :: others =>
        (isEdit tree other || isBodySwap owner tree other) && allEdits owner rest others
    | _, _ => false

theorem all_moved_iff {before after : Nat} {trees others : List Tree} :
    isMoved.allMoved before after trees others = true ↔
      List.Forall₂ (fun tree other => tree.isMoved before after other = true) trees others := by
  induction trees generalizing others with
  | nil => cases others <;> simp [isMoved.allMoved]
  | cons tree rest ih => cases others <;> simp [isMoved.allMoved, ih]

theorem all_edits_iff {owner : Kind} {trees others : List Tree} :
    isEdit.allEdits owner trees others = true ↔
      List.Forall₂ (fun tree other => tree.isEdit other = true ∨ isBodySwap owner tree other = true)
        trees others := by
  induction trees generalizing others with
  | nil => cases others <;> simp [isEdit.allEdits]
  | cons tree rest ih => cases others <;> simp [isEdit.allEdits, ih]

end Tree

namespace Node

theorem map_tree_children (node : Node) : node.children.map Node.tree = node.tree.children := by
  unfold children
  rw [List.map_map]
  exact List.attach_map_val.trans (List.zipIdx_map_fst 0 node.tree.children)

theorem forall₂_children {holds : Tree → Tree → Prop} {left right : Node}
    (trees : List.Forall₂ holds left.tree.children right.tree.children) :
    List.Forall₂ (fun child other => holds child.tree other.tree) left.children
      right.children := by
  rw [← map_tree_children, ← map_tree_children] at trees
  exact List.forall₂_map_left_iff.mp (List.forall₂_map_right_iff.mp trees)

def SameRole (left right : Node) : Prop :=
  left.kind = right.kind ∧ left.named = right.named ∧ left.field = right.field

theorem same_role_iff {left right : Node} :
    left.label.sameRole right.label = true ↔ left.SameRole right := by
  simp [Label.sameRole, SameRole, kind, named, field, and_assoc]

def Moved (before after : Nat) (left right : Node) : Prop :=
  left.tree.isMoved before after right.tree = true

def Kept (left right : Node) : Prop :=
  ∃ before after, Moved before after left right

namespace Moved

variable {before after : Nat} {left right : Node}

theorem iff : Moved before after left right ↔
    left.SameRole right ∧ left.text = right.text ∧ left.start + after = right.start + before ∧
      left.stop + after = right.stop + before ∧
      List.Forall₂ (fun tree other => tree.isMoved before after other = true)
        left.tree.children right.tree.children := by
  obtain ⟨⟨label, trees⟩, above, linked⟩ := left
  rw [← same_role_iff, ← Tree.all_moved_iff]
  simp only [Moved, Tree.isMoved, Bool.and_eq_true, beq_iff_eq, and_assoc]
  rfl

theorem same_role (moved : Moved before after left right) : left.SameRole right :=
  (iff.mp moved).1

theorem text_eq (moved : Moved before after left right) : left.text = right.text :=
  (iff.mp moved).2.1

theorem start_eq (moved : Moved before after left right) :
    left.start + after = right.start + before :=
  (iff.mp moved).2.2.1

theorem stop_eq (moved : Moved before after left right) :
    left.stop + after = right.stop + before :=
  (iff.mp moved).2.2.2.1

theorem children (moved : Moved before after left right) :
    List.Forall₂ (Moved before after) left.children right.children :=
  forall₂_children (iff.mp moved).2.2.2.2

end Moved

theorem Moved.rel_kept {before after : Nat} {written other : Option Node}
    (rel : Option.Rel (Moved before after) written other) : Option.Rel Kept written other := by
  cases rel with
  | none => exact .none
  | some moved => exact .some ⟨before, after, moved⟩

theorem Kept.text_eq {left right : Node} (kept : Kept left right) : left.text = right.text := by
  obtain ⟨before, after, moved⟩ := kept
  exact moved.text_eq

/-- A correspondence of nodes below parents of kind `owner`. It keeps roles and headings, and it
goes on to all children but those of nodes whose content may be swapped. -/
structure Editing (related : (owner : Kind) → (left right : Node) → Prop) : Prop where
  sameRole : ∀ {owner : Kind} {left right : Node}, related owner left right →
    left.SameRole right
  kept : ∀ {owner : Kind} {left right : Node}, related owner left right →
    left.label.isHeading = true → Kept left right
  children : ∀ {owner : Kind} {left right : Node}, related owner left right →
    owner.swaps left.kind = false →
    List.Forall₂ (related left.kind) left.children right.children

theorem editing_kept : Editing fun _ => Kept where
  sameRole := by
    rintro owner left right ⟨before, after, moved⟩
    exact moved.same_role
  kept kept _ := kept
  children := by
    rintro owner left right ⟨before, after, moved⟩ _
    exact moved.children.imp fun _ _ below => ⟨before, after, below⟩

/-- Nodes that correspond in an edit of statement bodies. -/
inductive BodyEditedIn (owner : Kind) (left right : Node) : Prop
  | kept (moved : Kept left right)
  | around (roles : left.SameRole right) (notHeading : left.label.isHeading = false)
      (inside : Tree.isEdit.allEdits left.kind left.tree.children right.tree.children = true)
  | body (roles : left.SameRole right) (notHeading : left.label.isHeading = false)
      (bodied : owner.hasStatementBody = true) (isBlock : left.kind = .block)

theorem BodyEditedIn.of_is_edit (owner : Kind) {left right : Node}
    (edit : left.tree.isEdit right.tree = true) : BodyEditedIn owner left right := by
  obtain ⟨⟨label, trees⟩, above, linked⟩ := left
  rw [Tree.isEdit, Bool.or_eq_true, Bool.and_eq_true, Bool.and_eq_true, Bool.not_eq_true'] at edit
  rcases edit with moved | ⟨⟨roles, notHeading⟩, inside⟩
  · exact .kept ⟨_, _, moved⟩
  · exact .around (same_role_iff.mp roles) notHeading inside

theorem BodyEditedIn.of_is_body_swap {owner : Kind} {left right : Node}
    (swap : Tree.isBodySwap owner left.tree right.tree = true) :
    BodyEditedIn owner left right := by
  simp only [Tree.isBodySwap, Bool.and_eq_true, Bool.not_eq_true', beq_iff_eq] at swap
  obtain ⟨⟨⟨bodied, isBlock⟩, notHeading⟩, roles⟩ := swap
  exact .body (same_role_iff.mp roles) notHeading bodied isBlock

theorem editing_body_edited_in : Editing BodyEditedIn where
  sameRole := by
    intro owner left right edited
    cases edited with
    | kept moved =>
        obtain ⟨before, after, moved⟩ := moved
        exact moved.same_role
    | around roles => exact roles
    | body roles => exact roles
  kept := by
    intro owner left right edited heading
    cases edited with
    | kept moved => exact moved
    | around _ notHeading =>
        rw [heading] at notHeading
        cases notHeading
    | body _ notHeading =>
        rw [heading] at notHeading
        cases notHeading
  children := by
    intro owner left right edited unswapped
    cases edited with
    | kept moved =>
        obtain ⟨before, after, moved⟩ := moved
        exact moved.children.imp fun _ _ below => .kept ⟨before, after, below⟩
    | around _ _ inside =>
        refine (forall₂_children (Tree.all_edits_iff.mp inside)).imp ?_
        rintro child other (edit | swap)
        · exact .of_is_edit left.kind edit
        · exact .of_is_body_swap swap
    | body _ _ bodied isBlock =>
        simp [Kind.swaps, bodied, isBlock] at unswapped

/-- Nodes that correspond in some edit, below parents of kind `owner`. -/
def EditedIn (owner : Kind) (left right : Node) : Prop :=
  ∃ related, Editing related ∧ related owner left right

namespace EditedIn

variable {owner : Kind} {left right : Node}

theorem of_kept (kept : Kept left right) : EditedIn owner left right :=
  ⟨_, editing_kept, kept⟩

theorem of_is_edit (owner : Kind) (edit : left.tree.isEdit right.tree = true) :
    EditedIn owner left right :=
  ⟨_, editing_body_edited_in, .of_is_edit owner edit⟩

theorem same_role (edited : EditedIn owner left right) : left.SameRole right := by
  obtain ⟨related, editing, pair⟩ := edited
  exact editing.sameRole pair

theorem kept_of_is_heading (edited : EditedIn owner left right)
    (heading : left.label.isHeading = true) : Kept left right := by
  obtain ⟨related, editing, pair⟩ := edited
  exact editing.kept pair heading

/-- Below corresponding nodes the children correspond, unless their contents are swapped. -/
theorem children (edited : EditedIn owner left right)
    (unswapped : owner.swaps left.kind = false) :
    List.Forall₂ (EditedIn left.kind) left.children right.children := by
  obtain ⟨related, editing, pair⟩ := edited
  exact (editing.children pair unswapped).imp fun _ _ below => ⟨related, editing, below⟩

end EditedIn

theorem rel_find {Item Other : Type} {related : Item → Other → Prop} {test : Item → Bool}
    {otherTest : Other → Bool}
    (agree : ∀ {item : Item} {other : Other}, related item other → test item = otherTest other)
    {items : List Item} {others : List Other} (paired : List.Forall₂ related items others) :
    Option.Rel related (items.find? test) (others.find? otherTest) := by
  induction paired with
  | nil => exact .none
  | @cons item other items others pair rest ih =>
      rw [List.find?_cons, List.find?_cons, agree pair]
      cases otherTest other with
      | true => exact .some pair
      | false => exact ih

theorem rel_or {Item Other : Type} {related : Item → Other → Prop} {item fallback : Option Item}
    {other otherFallback : Option Other} (first : Option.Rel related item other)
    (second : Option.Rel related fallback otherFallback) :
    Option.Rel related (item.or fallback) (other.or otherFallback) := by
  cases first with
  | none => exact second
  | some pair => exact .some pair

theorem rel_cases {Item Other : Type} {related : Item → Other → Prop} {item : Option Item}
    {other : Option Other} (rel : Option.Rel related item other) :
    (item = none ∧ other = none) ∨
      ∃ value otherValue, item = some value ∧ other = some otherValue ∧
        related value otherValue := by
  cases rel with
  | none => exact Or.inl ⟨rfl, rfl⟩
  | some pair => exact Or.inr ⟨_, _, rfl, rfl, pair⟩

section Choosing

variable {related : Node → Node → Prop} {left right : Node}
  (roles : ∀ {child other : Node}, related child other → child.SameRole other)
  (paired : List.Forall₂ related left.children right.children)

include roles paired

theorem forall₂_parts : List.Forall₂ related left.parts right.parts := by
  refine List.rel_filter ?_ (List.rel_filter ?_ paired)
  · intro child other pair
    simp only [(roles pair).1]
  · intro child other pair
    simp only [(roles pair).2.1]

theorem forall₂_parts_of (kind : Kind) :
    List.Forall₂ related (left.partsOf kind) (right.partsOf kind) := by
  refine List.rel_filter ?_ (forall₂_parts roles paired)
  intro child other pair
  simp only [(roles pair).1]

theorem rel_child (field : Field) :
    Option.Rel related (left.child? field) (right.child? field) := by
  refine rel_find ?_ paired
  intro child other pair
  rw [(roles pair).2.2]

theorem rel_part_of (kind : Kind) :
    Option.Rel related (left.partOf? kind) (right.partOf? kind) := by
  refine rel_find ?_ (forall₂_parts roles paired)
  intro child other pair
  rw [(roles pair).1]

theorem rel_first_part : Option.Rel related left.firstPart? right.firstPart? := by
  have parts := forall₂_parts roles paired
  unfold firstPart?
  generalize left.parts = items, right.parts = others at parts
  cases parts with
  | nil => exact .none
  | cons pair _ => exact .some pair

theorem rel_declaration_name :
    Option.Rel related left.declarationName? right.declarationName? :=
  rel_or (rel_child roles paired .name) (rel_part_of roles paired .identifier)

end Choosing

section Headings

variable {left right : Node}

theorem rel_kept_of_is_heading {owner : Kind} {child other : Option Node}
    (rel : Option.Rel (EditedIn owner) child other)
    (heading : ∀ found, child = some found → found.label.isHeading = true) :
    Option.Rel Kept child other := by
  cases rel with
  | none => exact .none
  | some pair => exact .some (pair.kept_of_is_heading (heading _ rfl))

theorem rel_kept_child (paired : List.Forall₂ (EditedIn left.kind) left.children right.children)
    {field : Field} (heading : field.isHeading = true) :
    Option.Rel Kept (left.child? field) (right.child? field) := by
  apply rel_kept_of_is_heading (rel_child EditedIn.same_role paired field)
  intro child found
  have isField : child.label.field = some field := eq_of_beq (List.find?_some found :)
  simp [Label.isHeading, isField, heading]

theorem rel_kept_part_of (paired : List.Forall₂ (EditedIn left.kind) left.children right.children)
    {kind : Kind} (heading : kind.isHeading = true) :
    Option.Rel Kept (left.partOf? kind) (right.partOf? kind) := by
  apply rel_kept_of_is_heading (rel_part_of EditedIn.same_role paired kind)
  intro child found
  have isKind : child.label.kind = kind := eq_of_beq (List.find?_some found :)
  simp [Label.isHeading, isKind, heading]

theorem rel_kept_declaration_name
    (paired : List.Forall₂ (EditedIn left.kind) left.children right.children) :
    Option.Rel Kept left.declarationName? right.declarationName? :=
  rel_or (rel_kept_child paired rfl) (rel_kept_part_of paired rfl)

end Headings

end Node

end ReleaseAudit.Source
