import ReleaseAudit.Proofs.Source.Edit
import ReleaseAudit.Source.Declaration
import ReleaseAudit.Source.Call

/-!
# Nodes that are copies of each other

A correspondence that keeps roles and texts and goes down to all children makes
its nodes copies: what is read off a node and the nodes below it is the same
for both, or is again a pair of copies.
-/

namespace ReleaseAudit.Source.Node

set_option autoImplicit false

section Answers

variable {Item Other Result : Type} {related : Item → Other → Prop} {item : Option Item}
  {other : Option Other}

theorem any_eq_of_rel {test : Item → Bool} {otherTest : Other → Bool}
    (rel : Option.Rel related item other)
    (agree : ∀ {value : Item} {otherValue : Other}, related value otherValue →
      test value = otherTest otherValue) : item.any test = other.any otherTest := by
  cases rel with
  | none => rfl
  | some pair => exact agree pair

theorem map_eq_of_rel {ask : Item → Result} {otherAsk : Other → Result}
    (rel : Option.Rel related item other)
    (agree : ∀ {value : Item} {otherValue : Other}, related value otherValue →
      ask value = otherAsk otherValue) : item.map ask = other.map otherAsk := by
  cases rel with
  | none => rfl
  | some pair => exact congrArg some (agree pair)

theorem bind_eq_of_rel {ask : Item → Option Result} {otherAsk : Other → Option Result}
    (rel : Option.Rel related item other)
    (agree : ∀ {value : Item} {otherValue : Other}, related value otherValue →
      ask value = otherAsk otherValue) : item.bind ask = other.bind otherAsk := by
  cases rel with
  | none => rfl
  | some pair => exact agree pair

theorem is_some_eq_of_rel (rel : Option.Rel related item other) : item.isSome = other.isSome := by
  cases rel with
  | none => rfl
  | some _ => rfl

variable {Next OtherNext : Type} {relatedNext : Next → OtherNext → Prop}

theorem rel_bind {ask : Item → Option Next} {otherAsk : Other → Option OtherNext}
    (rel : Option.Rel related item other)
    (agree : ∀ {value : Item} {otherValue : Other}, related value otherValue →
      Option.Rel relatedNext (ask value) (otherAsk otherValue)) :
    Option.Rel relatedNext (item.bind ask) (other.bind otherAsk) := by
  cases rel with
  | none => exact .none
  | some pair => exact agree pair

theorem rel_map {ask : Item → Next} {otherAsk : Other → OtherNext}
    (rel : Option.Rel related item other)
    (agree : ∀ {value : Item} {otherValue : Other}, related value otherValue →
      relatedNext (ask value) (otherAsk otherValue)) :
    Option.Rel relatedNext (item.map ask) (other.map otherAsk) := by
  cases rel with
  | none => exact .none
  | some pair => exact .some (agree pair)

theorem rel_filter {test : Item → Bool} {otherTest : Other → Bool}
    (rel : Option.Rel related item other)
    (agree : ∀ {value : Item} {otherValue : Other}, related value otherValue →
      test value = otherTest otherValue) :
    Option.Rel related (item.filter test) (other.filter otherTest) := by
  cases rel with
  | none => exact .none
  | @some value otherValue pair =>
      rw [Option.filter_some, Option.filter_some, agree pair]
      split
      · exact .some pair
      · exact .none

theorem rel_imp {further : Item → Other → Prop} (rel : Option.Rel related item other)
    (implies : ∀ {value : Item} {otherValue : Other}, related value otherValue →
      further value otherValue) : Option.Rel further item other := by
  cases rel with
  | none => exact .none
  | some pair => exact .some (implies pair)

theorem rel_get_last {items : List Item} {others : List Other}
    (paired : List.Forall₂ related items others) :
    Option.Rel related items.getLast? others.getLast? := by
  induction paired with
  | nil => exact .none
  | cons pair rest ih =>
      cases rest with
      | nil => exact .some pair
      | cons _ _ => exact ih

end Answers

structure Copying (related : (left right : Node) → Prop) : Prop where
  sameRole : ∀ {left right : Node}, related left right → left.SameRole right
  text_eq : ∀ {left right : Node}, related left right → left.text = right.text
  children : ∀ {left right : Node}, related left right →
    List.Forall₂ related left.children right.children
  same_eq : ∀ {left right other otherRight : Node}, related left right →
    related other otherRight → left.same other = right.same otherRight

namespace Copying

variable {related : (left right : Node) → Prop} (copying : Copying related) {left right : Node}
  (pair : related left right)

include copying pair

theorem kind_eq : left.kind = right.kind :=
  (copying.sameRole pair).1

theorem parts : List.Forall₂ related left.parts right.parts :=
  forall₂_parts copying.sameRole (copying.children pair)

theorem child (field : Field) : Option.Rel related (left.child? field) (right.child? field) :=
  rel_child copying.sameRole (copying.children pair) field

theorem part_of (kind : Kind) : Option.Rel related (left.partOf? kind) (right.partOf? kind) :=
  rel_part_of copying.sameRole (copying.children pair) kind

theorem first_part : Option.Rel related left.firstPart? right.firstPart? :=
  rel_first_part copying.sameRole (copying.children pair)

theorem last_part : Option.Rel related left.lastPart? right.lastPart? :=
  rel_get_last (copying.parts pair)

theorem child_or_first (field : Field) :
    Option.Rel related (left.childOrFirst? field) (right.childOrFirst? field) :=
  rel_or (copying.child pair field) (copying.first_part pair)

theorem child_or_last (field : Field) :
    Option.Rel related (left.childOrLast? field) (right.childOrLast? field) :=
  rel_or (copying.child pair field) (copying.last_part pair)

theorem declaration_name : Option.Rel related left.declarationName? right.declarationName? :=
  rel_declaration_name copying.sameRole (copying.children pair)

theorem has_token_eq (spelling : String) : left.hasToken spelling = right.hasToken spelling := by
  have paired := copying.children pair
  unfold hasToken
  generalize left.children = items, right.children = others at paired
  induction paired with
  | nil => rfl
  | cons first _ ih => rw [List.any_cons, List.any_cons, copying.kind_eq first, ih]

theorem declares_eq (name : String) :
    (left.declarationName?.any fun spelled => spelled.text == name) =
      right.declarationName?.any fun spelled => spelled.text == name := by
  refine any_eq_of_rel (copying.declaration_name pair) ?_
  intro spelled other names
  rw [copying.text_eq names]

theorem declared_type : Option.Rel related left.declaredType? right.declaredType? := by
  unfold Node.declaredType?
  refine rel_or (rel_or (copying.child pair .type) (copying.child pair .returns)) ?_
  rw [copying.kind_eq pair]
  split
  · exact copying.first_part pair
  · exact .none

theorem declarator_value : Option.Rel related left.declaratorValue? right.declaratorValue? := by
  have paired := copying.children pair
  have clause : Option.Rel related
      ((left.children.find? fun child => child.kind == .equalsValueClause).bind operand?)
      ((right.children.find? fun child => child.kind == .equalsValueClause).bind operand?) := by
    refine rel_bind (rel_find ?_ paired) copying.first_part
    intro child other children
    rw [copying.kind_eq children]
  have afterSign : List.Forall₂ related
      (left.children.dropWhile fun child => child.kind.spelling != "=")
      (right.children.dropWhile fun child => child.kind.spelling != "=") := by
    clear clause
    generalize left.children = items, right.children = others at paired
    induction paired with
    | nil => exact .nil
    | cons first rest ih =>
        rw [List.dropWhile_cons, List.dropWhile_cons, copying.kind_eq first]
        split
        · exact ih
        · exact .cons first rest
  unfold Node.declaratorValue?
  generalize (left.children.dropWhile fun child => child.kind.spelling != "=") = items,
    (right.children.dropWhile fun child => child.kind.spelling != "=") = others at afterSign
  cases afterSign with
  | nil => exact clause
  | cons _ rest =>
      refine rel_find ?_ rest
      intro child other children
      obtain ⟨kinds, named, -⟩ := copying.sameRole children
      rw [kinds, named]

theorem binary_operator_eq : left.binaryOperator? = right.binaryOperator? := by
  unfold Node.binaryOperator?
  refine map_eq_of_rel (rel_or (copying.child pair .operator) ?_) ?_
  · refine rel_find ?_ (copying.children pair)
    intro child other children
    rw [(copying.sameRole children).2.1]
  · intro operator other operators
    rw [copying.kind_eq operators]

theorem asserts_presence_eq : left.assertsPresence = right.assertsPresence := by
  unfold Node.assertsPresence
  rw [copying.text_eq pair]

theorem passes_value_eq {child other : Node}
    (agree : ∀ {inner otherInner : Node}, related inner otherInner →
      child.same inner = other.same otherInner) :
    passesValue left child = passesValue right other := by
  unfold Node.passesValue
  rw [copying.kind_eq pair, copying.asserts_presence_eq pair, copying.binary_operator_eq pair,
    any_eq_of_rel (copying.child_or_last pair .value) agree,
    any_eq_of_rel (copying.child_or_first pair .left) agree,
    any_eq_of_rel (copying.child_or_first pair .condition) agree]

theorem wrapped : Option.Rel related left.wrapped? right.wrapped? := by
  unfold Node.wrapped?
  rw [copying.kind_eq pair, copying.asserts_presence_eq pair]
  split
  · exact copying.first_part pair
  · exact copying.child_or_last pair .value
  · exact copying.child_or_first pair .left
  · split
    · exact copying.first_part pair
    · exact .none
  · exact .none

theorem unwrap_value : related left.unwrapValue right.unwrapValue := by
  induction size : left.tree.size using Nat.strongRecOn generalizing left right with
  | ind bound ih =>
      rw [Node.unwrapValue, Node.unwrapValue]
      rcases rel_cases (copying.wrapped pair) with
        ⟨absent, absent'⟩ | ⟨inner, otherInner, found, found', inners⟩
      · split
        · split
          · exact pair
          · next present => cases absent'.symm.trans present
        · next present => cases absent.symm.trans present
      · split
        · next missing => cases found.symm.trans missing
        · next first isFirst =>
            cases found.symm.trans isFirst
            split
            · next missing => cases found'.symm.trans missing
            · next second isSecond =>
                cases found'.symm.trans isSecond
                have smaller := size_lt_of_mem_children (mem_children_of_wrapped found)
                exact ih _ (size ▸ smaller) inners rfl

theorem simple_name_eq : left.simpleName = right.simpleName := by
  unfold Node.simpleName
  rw [copying.kind_eq pair, copying.text_eq pair,
    map_eq_of_rel (copying.first_part pair) copying.text_eq]

theorem arguments : List.Forall₂ related left.arguments right.arguments := by
  have lists := rel_or (copying.child pair .arguments) (copying.part_of pair .argumentList)
  unfold Node.arguments
  rcases rel_cases lists with ⟨absent, absent'⟩ | ⟨list, other, found, found', inside⟩
  · rw [absent, absent']
    exact .nil
  · rw [found, found']
    exact forall₂_parts_of copying.sameRole (copying.children inside) .argument

theorem argument_name_eq : left.argumentName? = right.argumentName? := by
  unfold Node.argumentName?
  rcases rel_cases (copying.child pair .name) with
    ⟨absent, absent'⟩ | ⟨name, other, found, found', names⟩
  · rw [absent, absent']
    rcases rel_cases (copying.part_of pair .nameColon) with
      ⟨unlabelled, unlabelled'⟩ | ⟨label, otherLabel, isLabel, isOther, labels⟩
    · rw [unlabelled, unlabelled', copying.has_token_eq pair]
      have parts := copying.parts pair
      generalize left.parts = items, right.parts = others at parts
      cases parts with
      | nil => rfl
      | cons first rest =>
          cases rest with
          | nil => rfl
          | cons _ _ => simp only [copying.text_eq first]
    · rw [isLabel, isOther]
      simp only [copying.text_eq labels]
  · rw [found, found']
    simp only [copying.text_eq names]

theorem is_this_eq : left.isThis = right.isThis := by
  unfold Node.isThis
  rw [copying.kind_eq pair, copying.text_eq pair]

theorem refers_to_eq (name : String) : left.refersTo name = right.refersTo name := by
  have inners := copying.unwrap_value pair
  have members : ((left.unwrapValue.child? .name).any fun member => member.text == name) =
      (right.unwrapValue.child? .name).any fun member => member.text == name := by
    refine any_eq_of_rel (copying.child inners .name) ?_
    intro member other names
    rw [copying.text_eq names]
  unfold Node.refersTo
  dsimp only
  rw [copying.kind_eq inners, copying.text_eq inners, members,
    any_eq_of_rel (copying.child inners .expression) copying.is_this_eq]

theorem is_using_declaration_eq : left.isUsingDeclaration = right.isUsingDeclaration := by
  unfold Node.isUsingDeclaration
  rw [copying.kind_eq pair, copying.has_token_eq pair]

theorem using_header : List.Forall₂ related left.usingHeader right.usingHeader := by
  unfold Node.usingHeader
  rw [copying.kind_eq pair]
  split
  · refine List.rel_filter ?_ (copying.parts pair)
    intro child other children
    have bodies := any_eq_of_rel (copying.child_or_last pair .body) (copying.same_eq children)
    simp only [usingBody?, bodies]
  · rw [copying.is_using_declaration_eq pair]
    split
    · exact forall₂_parts_of copying.sameRole (copying.children pair) .variableDeclaration
    · exact .nil
  · exact .nil

end Copying

end ReleaseAudit.Source.Node
