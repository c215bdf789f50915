import ReleaseAudit.Inference.Model
import ReleaseAudit.Proofs.Declarations.Designation
import ReleaseAudit.Proofs.Source.Sample
import ReleaseAudit.Verdict.Placement

/-!
# Inferred types and their declarations

Every way to type an expression ends in a written type, in an argument of a type
found before, or in the type around a `this`. Only the last leaves arguments
out, so only there may a type fail to designate its declaration.
-/

namespace ReleaseAudit.Source.Node

set_option autoImplicit false

theorem top_of_child {node child : Node} {field : Field} (found : node.child? field = some child) :
    child.top = node.top :=
  top_of_mem_children (mem_children_of_child found)

theorem top_of_first_part {node child : Node} (found : node.firstPart? = some child) :
    child.top = node.top :=
  top_of_mem_children (mem_children_of_first_part found)

theorem top_of_child_or_first {node child : Node} {field : Field}
    (found : node.childOrFirst? field = some child) : child.top = node.top :=
  top_of_mem_children (mem_children_of_child_or_first found)

theorem top_of_child_or_last {node child : Node} {field : Field}
    (found : node.childOrLast? field = some child) : child.top = node.top :=
  top_of_mem_children (mem_children_of_child_or_last found)

theorem top_of_declared_type {node type : Node} (found : node.declaredType? = some type) :
    type.top = node.top := by
  rcases Option.or_eq_some_iff.mp found with byField | ⟨-, first⟩
  · rcases Option.or_eq_some_iff.mp byField with byType | ⟨-, byResult⟩
    · exact top_of_child byType
    · exact top_of_child byResult
  · split at first
    · exact top_of_first_part first
    · cases first

theorem top_of_declarator_value {node value : Node} (found : node.declaratorValue? = some value) :
    value.top = node.top := by
  unfold declaratorValue? at found
  split at found
  · next sign afterSign dropped =>
      have later : value ∈ node.children.dropWhile fun child => child.kind.spelling != "=" := by
        rw [dropped]
        exact List.mem_cons_of_mem _ (List.mem_of_find?_eq_some found)
      exact top_of_mem_children ((List.dropWhile_suffix _).subset later)
  · obtain ⟨clause, isClause, found⟩ := Option.bind_eq_some_iff.mp found
    exact (top_of_first_part found).trans (top_of_mem_children (List.mem_of_find?_eq_some isClause))

theorem top_value_root (node : Node) : node.valueRoot.top = node.top := by
  rcases climb_value_eq_or_mem node node.ancestors with same | further
  · rw [valueRoot, same]
  · exact top_of_mem_ancestors further

theorem mem_of_scope_among {enclosing : List Node} {inGlobal : Bool} {scope : Node}
    (found : scopeAmong? inGlobal enclosing = some scope) : scope ∈ enclosing := by
  induction enclosing generalizing inGlobal with
  | nil => cases found
  | cons ancestor enclosing ih =>
      rw [scopeAmong?] at found
      split at found
      · cases found
        exact List.mem_cons_self
      · split at found
        · cases found
          exact List.mem_cons_self
        · exact List.mem_cons_of_mem _ (ih found)

theorem top_of_enclosing_scope {node scope : Node} (found : node.enclosingScope? = some scope) :
    scope.top = node.top :=
  top_of_mem_ancestors (mem_of_scope_among found)

theorem top_of_declarator_of {root : Node} {declared : Declarator}
    (found : root.declaratorOf? = some declared) : declared.declaration.top = root.top := by
  obtain ⟨-, isDeclaration, -⟩ := declarator_of_declarator_of found
  rw [← top_of_parent isDeclaration]
  obtain ⟨parent, isParent, ⟨-, rfl⟩ | ⟨-, isGrandparent⟩⟩ := parent_of_declarator_of found
  · exact (top_of_parent isParent).symm
  · exact ((top_of_parent isParent).trans (top_of_parent isGrandparent)).symm

theorem top_of_receiver {invocation receiver : Node} {target : CallTarget}
    (found : invocation.callTarget? = some target) (isReceiver : target.receiver = some receiver) :
    receiver.top = invocation.top := by
  obtain ⟨function, isFunction, found⟩ := Option.bind_eq_some_iff.mp found
  have inside := top_of_child_or_first isFunction
  split at found
  · obtain ⟨name, -, found⟩ := Option.bind_eq_some_iff.mp found
    cases found
    exact (top_of_child isReceiver).trans inside
  · obtain ⟨binding, -, found⟩ := Option.bind_eq_some_iff.mp found
    obtain ⟨name, -, found⟩ := Option.bind_eq_some_iff.mp found
    cases found
    exact (top_of_first_part isReceiver).trans inside
  · obtain ⟨name, -, found⟩ := Option.bind_eq_some_iff.mp found
    cases found
    obtain ⟨access, isAccess, isFirst⟩ := Option.bind_eq_some_iff.mp isReceiver
    exact (top_of_first_part isFirst).trans (top_of_parent (parent_of_parent_of isAccess)).symm
  · cases found
    cases isReceiver
  · cases found
    cases isReceiver
  · cases found

end ReleaseAudit.Source.Node

namespace ReleaseAudit.Inference

set_option autoImplicit false

open Declarations (Catalog Designated Designates Index MemberDecl NameScope Substitution TypeDecl
  Usings designated_get_or_else_of_name designated_of_resolve isPlainTree)
open Source (Document Node Outline Tree)
open Source.Sample (body letter token unit)
open ReleaseAudit.Types (TypeRef TypeSymbol typeKey)

theorem Trail.plain_pass {trail : Trail} (plain : trail.usings.Plain) {ancestor : Node}
    (plainTree : isPlainTree ancestor.top = true) : (trail.pass ancestor).usings.Plain := by
  unfold Trail.pass
  split
  · dsimp only
    split
    · next body isBody =>
        rw [← Node.top_of_parent (Node.parent_of_body isBody)] at plainTree
        exact plain.add_from plainTree
    · exact plain
  · refine List.foldlRecOn (motive := fun trail : Trail => trail.usings.Plain) _ _
      (plain.add_from plainTree) ?_
    intro passed plainPassed child member
    rw [← Node.top_of_mem_parts (List.mem_filter.mp member).1] at plainTree
    exact plainPassed.add_from plainTree
  · exact plain
  · exact plain
  · split
    · unfold Trail.addType
      split <;> exact plain
    · exact plain

theorem plain_scope_at {node : Node} (plainTree : isPlainTree node.top = true) :
    (scopeAt node).usings.Plain := by
  change (node.ancestors.foldl Trail.pass {}).usings.Plain
  refine List.foldlRecOn (motive := fun trail : Trail => trail.usings.Plain) _ _
    Usings.plain_empty ?_
  intro trail plain ancestor member
  rw [← Node.top_of_mem_ancestors member] at plainTree
  exact Trail.plain_pass plain plainTree

/-- The type of a `this` that stands in a generic type of the tree: the declared type without
the arguments that its key counts. -/
def BareThis (index : Index) (tree : Tree) (type : TypeSymbol) : Prop :=
  ∃ (node : Node) (decl : TypeDecl), node.top = tree ∧ node.kind.isThis = true ∧
    (scopeAt node).enclosingTypes.getLast?.bind index.get? = some decl ∧ decl.typeParams ≠ [] ∧
    type = ⟨decl.fullName, [], decl.supertypes, decl.kind⟩

def Answers (index : Index) (tree : Tree) (type : TypeSymbol) : Prop :=
  Designated index type ∨ BareThis index tree type

theorem Answers.arguments {index : Index} {tree : Tree} {type : TypeSymbol}
    (answers : Answers index tree type) :
    ∀ argument ∈ type.typeArguments, Designated index argument := by
  rcases answers with designated | ⟨node, decl, -, -, -, -, rfl⟩
  · exact designated.arguments
  · intro argument member
    cases member

theorem Answers.only_argument {index : Index} {tree : Tree} {type argument : TypeSymbol}
    (answers : Answers index tree type) (found : onlyArgument? type = some argument) :
    Designated index argument := by
  apply answers.arguments
  unfold Inference.onlyArgument? at found
  split at found
  · next only listed =>
      cases found
      rw [listed]
      exact List.mem_cons_self
  · cases found

/-- A way to type nodes that answers within the tree. -/
def Sound (index : Index) (tree : Tree) (infer : Node → Option TypeSymbol) : Prop :=
  ∀ node type, node.top = tree → infer node = some type → Answers index tree type

section Step

variable {index : Index} (regular : index.Regular) {tree : Tree}
  (plainTree : isPlainTree tree = true)

section Written

variable {node : Node} {type : TypeSymbol}

include regular plainTree

theorem designated_of_written_at (inTree : node.top = tree)
    (found : writtenAt? index node = some type) : Designated index type := by
  unfold writtenAt? at found
  split at found
  · cases found
  · next written parsed =>
      split at found
      · cases found
      · have scope := plain_scope_at (inTree ▸ plainTree)
        exact designated_of_resolve regular scope (Substitution.designated_nil index)
          (TypeRef.plain_of_parse parsed) type found

theorem designated_of_named_type (inTree : node.top = tree)
    (found : namedType? index node = some type) : Designated index type := by
  have written : writtenAt? index node = some type := by
    revert found
    unfold namedType?
    split <;> simp
  exact designated_of_written_at regular plainTree inTree written

theorem designated_of_declared_at (inTree : node.top = tree)
    (found : declaredAt? index node = some type) : Designated index type := by
  obtain ⟨written, isWritten, found⟩ := Option.bind_eq_some_iff.mp found
  have inside := (Node.top_of_declared_type isWritten).trans inTree
  exact designated_of_written_at regular plainTree inside found

end Written

structure Stored (index : Index) (decl : TypeDecl) (member : MemberDecl) : Prop where
  inTable : decl ∈ index.types
  inDecl : member ∈ decl.members

theorem mem_of_preferred {Item : Type} {test : Item → Bool} {candidates : List Item} {item : Item}
    (found : Index.preferred? test candidates = some item) : item ∈ candidates := by
  rcases Option.or_eq_some_iff.mp found with accepted | ⟨-, first⟩
  · exact List.mem_of_find?_eq_some accepted
  · exact List.mem_of_head? first

theorem stored_of_find_member {key name : String} {wanted : MemberDecl → Bool}
    {count : Option Nat} {decl : TypeDecl} {member : MemberDecl}
    (found : index.findMember? key name wanted count = some (decl, member)) :
    Stored index decl member := by
  obtain ⟨owner, inLineage, listed⟩ := List.mem_flatMap.mp (mem_of_preferred found)
  obtain ⟨own, isOwn, same⟩ := List.mem_map.mp listed
  cases same
  obtain ⟨reached, -, isDecl⟩ := List.mem_filterMap.mp inLineage
  exact ⟨List.mem_of_find?_eq_some isDecl, (List.mem_filter.mp isOwn).1⟩

theorem stored_of_find_extension {name : String} {receiver : TypeSymbol} {count : Nat}
    {decl : TypeDecl} {member : MemberDecl}
    (found : index.findExtension? name receiver count = some (decl, member)) :
    Stored index decl member := by
  obtain ⟨extension, -, built⟩ := List.mem_filterMap.mp (mem_of_preferred found)
  obtain ⟨-, built⟩ := Option.ite_none_right_eq_some.mp built
  obtain ⟨owner, isOwner, built⟩ := Option.bind_eq_some_iff.mp built
  obtain ⟨own, isOwn, built⟩ := Option.bind_eq_some_iff.mp built
  obtain ⟨-, same⟩ := Option.ite_none_right_eq_some.mp built
  cases same
  exact ⟨List.mem_of_find?_eq_some isOwner, List.mem_of_getElem? isOwn⟩

include regular in
theorem designated_of_member_type {decl : TypeDecl} {member : MemberDecl}
    (stored : Stored index decl member) {scope : NameScope} (usings : scope.usings =
        decl.scope.usings)
    {bindings : Substitution} (bound : bindings.Designated index) {type : TypeSymbol}
    (found : member.type.bind (index.resolve? scope bindings) = some type) :
    Designated index type := by
  obtain ⟨written, isWritten, found⟩ := Option.bind_eq_some_iff.mp found
  have entry := regular decl stored.inTable
  refine designated_of_resolve regular ?_ bound
    (entry.members member stored.inDecl written isWritten) type found
  rw [usings]
  exact entry.usings

theorem designated_receiver_bindings (decl : TypeDecl) {receiver : Option TypeSymbol}
    (designated : ∀ type, receiver = some type →
      ∀ argument ∈ type.typeArguments, Designated index argument) :
    (receiverBindings decl receiver).Designated index := by
  unfold receiverBindings
  split
  · next type =>
      split
      · exact (Substitution.designated_nil index).bind_all _ (designated type rfl)
      · exact Substitution.designated_nil index
  · exact Substitution.designated_nil index

include regular in
theorem designated_of_bind_call {decl : TypeDecl} {member : MemberDecl}
    (stored : Stored index decl member) {receiver : Option TypeSymbol}
    (ofReceiver : ∀ type, receiver = some type →
      ∀ argument ∈ type.typeArguments, Designated index argument)
    {arguments : List TypeSymbol} (explicit : ∀ argument ∈ arguments, Designated index argument)
    {isExtension : Bool} {type : TypeSymbol}
    (found : (bindCall index decl member receiver arguments isExtension).returnType = some type) :
    Designated index type := by
  unfold bindCall at found
  dsimp only at found
  split at found
  · exact explicit type (List.mem_of_getElem? found)
  · have bound := (designated_receiver_bindings decl ofReceiver).bind_all member.typeParams explicit
    refine designated_of_member_type regular stored ?_ bound found
    rfl

include regular in
theorem designated_explicit_type_arguments (name : Node) {scope : NameScope}
    (plain : scope.usings.Plain) :
    ∀ argument ∈ explicitTypeArguments index name scope, Designated index argument := by
  intro argument member
  unfold explicitTypeArguments at member
  split at member
  · split at member
    · next written parsed =>
        obtain ⟨arg, inArgs, rfl⟩ := List.mem_map.mp member
        refine designated_get_or_else_of_name arg.spelling fun type found => ?_
        exact designated_of_resolve regular plain (Substitution.designated_nil index)
          ((TypeRef.plain_of_parse parsed).args arg inArgs) type found
    · cases member
  · cases member

theorem top_of_local_function {invocation function : Node} {name : String}
    (found : localFunction? invocation name = some function) : function.top = invocation.top := by
  obtain ⟨scope, isScope, found⟩ := Option.bind_eq_some_iff.mp found
  have inScope := (List.mem_filter.mp (List.mem_of_find?_eq_some found)).1
  have scopes := (List.mem_filter.mp (List.mem_of_getLast? isScope)).1
  rw [Node.top_of_mem_descendants inScope]
  exact Node.top_of_mem_ancestors ((List.takeWhile_prefix _).subset scopes)

include regular plainTree in
theorem designated_of_local_function_call {invocation : Node} (inTree : invocation.top = tree)
    {name : String} {arguments : List TypeSymbol}
    (explicit : ∀ argument ∈ arguments, Designated index argument) {call : BoundCall}
    (found : localFunctionCall? index invocation name arguments = some call) {type : TypeSymbol}
    (returned : call.returnType = some type) : Designated index type := by
  obtain ⟨function, isFunction, rfl⟩ := Option.map_eq_some_iff.mp found
  obtain ⟨written, isWritten, resolved⟩ := Option.bind_eq_some_iff.mp returned
  have inside := (top_of_local_function isFunction).trans inTree
  have scope := plain_scope_at (inside ▸ plainTree)
  have bound := (Substitution.designated_nil index).bind_all
    (Declarations.typeParameters function) explicit
  refine designated_of_resolve regular ?_ bound (Declarations.plain_of_written_type isWritten)
    type resolved
  exact scope

theorem stored_of_unqualified {scope : NameScope} {name : String} {count : Nat} {decl : TypeDecl}
    {member : MemberDecl}
    (found : (enclosingMethod? index scope name count).or (importedMethod? index scope name count) =
      some (decl, member)) : Stored index decl member := by
  rcases Option.or_eq_some_iff.mp found with enclosing | ⟨-, imported⟩
  · obtain ⟨key, -, isMember⟩ := List.exists_of_findSome?_eq_some enclosing
    exact stored_of_find_member isMember
  · obtain ⟨text, -, isMember⟩ := List.exists_of_findSome?_eq_some imported
    obtain ⟨written, -, isMember⟩ := Option.bind_eq_some_iff.mp isMember
    obtain ⟨key, -, isMember⟩ := Option.bind_eq_some_iff.mp isMember
    exact stored_of_find_member isMember

variable {infer : Node → Option TypeSymbol} (sound : Sound index tree infer)

section Sound

include regular plainTree sound

theorem designated_of_call_on {receiver : Node} (inTree : receiver.top = tree) {name : String}
    {count : Nat} {arguments : List TypeSymbol}
    (explicit : ∀ argument ∈ arguments, Designated index argument) {call : BoundCall}
    (found : callOn? index infer receiver name count arguments = some call) {type : TypeSymbol}
    (returned : call.returnType = some type) : Designated index type := by
  unfold callOn? at found
  split at found
  · next owner inferred =>
      have answers := sound receiver owner inTree inferred
      split at found
      · next decl member isMember =>
          cases found
          refine designated_of_bind_call regular (stored_of_find_member isMember) ?_ explicit
            returned
          intro own isOwn
          cases isOwn
          exact answers.arguments
      · obtain ⟨⟨decl, member⟩, isMember, rfl⟩ := Option.map_eq_some_iff.mp found
        refine designated_of_bind_call regular (stored_of_find_extension isMember) ?_ explicit
          returned
        intro own isOwn
        cases isOwn
  · obtain ⟨owner, named, found⟩ := Option.bind_eq_some_iff.mp found
    obtain ⟨⟨decl, member⟩, isMember, found⟩ := Option.bind_eq_some_iff.mp found
    cases found
    refine designated_of_bind_call regular (stored_of_find_member isMember) ?_ explicit returned
    intro own isOwn
    cases isOwn
    exact (designated_of_named_type regular plainTree inTree named).arguments

theorem designated_of_resolve_call {invocation : Node} (inTree : invocation.top = tree)
    {call : BoundCall} (found : resolveCall? index infer invocation = some call)
    {type : TypeSymbol} (returned : call.returnType = some type) : Designated index type := by
  obtain ⟨target, isTarget, found⟩ := Option.bind_eq_some_iff.mp found
  have scope := plain_scope_at (inTree ▸ plainTree)
  have explicit := designated_explicit_type_arguments regular target.name scope
  dsimp only at found
  split at found
  · next receiver isReceiver =>
      have inside := (Node.top_of_receiver isTarget isReceiver).trans inTree
      exact designated_of_call_on regular plainTree sound inside explicit found returned
  · rcases Option.or_eq_some_iff.mp found with isLocal | ⟨-, isMethod⟩
    · exact designated_of_local_function_call regular plainTree inTree explicit isLocal returned
    · obtain ⟨⟨decl, member⟩, isMember, rfl⟩ := Option.map_eq_some_iff.mp isMethod
      refine designated_of_bind_call regular (stored_of_unqualified isMember) ?_ explicit returned
      intro own isOwn
      cases isOwn

end Sound

def Binding.Within (index : Index) (tree : Tree) : Binding → Prop
  | .localVariable declarator => declarator.top = tree
  | .parameter declaration => declaration.top = tree
  | .untyped => True
  | .iteration statement => statement.top = tree
  | .member decl own => Stored index decl own

theorem within_of_find_parameter {scope : Node} (inTree : scope.top = tree) {name : String}
    {binding : Binding} (found : findParameter? scope name = some binding) :
    binding.Within index tree := by
  unfold findParameter? at found
  split at found
  · cases found
  · next list isList =>
      split at found
      · obtain ⟨parameter, isParameter, rfl⟩ := Option.map_eq_some_iff.mp found
        have inParts := (List.mem_filter.mp (List.mem_of_find?_eq_some isParameter)).1
        have inList : list.top = scope.top := by
          rcases Option.or_eq_some_iff.mp isList with byField | ⟨-, byKind⟩
          · exact Node.top_of_child byField
          · exact Node.top_of_mem_parts (Node.mem_parts_of_part_of byKind)
        split
        · exact (Node.top_of_mem_parts inParts).trans (inList.trans inTree)
        · trivial
      · obtain ⟨-, same⟩ := Option.ite_none_right_eq_some.mp found
        cases same
        trivial
      · obtain ⟨-, same⟩ := Option.ite_none_right_eq_some.mp found
        cases same
        trivial
      · cases found

theorem within_of_binding_in {site ancestor : Node} (inTree : ancestor.top = tree) {name : String}
    {binding : Binding} (found : bindingIn? site name ancestor = some binding) :
    binding.Within index tree := by
  unfold bindingIn? at found
  split at found
  · cases found
    exact inTree
  · split at found
    · rcases Option.or_eq_some_iff.mp found with isParameter | ⟨-, isLocal⟩
      · exact within_of_find_parameter inTree isParameter
      · obtain ⟨declarator, isDeclarator, rfl⟩ := Option.map_eq_some_iff.mp isLocal
        have listed := (List.mem_filter.mp (List.mem_of_getLast? isDeclarator)).1
        exact (Node.top_of_mem_descendants (List.mem_filter.mp listed).1).trans inTree
    · cases found

theorem within_of_local_among {site : Node} {enclosing : List Node}
    (inTree : ∀ ancestor ∈ enclosing, ancestor.top = tree) {name : String} {binding : Binding}
    (found : localAmong? site name enclosing = some binding) : binding.Within index tree := by
  induction enclosing with
  | nil => cases found
  | cons ancestor enclosing ih =>
      rw [localAmong?] at found
      split at found
      · next own isOwn =>
          cases found
          exact within_of_binding_in (inTree ancestor List.mem_cons_self) isOwn
      · split at found
        · cases found
        · exact ih (fun other member => inTree other (List.mem_cons_of_mem _ member)) found

theorem within_of_lookup {site : Node} (inTree : site.top = tree) {name : String}
    {binding : Binding} (found : lookup? index site name = some binding) :
    binding.Within index tree := by
  rcases Option.or_eq_some_iff.mp found with isLocal | ⟨-, isMember⟩
  · refine within_of_local_among ?_ isLocal
    exact fun ancestor member => (Node.top_of_mem_ancestors member).trans inTree
  · obtain ⟨key, -, found⟩ := List.exists_of_findSome?_eq_some isMember
    obtain ⟨⟨decl, member⟩, isFound, rfl⟩ := Option.map_eq_some_iff.mp found
    exact stored_of_find_member isFound

section Typed

variable {type : TypeSymbol}

include regular plainTree sound

theorem answers_of_local_type {declarator site : Node} (inTree : declarator.top = tree)
    (found : localType? index infer declarator site = some type) : Answers index tree type := by
  obtain ⟨declaration, isDeclaration, found⟩ := Option.bind_eq_some_iff.mp found
  obtain ⟨typeNode, isType, found⟩ := Option.bind_eq_some_iff.mp found
  obtain ⟨written, -, found⟩ := Option.bind_eq_some_iff.mp found
  have inDeclaration := (Node.top_of_parent isDeclaration).symm.trans inTree
  split at found
  · obtain ⟨initial, isInitial, found⟩ := Option.bind_eq_some_iff.mp found
    split at found
    · cases found
    · exact sound initial type ((Node.top_of_declarator_value isInitial).trans inTree) found
  · have inside := (Node.top_of_declared_type isType).trans inDeclaration
    exact Or.inl (designated_of_written_at regular plainTree inside found)

theorem answers_of_iteration_type {statement : Node} (inTree : statement.top = tree)
    (found : iterationType? index infer statement = some type) : Answers index tree type := by
  rcases Option.or_eq_some_iff.mp found with written | ⟨-, element⟩
  · obtain ⟨typeNode, isType, written⟩ := Option.bind_eq_some_iff.mp written
    have inside := (Node.top_of_child isType).trans inTree
    exact Or.inl (designated_of_written_at regular plainTree inside written)
  · obtain ⟨collection, inferred, only⟩ := Option.bind_eq_some_iff.mp element
    obtain ⟨right, isRight, inferred⟩ := Option.bind_eq_some_iff.mp inferred
    have answers := sound right collection ((Node.top_of_child isRight).trans inTree) inferred
    exact Or.inl (answers.only_argument only)

theorem answers_of_binding_type {binding : Binding} (within : binding.Within index tree)
    {site : Node} (found : bindingType? index infer binding site = some type) :
    Answers index tree type := by
  cases binding with
  | localVariable declarator => exact answers_of_local_type regular plainTree sound within found
  | parameter declaration => exact Or.inl (designated_of_declared_at regular plainTree within found)
  | untyped => cases found
  | iteration statement => exact answers_of_iteration_type regular plainTree sound within found
  | member decl member =>
      exact Or.inl
        (designated_of_member_type regular within rfl (Substitution.designated_nil index) found)

theorem answers_of_target_type {node : Node} (inTree : node.top = tree)
    (found : targetType? index infer node = some type) : Answers index tree type := by
  have inRoot := (Node.top_value_root node).trans inTree
  have declared : ∀ owner : Node, owner.top = tree → declaredAt? index owner = some type →
      Answers index tree type := by
    intro owner inside isDeclared
    exact Or.inl (designated_of_declared_at regular plainTree inside isDeclared)
  unfold targetType? at found
  dsimp only at found
  split at found
  · next declarator isDeclarator =>
      exact declared _ ((Node.top_of_declarator_of isDeclarator).trans inRoot) found
  · obtain ⟨parent, isParent, found⟩ := Option.bind_eq_some_iff.mp found
    have inParent := (Node.top_of_parent isParent).symm.trans inRoot
    have above : ∀ owner : Node, parent.parent? = some owner → owner.top = tree :=
      fun owner isOwner => (Node.top_of_parent isOwner).symm.trans inParent
    split at found
    · obtain ⟨right, -, found⟩ := Option.bind_eq_some_iff.mp found
      obtain ⟨left, isLeft, inferred⟩ := Option.bind_eq_some_iff.mp found
      exact sound left type ((Node.top_of_child isLeft).trans inParent) inferred
    · obtain ⟨scope, isScope, found⟩ := Option.bind_eq_some_iff.mp found
      split at found
      · cases found
      · exact declared scope ((Node.top_of_enclosing_scope isScope).trans inParent) found
    · obtain ⟨owner, isOwner, found⟩ := Option.bind_eq_some_iff.mp found
      exact declared owner (above owner isOwner) found
    · obtain ⟨owner, isOwner, found⟩ := Option.bind_eq_some_iff.mp found
      exact declared owner (above owner isOwner) found
    · exact declared parent inParent found
    · cases found

theorem designated_of_member_access_type {access : Node} (inTree : access.top = tree)
    (found : memberAccessType? index infer access = some type) : Designated index type := by
  obtain ⟨⟨owner, decl, member⟩, accessed, found⟩ := Option.bind_eq_some_iff.mp found
  obtain ⟨isOwner, isReceiver, accessed⟩ := Option.bind_eq_some_iff.mp accessed
  obtain ⟨receiver, isChild, isReceiver⟩ := Option.bind_eq_some_iff.mp isReceiver
  obtain ⟨name, -, accessed⟩ := Option.bind_eq_some_iff.mp accessed
  obtain ⟨⟨foundDecl, foundMember⟩, isMember, same⟩ := Option.bind_eq_some_iff.mp accessed
  cases same
  have inside := (Node.top_of_child isChild).trans inTree
  have arguments : ∀ argument ∈ owner.typeArguments, Designated index argument := by
    rcases Option.or_eq_some_iff.mp isReceiver with inferred | ⟨-, named⟩
    · exact (sound receiver owner inside inferred).arguments
    · exact (designated_of_named_type regular plainTree inside named).arguments
  refine designated_of_member_type regular (stored_of_find_member isMember) rfl
    (designated_receiver_bindings decl ?_) found
  intro own isOwn
  cases isOwn
  exact arguments

end Typed

include regular in
/-- The type around a `this` designates its declaration unless that one is generic. -/
theorem answers_of_enclosing_type_symbol {node : Node} (inTree : node.top = tree)
    (isThis : node.kind.isThis = true) {type : TypeSymbol}
    (found : enclosingTypeSymbol? index node = some type) : Answers index tree type := by
  obtain ⟨key, isKey, isSymbol⟩ := Option.bind_eq_some_iff.mp found
  obtain ⟨decl, isDecl, rfl⟩ := Option.map_eq_some_iff.mp isSymbol
  by_cases generic : decl.typeParams = []
  · refine Or.inl (.mk (Or.inr (Or.inr ⟨decl, ?_, rfl, rfl, rfl⟩)) ?_)
    · have made := (regular.get isDecl).key
      rw [generic] at made
      change index.get? (typeKey decl.fullName 0) = some decl
      have keys : typeKey decl.fullName 0 = key := made.symm.trans (Index.key_of_get isDecl)
      rw [keys]
      exact isDecl
    · intro argument member
      cases member
  · refine Or.inr ⟨node, decl, inTree, isThis, ?_, generic, rfl⟩
    rw [isKey]
    exact isDecl

include regular plainTree sound in
theorem sound_type_step : Sound index tree (typeStep? index infer) := by
  intro node type inTree found
  have written : ∀ inner : Option Node, (∀ child, inner = some child → child.top = node.top) →
      inner.bind (writtenAt? index) = some type → Answers index tree type := by
    intro inner inside bound
    obtain ⟨child, isChild, bound⟩ := Option.bind_eq_some_iff.mp bound
    exact Or.inl
      (designated_of_written_at regular plainTree ((inside child isChild).trans inTree) bound)
  have inferred : ∀ inner : Option Node, (∀ child, inner = some child → child.top = node.top) →
      ∀ value, inner.bind infer = some value → Answers index tree value := by
    intro inner inside value bound
    obtain ⟨child, isChild, bound⟩ := Option.bind_eq_some_iff.mp bound
    exact sound child value ((inside child isChild).trans inTree) bound
  unfold typeStep? at found
  split at found
  · exact written _ (fun _ => Node.top_of_child_or_first) found
  · exact written _ (fun _ => Node.top_of_child_or_first) found
  · exact answers_of_target_type regular plainTree sound inTree found
  · obtain ⟨call, isCall, returned⟩ := Option.bind_eq_some_iff.mp found
    exact Or.inl (designated_of_resolve_call regular plainTree sound inTree isCall returned)
  · obtain ⟨value, isValue, result⟩ := Option.bind_eq_some_iff.mp found
    obtain ⟨-, only⟩ := Option.ite_none_right_eq_some.mp result
    exact Or.inl ((inferred _ (fun _ => Node.top_of_first_part) value isValue).only_argument only)
  · exact inferred _ (fun _ => Node.top_of_first_part) type found
  · exact written _ (fun _ => Node.top_of_child_or_last) found
  · split at found
    · exact inferred _ (fun _ => Node.top_of_child_or_first) type found
    · split at found
      · exact written _ (fun _ => Node.top_of_child_or_last) found
      · cases found
  · rcases Option.or_eq_some_iff.mp found with first | ⟨-, second⟩
    · exact inferred _ (fun _ => Node.top_of_child) type first
    · exact inferred _ (fun _ => Node.top_of_child) type second
  · split at found
    · exact inferred _ (fun _ => Node.top_of_first_part) type found
    · cases found
  · obtain ⟨binding, isBinding, typed⟩ := Option.bind_eq_some_iff.mp found
    exact answers_of_binding_type regular plainTree sound (within_of_lookup inTree isBinding) typed
  · exact Or.inl (designated_of_member_access_type regular plainTree sound inTree found)
  · obtain ⟨isThis, around⟩ := Option.ite_none_right_eq_some.mp found
    exact answers_of_enclosing_type_symbol regular inTree isThis around

include regular plainTree in
theorem sound_type_at (depth : Nat) : Sound index tree (typeAt? index depth) := by
  induction depth with
  | zero =>
      intro node type _ found
      cases found
  | succ depth ih => exact sound_type_step regular plainTree ih

end Step

theorem regular_index_of (settings : Settings) {documents : List Document}
    (plain : ∀ document ∈ documents, isPlainTree document.tree = true) :
    (indexOf (Catalog.ofSettings settings) documents).Regular := by
  apply Index.Regular.finalize
  refine List.foldlRecOn (motive := Index.Regular) _ _ (Catalog.regular_to_index settings) ?_
  intro index regular document member
  exact regular.add_document (plain document member)

theorem type_step_of_is_this (index : Index) (infer : Node → Option TypeSymbol) {node : Node}
    (isThis : node.kind.isThis = true) :
    typeStep? index infer node = enclosingTypeSymbol? index node := by
  unfold typeStep?
  cases kind : node.kind <;> simp_all [Source.Kind.isThis]

/-- Every type that inference gives designates its declaration, with all its arguments, save the
type of a `this` in a generic type, and what takes its type from such a `this`. There the
arguments are left out, and the key is that of the declaration only if it has no parameters. -/
theorem type_of_designates (settings : Settings) (documents : List Document)
    (plain : ∀ document ∈ documents, isPlainTree document.tree = true)
    (document : Document) (compiled : document ∈ documents) (node : Node)
    (inTree : node.top = document.tree) (type : TypeSymbol)
    (typed : typeOf? (indexOf (Catalog.ofSettings settings) documents) node = some type) :
    (Designated (indexOf (Catalog.ofSettings settings) documents) type ∨
      BareThis (indexOf (Catalog.ofSettings settings) documents) document.tree type) ∧
    (node.kind.isThis = true → ∃ decl,
      (scopeAt node).enclosingTypes.getLast?.bind
        (indexOf (Catalog.ofSettings settings) documents).get? = some decl ∧
      type = ⟨decl.fullName, [], decl.supertypes, decl.kind⟩ ∧
      (type.key = decl.key ↔ decl.typeParams = [])) := by
  have regular := regular_index_of settings plain
  refine ⟨sound_type_at regular (plain document compiled) maxDepth node type inTree typed, ?_⟩
  intro isThis
  have around := (type_step_of_is_this _ _ isThis).symm.trans typed
  obtain ⟨key, isKey, isSymbol⟩ := Option.bind_eq_some_iff.mp around
  obtain ⟨decl, isDecl, rfl⟩ := Option.map_eq_some_iff.mp isSymbol
  refine ⟨decl, by rw [isKey]; exact isDecl, rfl, ?_⟩
  rw [(regular.get isDecl).key]
  change typeKey decl.fullName 0 = typeKey decl.fullName decl.typeParams.length ↔ _
  constructor
  · intro same
    by_contra generic
    exact Types.type_key_ne_of_generic decl.fullName (by simpa using generic) same
  · intro plainType
    rw [plainType]
    rfl

/-- `class C<T> { object M() => true ? this : new C<T>(); }`: the two branches have types of
different keys, and the key of the first leads to no declaration. -/
def genericText : String :=
  "class C<T> \x7b object M() => true ? this : new C<T>(); \x7d"

def genericCreation : Outline :=
  .node .objectCreationExpression true (some .alternative) 41 51
    [token "new" 41,
      .node .genericName true (some .type) 45 49
        [letter none 45,
          .node (.other "type_argument_list") true none 46 49
            [token "<" 46, letter none 47, token ">" 48]],
      .node .argumentList true (some .arguments) 49 51 [token "(" 49, token ")" 50]]

def genericConditional : Outline :=
  .node .conditionalExpression true none 27 51
    [.node (.other "boolean_literal") true (some .condition) 27 31 [token "true" 27],
      token "?" 32, .node (.other "this") false (some .consequence) 34 38 [], token ":" 39,
      genericCreation]

def genericOutline : Outline :=
  unit 54
    [.node .classDeclaration true none 0 54
      [token "class" 0, letter (some .name) 6,
        .node .typeParameterList true none 7 10
          [token "<" 7, .node .typeParameter true none 8 9 [letter (some .name) 8], token ">" 9],
        body 11 54
          [.node .methodDeclaration true none 13 52
            [.node .predefinedType true (some .returns) 13 19 [], letter (some .name) 20,
              .node .parameterList true (some .parameters) 21 23 [token "(" 21, token ")" 22],
              .node .arrowExpressionClause true (some .body) 24 51
                [token "=>" 24, genericConditional],
              token ";" 51]]]]

def genericDocument : Document := .ofOutline "generic.cs" genericText genericOutline

def genericIndex : Index := indexOf (Catalog.ofSettings {}) [genericDocument]

def typedNode? (kind : Source.Kind) : Option (Node × TypeSymbol) :=
  (genericDocument.root.descendants.find? fun node => node.kind == kind).bind fun node =>
    (typeOf? genericIndex node).map (Prod.mk node)

theorem type_of_designates_generic :
    (∀ document ∈ [genericDocument], isPlainTree document.tree = true) ∧
    (∃ node type, node.kind = .conditionalExpression ∧ node.top = genericDocument.tree ∧
      typeOf? genericIndex node = some type ∧ ¬Designates genericIndex type ∧
      (Designated genericIndex type ∨ BareThis genericIndex genericDocument.tree type)) ∧
    ∃ node type, node.kind = .objectCreationExpression ∧ node.top = genericDocument.tree ∧
      typeOf? genericIndex node = some type ∧ type.typeArguments.map TypeSymbol.fullName = ["T"] ∧
      (genericIndex.get? type.key).isSome = true ∧
      (Designated genericIndex type ∨ BareThis genericIndex genericDocument.tree type) := by
  have plain : ∀ document ∈ [genericDocument], isPlainTree document.tree = true := by
    decide +kernel
  have reached : ∀ kind node type, typedNode? kind = some (node, type) →
      node.kind = kind ∧ node.top = genericDocument.tree ∧
        typeOf? genericIndex node = some type := by
    intro kind node type found
    obtain ⟨first, isFirst, found⟩ := Option.bind_eq_some_iff.mp found
    obtain ⟨value, typed, same⟩ := Option.map_eq_some_iff.mp found
    cases same
    exact ⟨eq_of_beq (List.find?_some isFirst :),
      Node.top_of_mem_descendants (List.mem_of_find?_eq_some isFirst), typed⟩
  have bare : (typedNode? .conditionalExpression).map (fun found =>
      (found.2.fullName, found.2.kind, (genericIndex.get? found.2.key).isNone)) =
        some ("C", .classType, true) := by
    decide +kernel
  have whole : (typedNode? .objectCreationExpression).map (fun found =>
      (found.2.typeArguments.map TypeSymbol.fullName, (genericIndex.get? found.2.key).isSome)) =
        some (["T"], true) := by
    decide +kernel
  obtain ⟨⟨conditional, bareType⟩, isConditional, bareParts⟩ := Option.map_eq_some_iff.mp bare
  obtain ⟨⟨creation, wholeType⟩, isCreation, wholeParts⟩ := Option.map_eq_some_iff.mp whole
  obtain ⟨kind, inTree, typed⟩ := reached _ _ _ isConditional
  obtain ⟨otherKind, otherInTree, otherTyped⟩ := reached _ _ _ isCreation
  obtain ⟨fullName, rest⟩ := Prod.mk.inj bareParts
  obtain ⟨isClass, noEntry⟩ := Prod.mk.inj rest
  obtain ⟨arguments, entry⟩ := Prod.mk.inj wholeParts
  have undesignated : ¬Designates genericIndex bareType := by
    rintro (undeclared | isArray | ⟨decl, isDecl, -⟩)
    · cases isClass.symm.trans undeclared
    · have arrayName : TypeSymbol.array.fullName = "C" := isArray ▸ fullName
      exact absurd arrayName (by decide)
    · dsimp only at noEntry
      rw [isDecl] at noEntry
      cases noEntry
  refine ⟨plain, ⟨conditional, bareType, kind, inTree, typed, undesignated, ?_⟩,
    ⟨creation, wholeType, otherKind, otherInTree, otherTyped, arguments, entry, ?_⟩⟩
  · exact (type_of_designates {} [genericDocument] plain genericDocument List.mem_cons_self
      conditional inTree bareType typed).1
  · exact (type_of_designates {} [genericDocument] plain genericDocument List.mem_cons_self
      creation otherInTree wholeType otherTyped).1

end ReleaseAudit.Inference
