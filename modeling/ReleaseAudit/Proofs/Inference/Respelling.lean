import ReleaseAudit.Inference.Model
import ReleaseAudit.Proofs.Declarations.BodyEdit
import ReleaseAudit.Proofs.Source.TwinAnswers

/-!
# Inference about the two spellings of a getter

The spelling of a getter enters nothing into the table of declarations and
changes no scope, so twins refer to the same things and have the same types.
There is one exception. A `new()` that the getter hands on takes its type from
what the getter returns: in the long form that is the type of the member, and
in the short form it is asked of the accessor, which has none.
-/

namespace ReleaseAudit.Source.Respelling

set_option autoImplicit false

open Node (EditedIn Editing rel_cases)

variable {before after : Tree} {spelling : Respelling before after} {left right : Node}

theorem Twin.place_ne_hole_of_parent {parent : Node} (twins : spelling.Twin left right)
    (isParent : left.parent? = some parent) (notList : parent.kind ≠ .accessorList) :
    left.place ≠ spelling.hole := by
  intro isGetter
  obtain ⟨list, otherList, owner, otherOwner, inMember⟩ := twins.in_member isGetter
  cases isParent.symm.trans inMember.isList
  exact notList inMember.listKind

/-- Twins below a parent of kind `owner`; the getter stands in a list of accessors. -/
def TwinIn (spelling : Respelling before after) (owner : Kind) (left right : Node) : Prop :=
  spelling.Twin left right ∧ (left.place = spelling.hole → owner = .accessorList)

theorem editing_twin_in : Editing spelling.TwinIn where
  sameRole pair := pair.1.same_role
  kept pair heading := pair.1.kept_of_is_heading heading
  children := by
    intro owner left right pair unswapped
    obtain ⟨twins, inList⟩ := pair
    have notGetter : left.place ≠ spelling.hole := by
      intro isGetter
      obtain ⟨_, _, _, _, _, _, _, _, getters⟩ := twins.getters isGetter
      rw [inList isGetter, getters.between.getter_kind] at unswapped
      cases unswapped
    have paired := twins.children notGetter
    apply List.forall₂_iff_get.mpr
    refine ⟨paired.length_eq, ?_⟩
    intro index inside otherInside
    have children := paired.get inside otherInside
    refine ⟨children, ?_⟩
    intro isGetter
    obtain ⟨list, otherList, outer, otherOuter, inMember⟩ := children.in_member isGetter
    have isParent := Node.parent_of_mem_children (List.getElem_mem inside)
    cases inMember.isList.symm.trans isParent
    exact inMember.listKind

theorem Twin.edited_children (twins : spelling.Twin left right)
    (notGetter : left.place ≠ spelling.hole) :
    List.Forall₂ (EditedIn left.kind) left.children right.children := by
  have edited : EditedIn .compilationUnit left right :=
    ⟨spelling.TwinIn, editing_twin_in, twins, fun isGetter => absurd isGetter notGetter⟩
  exact edited.children rfl

theorem Twin.declared_type (twins : spelling.Twin left right) :
    Option.Rel spelling.Whole left.declaredType? right.declaredType? := by
  by_cases isGetter : left.place = spelling.hole
  · obtain ⟨_, _, _, _, _, _, _, _, getters⟩ := twins.getters isGetter
    rw [getters.declared_type_eq.1, getters.declared_type_eq.2]
    exact .none
  · unfold Node.declaredType?
    have written : Option.Rel spelling.Whole ((left.child? .type).or (left.child? .returns))
        ((right.child? .type).or (right.child? .returns)) :=
      Node.rel_or (twins.child_of_is_heading isGetter rfl) (twins.child_of_is_heading isGetter rfl)
    apply Node.rel_or written
    rw [← twins.kind_eq]
    split
    · next isDeclaration =>
        exact copying.first_part (twins.whole (by rw [eq_of_beq isDeclaration]; rfl))
    · exact .none

end ReleaseAudit.Source.Respelling

namespace ReleaseAudit.Inference

set_option autoImplicit false

open Declarations (Index parameterList? typeParameters)
open Source (Document Kind Node Respelling Tree)
open Source.Node (rel_cases)
open Source.Respelling (Lined Twin Whole copying)
open ReleaseAudit.Types (TypeRef TypeSymbol)

variable {before after : Tree} {spelling : Respelling before after} {left right : Node}

theorem add_namespace_name_eq_of_twin (twins : spelling.Twin left right)
    (notGetter : left.place ≠ spelling.hole) (trail : Trail) :
    trail.addNamespaceName left = trail.addNamespaceName right := by
  unfold Trail.addNamespaceName
  rw [Declarations.declaration_name_text_eq (twins.edited_children notGetter)]

theorem add_usings_eq_of_twin (twins : spelling.Twin left right)
    (notGetter : left.place ≠ spelling.hole) (trail : Trail) :
    trail.addUsings left = trail.addUsings right := by
  unfold Trail.addUsings
  rw [Declarations.add_from_eq_of_edited trail.usings (twins.edited_children notGetter)]

theorem add_type_eq_of_twin (twins : spelling.Twin left right)
    (notGetter : left.place ≠ spelling.hole) (trail : Trail) :
    trail.addType left = trail.addType right := by
  have params := Declarations.type_parameters_eq (twins.edited_children notGetter)
  unfold Trail.addType
  rcases rel_cases (twins.declaration_name notGetter) with
    ⟨absent, absent'⟩ | ⟨name, otherName, found, found', names⟩
  · rw [absent, absent']
  · rw [found, found', params]
    simp only [copying.text_eq names]

theorem foldl_file_scoped_eq {items others : List Node}
    (paired : List.Forall₂ spelling.Twin items others)
    (kinds : ∀ child ∈ items, child.kind = .fileScopedNamespaceDeclaration) (trail : Trail) :
    items.foldl (fun trail child => (trail.addNamespaceName child).addUsings child) trail =
      others.foldl (fun trail child => (trail.addNamespaceName child).addUsings child) trail := by
  induction paired generalizing trail with
  | nil => rfl
  | @cons child other items others pair _ ih =>
      have notGetter := pair.place_ne_hole (by rw [kinds child List.mem_cons_self]; decide)
      rw [List.foldl_cons, List.foldl_cons, add_namespace_name_eq_of_twin pair notGetter,
        add_usings_eq_of_twin pair notGetter]
      exact ih (fun child member => kinds child (List.mem_cons_of_mem _ member)) _

theorem pass_eq_of_twin (twins : spelling.Twin left right) (trail : Trail) :
    trail.pass left = trail.pass right := by
  by_cases accessor : left.kind = .accessorDeclaration
  · unfold Trail.pass
    rw [← twins.kind_eq, accessor]
    rfl
  · have notGetter := twins.place_ne_hole accessor
    unfold Trail.pass
    rw [← twins.kind_eq]
    split
    · next isNamespace =>
        dsimp only
        rw [add_namespace_name_eq_of_twin twins notGetter]
        rcases rel_cases (twins.body notGetter) with
          ⟨absent, absent'⟩ | ⟨body, otherBody, found, found', bodies⟩
        · rw [absent, absent']
        · rw [found, found']
          have isParent := Node.parent_of_body found
          exact add_usings_eq_of_twin bodies
            (bodies.place_ne_hole_of_parent isParent (by rw [isNamespace]; decide)) _
    · rw [add_usings_eq_of_twin twins notGetter]
      apply foldl_file_scoped_eq (twins.parts_of notGetter .fileScopedNamespaceDeclaration)
      intro child member
      exact eq_of_beq (List.mem_filter.mp member).2
    · rw [Declarations.type_parameters_eq (twins.edited_children notGetter)]
    · rw [Declarations.type_parameters_eq (twins.edited_children notGetter)]
    · split
      · exact add_type_eq_of_twin twins notGetter trail
      · rfl

theorem foldl_pass_eq {nodes others : List Node} (lined : spelling.Lined nodes others)
    (trail : Trail) : nodes.foldl Trail.pass trail = others.foldl Trail.pass trail := by
  induction lined generalizing trail with
  | nil => rfl
  | cons pair _ ih =>
      rw [List.foldl_cons, List.foldl_cons, pass_eq_of_twin pair]
      exact ih _
  | short isArrow _ ih =>
      rw [List.foldl_cons, Trail.pass, isArrow]
      exact ih trail
  | long wraps _ ih =>
      rcases wraps.kind_cases with kind | kind
      · rw [List.foldl_cons, Trail.pass, kind]
        exact ih trail
      · rw [List.foldl_cons, Trail.pass, kind]
        exact ih trail

theorem scope_at_eq_of_twin (twins : spelling.Twin left right) : scopeAt left = scopeAt right := by
  unfold scopeAt
  rw [foldl_pass_eq twins.ancestors]

theorem index_of_eq_of_respelling (catalog : Declarations.Catalog) (front back : List Document)
    {original changed : Document} (spelling : Respelling original.tree changed.tree) :
    indexOf catalog (front ++ original :: back) = indexOf catalog (front ++ changed :: back) := by
  have edited : Node.EditedIn .compilationUnit original.root changed.root := by
    refine ⟨spelling.TwinIn, Respelling.editing_twin_in, Respelling.twin_roots spelling, ?_⟩
    intro isGetter
    have deep := spelling.inMember
    rw [← isGetter] at deep
    simp [Document.root, Node.root, Node.place, Node.path] at deep
  unfold indexOf
  rw [List.foldl_append, List.foldl_append, List.foldl_cons, List.foldl_cons,
    Declarations.add_document_eq_of_edited _ edited]

section Written

variable (index : Index)

theorem written_at_eq_of_whole (whole : spelling.Whole left right) :
    writtenAt? index left = writtenAt? index right := by
  unfold writtenAt?
  rw [copying.text_eq whole, scope_at_eq_of_twin whole.1]

theorem named_type_eq_of_whole (whole : spelling.Whole left right) :
    namedType? index left = namedType? index right := by
  unfold namedType?
  rw [copying.kind_eq whole, written_at_eq_of_whole index whole]

theorem declared_at_eq_of_twin (twins : spelling.Twin left right) :
    declaredAt? index left = declaredAt? index right :=
  Node.bind_eq_of_rel twins.declared_type (written_at_eq_of_whole index)

theorem enclosing_type_symbol_eq_of_twin (twins : spelling.Twin left right) :
    enclosingTypeSymbol? index left = enclosingTypeSymbol? index right := by
  unfold enclosingTypeSymbol?
  rw [scope_at_eq_of_twin twins]

end Written

inductive SameBinding (spelling : Respelling before after) : (left right : Binding) → Prop
  | localVariable {declarator other : Node} (kind : declarator.kind = .variableDeclarator)
      (declarators : spelling.Twin declarator other) :
      SameBinding spelling (.localVariable declarator) (.localVariable other)
  | parameter {declaration other : Node} (declarations : spelling.Whole declaration other) :
      SameBinding spelling (.parameter declaration) (.parameter other)
  | untyped : SameBinding spelling .untyped .untyped
  | iteration {statement other : Node} (kind : statement.kind = .foreachStatement)
      (statements : spelling.Twin statement other) :
      SameBinding spelling (.iteration statement) (.iteration other)
  | member (decl : Declarations.TypeDecl) (member : Declarations.MemberDecl) :
      SameBinding spelling (.member decl member) (.member decl member)

theorem rel_named_parameter {list otherList : Node} (lists : spelling.Whole list otherList)
    (name : String) :
    Option.Rel spelling.Whole (namedParameter? list name) (namedParameter? otherList name) := by
  unfold namedParameter?
  apply Node.rel_find _ (Node.forall₂_parts_of copying.sameRole lists.children .parameter)
  intro parameter other parameters
  exact copying.declares_eq parameters name

theorem rel_find_parameter (scopes : spelling.Twin left right)
    (notGetter : left.place ≠ spelling.hole) (name : String) :
    Option.Rel (SameBinding spelling) (findParameter? left name) (findParameter? right name) := by
  have lists : Option.Rel spelling.Whole (parameterList? left) (parameterList? right) :=
    Node.rel_or (scopes.child_of_is_heading notGetter rfl)
      (scopes.part_of_of_is_heading notGetter rfl)
  unfold findParameter?
  rcases rel_cases lists with ⟨absent, absent'⟩ | ⟨list, otherList, found, found', whole⟩
  · rw [absent, absent']
    exact .none
  · have untyped : Option.Rel (SameBinding spelling)
        (if list.text == name then some .untyped else none)
        (if otherList.text == name then some .untyped else none) := by
      rw [copying.text_eq whole]
      split
      · exact .some .untyped
      · exact .none
    rw [found, found']
    dsimp only
    rw [← copying.kind_eq whole]
    split
    · apply Node.rel_map (rel_named_parameter whole name)
      intro parameter other parameters
      rw [Node.is_some_eq_of_rel (copying.declared_type parameters)]
      split
      · exact .parameter parameters
      · exact .untyped
    · exact untyped
    · exact untyped
    · exact .none

theorem declares_before_eq {scope otherScope site otherSite declarator other : Node}
    (scopes : spelling.Twin scope otherScope) (sites : spelling.Twin site otherSite)
    (declarators : spelling.Twin declarator other) (kind : declarator.kind = .variableDeclarator)
    (name : String) :
    declaresBefore scope site name declarator = declaresBefore otherScope otherSite name other := by
  have whole := declarators.whole (by rw [kind]; rfl)
  have starts : decide (declarator.start < site.start) = decide (other.start < otherSite.start) :=
    decide_eq_decide.mpr (declarators.start.lt_iff sites.start)
  have inScope := Node.any_eq_of_rel declarators.enclosing_scope scopes.same_eq
  have holders : ((declarator.parent?.bind Node.parent?).any fun holder =>
      holder.kind.isFieldDeclaration) =
        (other.parent?.bind Node.parent?).any fun holder => holder.kind.isFieldDeclaration := by
    rcases rel_cases (declarators.parent (by rw [kind]; rfl)) with
      ⟨absent, absent'⟩ | ⟨declaration, otherDeclaration, found, found', declarations⟩
    · rw [absent, absent']
    · rw [found, found', Option.bind_some, Option.bind_some]
      exact declarations.any_parent Kind.isFieldDeclaration rfl rfl
  unfold declaresBefore
  rw [starts, copying.declares_eq whole, inScope, holders]

theorem rel_find_local {scope otherScope site otherSite : Node}
    (scopes : spelling.Twin scope otherScope) (sites : spelling.Twin site otherSite)
    (name : String) :
    Option.Rel (fun declarator other =>
        declarator.kind = .variableDeclarator ∧ spelling.Twin declarator other)
      (findLocal? scope site name) (findLocal? otherScope otherSite name) := by
  have paired : List.Forall₂ (fun declarator other =>
      declarator.kind = .variableDeclarator ∧ spelling.Twin declarator other)
        (scope.descendantsOf .variableDeclarator)
        (otherScope.descendantsOf .variableDeclarator) := by
    apply (List.forall₂_and_left _ _).mpr
    refine ⟨?_, scopes.descendants_of .variableDeclarator (by decide) (by decide) (by decide)⟩
    intro declarator member
    exact eq_of_beq (List.mem_filter.mp member).2
  unfold findLocal?
  apply Node.rel_get_last
  apply List.rel_filter _ paired
  intro declarator other pair
  simp only [declares_before_eq scopes sites pair.2 pair.1]

theorem iterates_eq {statement other site otherSite : Node}
    (statements : spelling.Twin statement other) (sites : spelling.Twin site otherSite)
    (name : String) : iterates statement site name = iterates other otherSite name := by
  unfold iterates
  rw [← statements.kind_eq]
  by_cases kind : statement.kind = .foreachStatement
  · have whole := statements.whole (by rw [kind]; rfl)
    have names : ((statement.child? .left).any fun left =>
        left.kind == .identifier && left.text == name) =
          (other.child? .left).any fun left => left.kind == .identifier && left.text == name := by
      apply Node.any_eq_of_rel (copying.child whole .left)
      intro left right pair
      rw [copying.kind_eq pair, copying.text_eq pair]
    have bodies : ((statement.child? .body).any fun body => decide (body.start ≤ site.start)) =
        (other.child? .body).any fun body => decide (body.start ≤ otherSite.start) := by
      apply Node.any_eq_of_rel (copying.child whole .body)
      intro body otherBody pair
      exact decide_eq_decide.mpr (pair.1.start.le_iff sites.start)
    rw [names, bodies]
  · simp only [beq_false_of_ne kind, Bool.false_and]

theorem rel_binding_in {ancestor other site otherSite : Node}
    (ancestors : spelling.Twin ancestor other) (sites : spelling.Twin site otherSite)
    (name : String) :
    Option.Rel (SameBinding spelling) (bindingIn? site name ancestor)
      (bindingIn? otherSite name other) := by
  unfold bindingIn?
  rw [← iterates_eq ancestors sites, ← ancestors.kind_eq]
  split
  · next isIteration =>
      unfold iterates at isIteration
      rw [Bool.and_eq_true, Bool.and_eq_true, beq_iff_eq] at isIteration
      exact .some (.iteration isIteration.1.1 ancestors)
  · split
    · next isScope =>
        have notGetter : ancestor.place ≠ spelling.hole := by
          apply ancestors.place_ne_hole
          intro accessor
          rw [accessor] at isScope
          cases isScope
        apply Node.rel_or (rel_find_parameter ancestors notGetter name)
        apply Node.rel_map (rel_find_local ancestors sites name)
        intro declarator otherDeclarator pair
        exact .localVariable pair.1 pair.2
    · exact .none

theorem binding_in_eq_none {site node : Node} (name : String)
    (notForeach : node.kind ≠ .foreachStatement) (notScope : node.kind.isScope = false)
    (notUnit : node.kind ≠ .compilationUnit) : bindingIn? site name node = none := by
  simp [bindingIn?, iterates, beq_false_of_ne notForeach, notScope, beq_false_of_ne notUnit]

theorem rel_local_among {nodes others : List Node} {site otherSite : Node}
    (lined : spelling.Lined nodes others) (sites : spelling.Twin site otherSite) (name : String) :
    Option.Rel (SameBinding spelling) (localAmong? site name nodes)
      (localAmong? otherSite name others) := by
  -- nodes around the value declare nothing and do not end the search
  have skip : ∀ {place node : Node} {enclosing : List Node},
      (node.kind = .arrowExpressionClause ∨ node.kind = .block ∨ node.kind = .returnStatement) →
        localAmong? place name (node :: enclosing) = localAmong? place name enclosing := by
    intro place node enclosing kinds
    have silent : bindingIn? place name node = none := by
      rcases kinds with kind | kind | kind
      all_goals exact binding_in_eq_none name (by simp [kind]) (by rw [kind]; rfl) (by simp [kind])
    have inner : node.kind.isTypeDeclaration = false := by
      rcases kinds with kind | kind | kind
      all_goals
        rw [kind]
        rfl
    rw [localAmong?, silent]
    simp [inner]
  induction lined with
  | nil => exact .none
  | cons pair _ ih =>
      rw [localAmong?, localAmong?, ← pair.kind_eq]
      rcases rel_cases (rel_binding_in pair sites name) with
        ⟨absent, absent'⟩ | ⟨binding, other, found, found', bindings⟩
      · rw [absent, absent']
        dsimp only
        split
        · exact .none
        · exact ih
      · rw [found, found']
        exact .some bindings
  | short isArrow _ ih =>
      rw [skip (Or.inl isArrow)]
      exact ih
  | long wraps _ ih =>
      rw [skip (Or.inr wraps.kind_cases)]
      exact ih

theorem rel_enclosing_member (index : Index) (sites : spelling.Twin left right) (name : String) :
    Option.Rel (SameBinding spelling) (enclosingMember? index left name)
      (enclosingMember? index right name) := by
  have same : enclosingMember? index left name = enclosingMember? index right name := by
    unfold enclosingMember?
    rw [scope_at_eq_of_twin sites]
  rw [same]
  cases found : enclosingMember? index right name with
  | none => exact .none
  | some binding =>
      obtain ⟨key, -, isMember⟩ := List.exists_of_findSome?_eq_some found
      obtain ⟨member, -, rfl⟩ := Option.map_eq_some_iff.mp isMember
      exact .some (.member member.1 member.2)

theorem rel_lookup (index : Index) (sites : spelling.Twin left right) (name : String) :
    Option.Rel (SameBinding spelling) (lookup? index left name) (lookup? index right name) :=
  Node.rel_or (rel_local_among sites.ancestors sites name) (rel_enclosing_member index sites name)

/-- The value of the node is the value of the getter. -/
def Handed (spelling : Respelling before after) (node : Node) : Prop :=
  spelling.IsValue node.valueRoot

/-- Only wrappers and the clause of the short form stand around values that are handed on. -/
theorem not_handed_of_parent {parent : Node} (twins : spelling.Twin left right)
    (isParent : left.parent? = some parent) (notArrow : parent.kind ≠ .arrowExpressionClause)
    (unhanded : Node.isWrapper parent.kind = true → ¬Handed spelling parent) :
    ¬Handed spelling left := by
  intro handed
  unfold Handed at handed
  cases passes : Node.passesValue parent left with
  | true =>
      rw [Node.value_root_of_passes isParent passes] at handed
      exact unhanded (Node.is_wrapper_of_passes passes) handed
  | false =>
      rw [Node.value_root_of_not_passes isParent passes] at handed
      obtain ⟨arrow, _, _, _, _, between⟩ := twins.between handed
      cases isParent.symm.trans between.isArrow
      exact notArrow between.arrow_kind

/-- Expressions whose type is not that of what they hand on or of where they are handed. -/
def typesItself : Kind → Bool
  | .parenthesizedExpression | .conditionalExpression | .binaryExpression
  | .postfixUnaryExpression | .implicitObjectCreationExpression => false
  | _ => true

theorem parent_of_declarator_value {declarator initial : Node}
    (found : declarator.declaratorValue? = some initial) :
    ∃ parent, initial.parent? = some parent ∧
      (parent = declarator ∨ parent.kind = .equalsValueClause) := by
  unfold Node.declaratorValue? at found
  split at found
  · next sign afterSign isSplit =>
      have inRest : initial ∈ sign :: afterSign :=
        List.mem_cons_of_mem _ (List.mem_of_find?_eq_some found)
      rw [← isSplit] at inRest
      have inChildren := (List.dropWhile_sublist _).subset inRest
      exact ⟨declarator, Node.parent_of_mem_children inChildren, Or.inl rfl⟩
  · obtain ⟨clause, isClause, isOperand⟩ := Option.bind_eq_some_iff.mp found
    refine ⟨clause, Node.parent_of_mem_children (Node.mem_children_of_first_part isOperand), ?_⟩
    exact Or.inr (eq_of_beq (List.find?_some isClause :))

theorem access_of_receiver {invocation receiver : Node} {target : Source.CallTarget}
    (found : invocation.callTarget? = some target) (isReceiver : target.receiver = some receiver) :
    ∃ access, receiver.parent? = some access ∧
      (access.kind = .memberAccessExpression ∨ access.kind = .conditionalAccessExpression) := by
  obtain ⟨function, -, ⟨kind, through⟩ | ⟨kind, through⟩ | ⟨-, through⟩ | ⟨-, through⟩⟩ :=
    Node.call_target_cases found
  · rw [through] at isReceiver
    exact ⟨function, Node.parent_of_mem_children (Node.mem_children_of_child isReceiver),
      Or.inl kind⟩
  · rw [through] at isReceiver
    exact ⟨function, Node.parent_of_mem_children (Node.mem_children_of_first_part isReceiver),
      Or.inr kind⟩
  · rw [through] at isReceiver
    obtain ⟨access, isAccess, isFirst⟩ := Option.bind_eq_some_iff.mp isReceiver
    exact ⟨access, Node.parent_of_mem_children (Node.mem_children_of_first_part isFirst),
      Or.inr (Node.parent_of_eq_some_iff.mp isAccess).2⟩
  · rw [through] at isReceiver
    cases isReceiver

theorem forall₂_scopes_among {nodes others : List Node} (lined : spelling.Lined nodes others) :
    List.Forall₂ spelling.Twin
      ((nodes.takeWhile fun ancestor => !ancestor.kind.isTypeDeclaration).filter fun ancestor =>
        ancestor.kind.isScope || ancestor.kind == .compilationUnit)
      ((others.takeWhile fun ancestor => !ancestor.kind.isTypeDeclaration).filter fun ancestor =>
        ancestor.kind.isScope || ancestor.kind == .compilationUnit) := by
  induction lined with
  | nil => exact .nil
  | cons pair _ ih =>
      rw [List.takeWhile_cons, List.takeWhile_cons, ← pair.kind_eq]
      split
      · rw [List.filter_cons, List.filter_cons, ← pair.kind_eq]
        split
        · exact .cons pair ih
        · exact ih
      · exact .nil
  | short isArrow _ ih =>
      rw [List.takeWhile_cons_of_pos (by rw [isArrow]; rfl),
        List.filter_cons_of_neg (by rw [isArrow]; nofun)]
      exact ih
  | long wraps _ ih =>
      rcases wraps.kind_cases with kind | kind
      · rw [List.takeWhile_cons_of_pos (by rw [kind]; rfl),
          List.filter_cons_of_neg (by rw [kind]; nofun)]
        exact ih
      · rw [List.takeWhile_cons_of_pos (by rw [kind]; rfl),
          List.filter_cons_of_neg (by rw [kind]; nofun)]
        exact ih

theorem rel_local_function (twins : spelling.Twin left right) (name : String) :
    Option.Rel spelling.Whole (localFunction? left name) (localFunction? right name) := by
  unfold localFunction? outermostScope?
  apply Node.rel_bind (Node.rel_get_last (forall₂_scopes_among twins.ancestors))
  intro scope otherScope scopes
  have paired : List.Forall₂ spelling.Whole (scope.descendantsOf .localFunctionStatement)
      (otherScope.descendantsOf .localFunctionStatement) := by
    have kinds : ∀ function ∈ scope.descendantsOf .localFunctionStatement,
        function.kind = .localFunctionStatement := fun function member =>
      eq_of_beq (List.mem_filter.mp member).2
    have functions :=
      scopes.descendants_of .localFunctionStatement (by decide) (by decide) (by decide)
    apply ((List.forall₂_and_left _ _).mpr ⟨kinds, functions⟩).imp
    rintro function other ⟨kind, pair⟩
    exact pair.whole (by rw [kind]; rfl)
  apply Node.rel_find _ paired
  intro function other functions
  exact copying.declares_eq functions name

theorem local_function_call_eq_of_twin (index : Index) (twins : spelling.Twin left right)
    (name : String) (typeArguments : List TypeSymbol) :
    localFunctionCall? index left name typeArguments =
      localFunctionCall? index right name typeArguments := by
  unfold localFunctionCall?
  apply Node.map_eq_of_rel (rel_local_function twins name)
  intro function other functions
  have paired := functions.1.edited_children functions.place_ne_hole
  have written : Declarations.writtenType? function.declaredType? =
      Declarations.writtenType? other.declaredType? := by
    apply Declarations.written_type_eq
    apply Node.rel_imp functions.1.declared_type
    intro type otherType types
    exact types.2.1
  dsimp only
  rw [Declarations.type_parameters_eq paired, scope_at_eq_of_twin functions.1,
    Declarations.parameters_eq paired, written]

theorem call_on_eq_of_whole (index : Index) {infer : Node → Option TypeSymbol}
    (receivers : spelling.Whole left right) (types : infer left = infer right) (name : String)
    (count : Nat) (typeArguments : List TypeSymbol) :
    callOn? index infer left name count typeArguments =
      callOn? index infer right name count typeArguments := by
  unfold callOn?
  rw [types, named_type_eq_of_whole index receivers]

section Step

variable (index : Index) {infer : Node → Option TypeSymbol}
  (agree : ∀ {node other : Node}, spelling.Twin node other → ¬Handed spelling node →
    infer node = infer other)

include agree

/-- Types of children of a node that is no wrapper, or that is not handed on itself. -/
theorem bind_infer_eq {answer other : Option Node} {parent : Node}
    (rel : Option.Rel spelling.Whole answer other)
    (below : ∀ child, answer = some child → child.parent? = some parent)
    (notArrow : parent.kind ≠ .arrowExpressionClause)
    (unhanded : Node.isWrapper parent.kind = true → ¬Handed spelling parent) :
    answer.bind infer = other.bind infer := by
  cases rel with
  | none => rfl
  | @some child otherChild children =>
      have isParent := below child rfl
      exact agree children.1 (not_handed_of_parent children.1 isParent notArrow unhanded)

theorem bind_infer_child_eq (whole : spelling.Whole left right)
    (notArrow : left.kind ≠ .arrowExpressionClause)
    (unhanded : Node.isWrapper left.kind = true → ¬Handed spelling left) (field : Source.Field) :
    (left.child? field).bind infer = (right.child? field).bind infer := by
  apply bind_infer_eq agree (copying.child whole field) _ notArrow unhanded
  intro child found
  exact Node.parent_of_mem_children (Node.mem_children_of_child found)

theorem bind_infer_operand_eq (whole : spelling.Whole left right)
    (notArrow : left.kind ≠ .arrowExpressionClause)
    (unhanded : Node.isWrapper left.kind = true → ¬Handed spelling left) :
    left.operand?.bind infer = right.operand?.bind infer := by
  apply bind_infer_eq agree (copying.first_part whole) _ notArrow unhanded
  intro child found
  exact Node.parent_of_mem_children (Node.mem_children_of_first_part found)

theorem local_type_eq_of_twin {declarator other site otherSite : Node}
    (declarators : spelling.Twin declarator other) (kind : declarator.kind = .variableDeclarator)
    (sites : spelling.Twin site otherSite) :
    localType? index infer declarator site = localType? index infer other otherSite := by
  have whole := declarators.whole (by rw [kind]; rfl)
  unfold localType?
  apply Node.bind_eq_of_rel (declarators.parent (by rw [kind]; rfl))
  intro declaration otherDeclaration declarations
  apply Node.bind_eq_of_rel declarations.declared_type
  intro typeNode otherType types
  rw [copying.text_eq types, written_at_eq_of_whole index types]
  congr 1
  funext written
  split
  · rcases rel_cases (copying.declarator_value whole) with
      ⟨absent, absent'⟩ | ⟨initial, otherInitial, found, found', initials⟩
    · simp only [absent, absent', Option.bind_eq_bind, Option.bind_none]
    · have inside : (decide (initial.start ≤ site.start) && decide (site.start < initial.stop)) =
          (decide (otherInitial.start ≤ otherSite.start) &&
            decide (otherSite.start < otherInitial.stop)) := by
        rw [decide_eq_decide.mpr (initials.1.start.le_iff sites.start),
          decide_eq_decide.mpr (sites.start.lt_iff initials.1.stop)]
      have types : infer initial = infer otherInitial := by
        obtain ⟨parent, isParent, stands⟩ := parent_of_declarator_value found
        have parentKind : parent.kind = .variableDeclarator ∨ parent.kind = .equalsValueClause := by
          rcases stands with rfl | isClause
          · exact Or.inl kind
          · exact Or.inr isClause
        apply agree initials.1
        apply not_handed_of_parent initials.1 isParent
        · rcases parentKind with isKind | isKind <;> simp [isKind]
        · rcases parentKind with isKind | isKind <;> simp [isKind, Node.isWrapper]
      rw [found, found']
      dsimp only [Option.bind_eq_bind, Option.bind_some]
      rw [inside, types]
  · rfl

theorem iteration_type_eq_of_twin {statement other : Node}
    (statements : spelling.Twin statement other) (kind : statement.kind = .foreachStatement) :
    iterationType? index infer statement = iterationType? index infer other := by
  have whole := statements.whole (by rw [kind]; rfl)
  have written := Node.bind_eq_of_rel (copying.child whole .type) (written_at_eq_of_whole index)
  have collections : (statement.child? .right).bind infer = (other.child? .right).bind infer := by
    apply bind_infer_child_eq agree whole
    · simp [kind]
    · simp [kind, Node.isWrapper]
  unfold iterationType?
  rw [written, collections]

theorem binding_type_eq_of_same {binding other : Binding}
    (same : SameBinding spelling binding other) (sites : spelling.Twin left right) :
    bindingType? index infer binding left = bindingType? index infer other right := by
  cases same with
  | localVariable kind declarators => exact local_type_eq_of_twin index agree declarators kind sites
  | parameter declarations => exact declared_at_eq_of_twin index declarations.1
  | untyped => rfl
  | iteration kind statements => exact iteration_type_eq_of_twin index agree statements kind
  | member => rfl

/-- Away from the value of the getter, a `new()` takes the same type from what is around it. -/
theorem target_type_eq_of_twin (twins : spelling.Twin left right)
    (unhanded : ¬Handed spelling left) :
    targetType? index infer left = targetType? index infer right := by
  have roots := twins.value_root
  unfold targetType?
  dsimp only
  rcases rel_cases roots.declarator_of with
    ⟨absent, absent'⟩ | ⟨declarator, other, found, found', declarators⟩
  · rw [absent, absent']
    rcases roots.parents with ⟨atTop, otherAtTop⟩ |
      ⟨parent, otherParent, isParent, isOther, parents⟩ |
      ⟨arrow, getter, statement, block, otherGetter, between⟩
    · simp only [atTop, otherAtTop, Option.bind_eq_bind, Option.bind_none]
    · rw [isParent, isOther]
      dsimp only [Option.bind_eq_bind, Option.bind_some]
      rw [← parents.kind_eq]
      split
      · next kind =>
          have whole := parents.whole (by rw [kind]; rfl)
          have assigned : (parent.child? .left).bind infer =
              (otherParent.child? .left).bind infer := by
            apply bind_infer_child_eq agree whole
            · simp [kind]
            · simp [kind, Node.isWrapper]
          rw [assigned]
          apply Node.bind_eq_of_rel (Node.rel_filter (copying.child whole .right)
            fun inner => roots.same_eq inner.1)
          intro _ _ _
          rfl
      · apply Node.bind_eq_of_rel parents.enclosing_scope
        intro scope otherScope scopes
        rw [scopes.kind_eq, declared_at_eq_of_twin index scopes]
      · next kind =>
          apply Node.bind_eq_of_rel (parents.parent (by rw [kind]; rfl))
          exact declared_at_eq_of_twin index
      · next kind =>
          apply Node.bind_eq_of_rel (parents.parent (by rw [kind]; rfl))
          exact declared_at_eq_of_twin index
      · exact declared_at_eq_of_twin index parents
      · rfl
    · exact absurd between.place unhanded
  · rw [found, found']
    exact declared_at_eq_of_twin index declarators.declarations.1

theorem accessed_member_eq_of_twin (twins : spelling.Twin left right)
    (kind : left.kind = .memberAccessExpression) :
    accessedMember? index infer left = accessedMember? index infer right := by
  have whole := twins.whole (by rw [kind]; rfl)
  have owners : (left.child? .expression).bind (receiverType? index infer) =
      (right.child? .expression).bind (receiverType? index infer) := by
    rcases rel_cases (copying.child whole .expression) with
      ⟨absent, absent'⟩ | ⟨receiver, other, found, found', receivers⟩
    · rw [absent, absent']
    · rw [found, found']
      have isParent := Node.parent_of_mem_children (Node.mem_children_of_child found)
      have types : infer receiver = infer other := by
        apply agree receivers.1
        apply not_handed_of_parent receivers.1 isParent
        · simp [kind]
        · simp [kind, Node.isWrapper]
      rw [Option.bind_some, Option.bind_some, receiverType?, receiverType?, types,
        named_type_eq_of_whole index receivers]
  unfold accessedMember?
  rw [owners]
  congr 1
  funext owner
  apply Node.bind_eq_of_rel (copying.child whole .name)
  intro name other names
  rw [copying.simple_name_eq names]

theorem resolve_call_eq_of_twin (twins : spelling.Twin left right)
    (kind : left.kind = .invocationExpression) :
    resolveCall? index infer left = resolveCall? index infer right := by
  have whole := twins.whole (by rw [kind]; rfl)
  unfold resolveCall?
  rcases rel_cases (twins.call_target (by rw [kind]; rfl)) with
    ⟨absent, absent'⟩ | ⟨target, other, found, found', targets⟩
  · simp only [absent, absent', Option.bind_eq_bind, Option.bind_none]
  · have typeArguments : explicitTypeArguments index target.name (scopeAt right) =
        explicitTypeArguments index other.name (scopeAt right) := by
      unfold explicitTypeArguments
      rw [copying.kind_eq targets.names, copying.text_eq targets.names]
    rw [found, found']
    dsimp only [Option.bind_eq_bind, Option.bind_some]
    rw [copying.simple_name_eq targets.names, (copying.arguments whole).length_eq,
      scope_at_eq_of_twin twins, typeArguments]
    rcases rel_cases targets.receivers with
      ⟨unqualified, unqualified'⟩ | ⟨receiver, otherReceiver, isReceiver, isOther, receivers⟩
    · rw [unqualified, unqualified']
      dsimp only
      rw [local_function_call_eq_of_twin index twins]
    · rw [isReceiver, isOther]
      have types : infer receiver = infer otherReceiver := by
        obtain ⟨access, isParent, kinds⟩ := access_of_receiver found isReceiver
        apply agree receivers.1
        apply not_handed_of_parent receivers.1 isParent
        · rcases kinds with isAccess | isAccess <;> simp [isAccess]
        · rcases kinds with isAccess | isAccess <;> simp [isAccess, Node.isWrapper]
      exact call_on_eq_of_whole index receivers types _ _ _

/-- Twins have the same type, unless the one is handed on and takes its type from that. -/
theorem type_step_eq_of_twin (twins : spelling.Twin left right)
    (settled : typesItself left.kind = true ∨ ¬Handed spelling left) :
    typeStep? index infer left = typeStep? index infer right := by
  have apart : ∀ {kind : Kind}, left.kind = kind → kind.surroundsAccessor = false →
      spelling.Whole left right := fun isKind plain => twins.whole (by rw [isKind, plain])
  unfold typeStep?
  rw [← twins.kind_eq]
  split
  · next kind =>
      exact Node.bind_eq_of_rel (copying.child_or_first (apart kind rfl) .type)
        (written_at_eq_of_whole index)
  · next kind =>
      exact Node.bind_eq_of_rel (copying.child_or_first (apart kind rfl) .type)
        (written_at_eq_of_whole index)
  · next kind =>
      exact target_type_eq_of_twin index agree twins (settled.resolve_left (by rw [kind]; nofun))
  · next kind => rw [resolve_call_eq_of_twin index agree twins kind]
  · next kind =>
      rw [bind_infer_operand_eq agree (apart kind rfl) (by rw [kind]; nofun) (by rw [kind]; nofun)]
  · next kind =>
      have unhanded := settled.resolve_left (by rw [kind]; nofun)
      exact bind_infer_operand_eq agree (apart kind rfl) (by rw [kind]; nofun) fun _ => unhanded
  · next kind =>
      exact Node.bind_eq_of_rel (copying.child_or_last (apart kind rfl) .right)
        (written_at_eq_of_whole index)
  · next kind =>
      have unhanded := settled.resolve_left (by rw [kind]; nofun)
      have whole := apart kind rfl
      have operands : (left.childOrFirst? .left).bind infer =
          (right.childOrFirst? .left).bind infer := by
        apply bind_infer_eq agree (copying.child_or_first whole .left) _ (by rw [kind]; nofun)
          fun _ => unhanded
        intro child found
        exact Node.parent_of_mem_children (Node.mem_children_of_child_or_first found)
      rw [copying.binary_operator_eq whole, operands,
        Node.bind_eq_of_rel (copying.child_or_last whole .right) (written_at_eq_of_whole index)]
  · next kind =>
      have unhanded := settled.resolve_left (by rw [kind]; nofun)
      have branches := bind_infer_child_eq agree (apart kind rfl) (by rw [kind]; nofun)
        fun _ => unhanded
      rw [branches, branches]
  · next kind =>
      have unhanded := settled.resolve_left (by rw [kind]; nofun)
      have whole := apart kind rfl
      rw [copying.asserts_presence_eq whole,
        bind_infer_operand_eq agree whole (by rw [kind]; nofun) fun _ => unhanded]
  · next kind =>
      rw [copying.text_eq (apart kind rfl)]
      apply Node.bind_eq_of_rel (rel_lookup index twins right.text)
      intro binding other same
      exact binding_type_eq_of_same index agree same twins
  · next kind =>
      unfold memberAccessType?
      rw [accessed_member_eq_of_twin index agree twins kind]
  · rw [enclosing_type_symbol_eq_of_twin index twins]

end Step

theorem type_at_eq_of_twin (index : Index) (depth : Nat) (twins : spelling.Twin left right)
    (settled : typesItself left.kind = true ∨ ¬Handed spelling left) :
    typeAt? index depth left = typeAt? index depth right := by
  induction depth generalizing left right with
  | zero => rfl
  | succ depth ih =>
      apply type_step_eq_of_twin index _ twins settled
      intro node other pair unhanded
      exact ih pair (Or.inr unhanded)

/-- Names, accesses and calls refer to the same in both spellings. -/
theorem symbol_of_eq_of_twin (index : Index) (twins : spelling.Twin left right)
    (kinds : left.kind = .invocationExpression ∨ left.kind = .identifier ∨
      left.kind = .memberAccessExpression) :
    symbolOf? index left = symbolOf? index right := by
  have agree : ∀ {node other : Node}, spelling.Twin node other → ¬Handed spelling node →
      typeOf? index node = typeOf? index other :=
    fun pair unhanded => type_at_eq_of_twin index maxDepth pair (Or.inr unhanded)
  unfold symbolOf?
  rw [← twins.kind_eq]
  rcases kinds with kind | kind | kind
  · rw [kind, resolve_call_eq_of_twin index agree twins kind]
  · rw [kind]
    dsimp only
    rw [copying.text_eq (twins.whole (by rw [kind]; rfl))]
    apply Node.map_eq_of_rel (rel_lookup index twins right.text)
    intro binding other same
    cases same <;> rfl
  · rw [kind]
    dsimp only
    rw [accessed_member_eq_of_twin index agree twins kind]

section Handed

variable {arrow getter statement block otherGetter list otherList owner otherOwner : Node}
  (between : spelling.Between left.valueRoot right.valueRoot arrow getter statement block
    otherGetter)
  (inMember : spelling.InMember getter otherGetter list otherList owner otherOwner)
  (index : Index) (infer : Node → Option TypeSymbol)

include between

/-- The short form asks the accessor for a type, and an accessor has none. -/
theorem target_type_short : targetType? index infer left = none := by
  obtain ⟨_, _, _, _, _, _, _, _, getters⟩ := between.getters.getters between.getterPlace
  have undeclared : left.valueRoot.declaratorOf? = none := by
    apply Node.declarator_of_eq_none between.isArrow <;> simp [between.arrow_kind]
  unfold targetType?
  dsimp only
  rw [undeclared, between.isArrow]
  dsimp only [Option.bind_eq_bind, Option.bind_some]
  rw [between.arrow_kind]
  dsimp only
  rw [between.isGetter, Option.bind_some, declaredAt?, getters.declared_type_eq.1, Option.bind_none]

include inMember

/-- The long form asks the member. -/
theorem target_type_long : targetType? index infer right = declaredAt? index owner := by
  have undeclared : right.valueRoot.declaratorOf? = none := by
    apply Node.declarator_of_eq_none between.isStatement <;> simp [between.statement_kind]
  have isFunction : otherOwner.kind.isAnonymousFunction = false := by
    rw [← inMember.owners.kind_eq]
    rcases Kind.has_accessors_iff.mp inMember.ownerKind with kind | kind <;> rw [kind] <;> rfl
  unfold targetType?
  dsimp only
  rw [undeclared, between.isStatement]
  dsimp only [Option.bind_eq_bind, Option.bind_some]
  rw [between.statement_kind]
  dsimp only
  rw [between.enclosing_scope_statement inMember, Option.bind_some, isFunction,
    declared_at_eq_of_twin index inMember.owners]
  rfl

theorem type_at_of_handed (depth : Nat) (twins : spelling.Twin left right)
    (kind : left.kind = .implicitObjectCreationExpression) :
    typeAt? index (depth + 1) left = none ∧
      typeAt? index (depth + 1) right = declaredAt? index owner := by
  have otherKind : right.kind = .implicitObjectCreationExpression := by
    rw [← twins.kind_eq]
    exact kind
  constructor
  · rw [typeAt?, typeStep?, kind]
    exact target_type_short between index _
  · rw [typeAt?, typeStep?, otherKind]
    exact target_type_long between inMember index _

end Handed

end ReleaseAudit.Inference
