import ReleaseAudit.Inference.Model
import ReleaseAudit.Proofs.Inference.Designation
import ReleaseAudit.Proofs.Source.Climb
import ReleaseAudit.Proofs.Source.Preorder

/-!
# Where a variable is declared and where its name is used

A name refers to the last declarator before it in the nearest enclosing
function that has one. Blocks play no part in the search, so the block of the
declarator may have ended before the use. Byte offsets decide which of the two
is the case: the block encloses the use, or it ends before the use begins.
-/

namespace ReleaseAudit.Source

set_option autoImplicit false

/-- Nodes that bound the variables declared in them. A top-level statement and a
label only wrap another statement. -/
def Kind.boundsVariables (kind : Kind) : Bool :=
  kind == .block || kind == .compilationUnit ||
    kind.isStatement && kind != .globalStatement && kind != .other "labeled_statement"

namespace Node

/-- The block or statement around the declaration statement of a variable. A
declaration in the header of a statement belongs to that statement. -/
def variableExtent? (declarator : Node) : Option Node := do
  let holder ← declarator.parent?.bind parent?
  if holder.kind == .localDeclarationStatement then
    holder.ancestors.find? fun around => around.kind.boundsVariables
  else some holder

theorem mem_ancestors_of_variable_extent {declarator extent : Node}
    (found : declarator.variableExtent? = some extent) : extent ∈ declarator.ancestors := by
  obtain ⟨holder, isHolder, found⟩ := Option.bind_eq_some_iff.mp found
  obtain ⟨declaration, isDeclaration, isHolder⟩ := Option.bind_eq_some_iff.mp isHolder
  have above : holder :: holder.ancestors = declaration.ancestors :=
    (ancestors_of_parent isHolder).symm
  rw [ancestors_of_parent isDeclaration, ← above]
  apply List.mem_cons_of_mem
  split at found
  · apply List.mem_cons_of_mem
    exact List.mem_of_find?_eq_some found
  · cases found
    exact List.mem_cons_self

theorem ranges_of_mem_ancestors {node outer : Node} (ordered : node.top.isOrdered = true)
    (above : outer ∈ node.ancestors) : outer.start ≤ node.start ∧ node.stop ≤ outer.stop := by
  obtain ⟨sameTop, index, rest, there⟩ := mem_ancestors_iff.mp above
  have atNode := node.at_place
  rw [there, Tree.at_append, ← sameTop, outer.at_place] at atNode
  have orderedTop : outer.top.isOrdered = true := by
    rw [sameTop]
    exact ordered
  have orderedOuter : outer.tree.isOrdered = true :=
    (Tree.nested_of_at orderedTop outer.at_place).1
  exact (Tree.nested_of_at orderedOuter atNode).2

theorem within_or_behind {inner outer site : Node} (ordered : site.top.isOrdered = true)
    (sameTop : inner.top = site.top) (inside : outer ∈ inner.ancestors)
    (later : inner.start < site.start) :
    (site.Within outer ∧ site.stop ≤ outer.stop) ∨
      (¬ site.Within outer ∧ outer.stop ≤ site.start) := by
  have orderedInner : inner.top.isOrdered = true := by
    rw [sameTop]
    exact ordered
  have outerTop : outer.top = site.top := (top_of_mem_ancestors inside).trans sameTop
  have starts := (ranges_of_mem_ancestors orderedInner inside).1
  have proper := start_le_stop ordered
  by_cases within : site.Within outer
  · left
    refine ⟨within, ?_⟩
    rcases within with rfl | above
    · exact Nat.le_refl _
    · exact (ranges_of_mem_ancestors ordered above).2
  · right
    refine ⟨within, ?_⟩
    -- a site in front of `outer` would begin no later than `inner`
    have notBefore : ¬ site.place < outer.place := by
      intro before
      rcases ranges_of_lt outerTop.symm ordered before with ⟨-, around, -⟩ | apart
      · omega
      · omega
    have distinct : outer.place ≠ site.place := by
      intro here
      exact within (Or.inl (eq_of_place outerTop.symm here.symm))
    have after : outer.place < site.place := by
      by_contra notAfter
      exact distinct (List.le_antisymm (List.not_lt.mp notBefore) (List.not_lt.mp notAfter))
    rcases ranges_of_lt outerTop (outerTop ▸ ordered) after with ⟨above, -⟩ | behind
    · exact absurd (Or.inr above) within
    · exact behind

end Node

end ReleaseAudit.Source

namespace ReleaseAudit.Inference

set_option autoImplicit false

open Declarations (Catalog Index)
open Source (Document Node Outline)
open Source.Sample (classWith letter methodWith token unit)

structure DeclaredBefore (scope site : Node) (name : String) (declarator : Node) : Prop where
  isDeclarator : declarator ∈ scope.descendantsOf .variableDeclarator
  earlier : declarator.start < site.start
  spelled : ∃ spelled, declarator.declarationName? = some spelled ∧ spelled.text = name
  belongs : declarator.enclosingScope? = some scope
  notField : ∀ holder, declarator.parent?.bind Node.parent? = some holder →
    holder.kind.isFieldDeclaration = false

theorem declared_before_iff {scope site : Node} {name : String} {declarator : Node} :
    DeclaredBefore scope site name declarator ↔
      declarator ∈ scope.descendantsOf .variableDeclarator ∧
        declaresBefore scope site name declarator = true := by
  unfold declaresBefore
  simp only [Bool.and_eq_true, decide_eq_true_eq, Option.any_eq_true, beq_iff_eq,
    Bool.not_eq_true', Option.any_eq_false]
  constructor
  · intro declared
    refine ⟨declared.isDeclarator, ⟨⟨declared.earlier, declared.spelled⟩, ?_⟩, declared.notField⟩
    exact ⟨scope, declared.belongs, Node.same_self scope⟩
  · rintro ⟨isDeclarator, ⟨⟨earlier, spelled⟩, found, isFound, same⟩, notField⟩
    have below := Node.top_of_mem_descendants (List.mem_filter.mp isDeclarator).1
    have isScope : found = scope := by
      apply Node.eq_of_place
      · exact (Node.top_of_enclosing_scope isFound).trans below
      · exact congrArg List.reverse (eq_of_beq same).symm
    subst isScope
    exact ⟨isDeclarator, earlier, spelled, isFound, notField⟩

/-- The declarator comes last among those of its name before the site. -/
structure LastBefore (scope site : Node) (name : String) (declarator : Node) : Prop where
  declared : DeclaredBefore scope site name declarator
  last : ∀ other, DeclaredBefore scope site name other →
    other = declarator ∨ other.place < declarator.place

theorem find_local_eq_some_iff {scope site : Node} {name : String} {declarator : Node} :
    findLocal? scope site name = some declarator ↔ LastBefore scope site name declarator := by
  have sorted : ((scope.descendantsOf .variableDeclarator).filter
      (declaresBefore scope site name)).Pairwise fun left right => left.place < right.place :=
    (scope.pairwise_descendants.filter _).filter _
  have listed : ∀ other, other ∈ (scope.descendantsOf .variableDeclarator).filter
      (declaresBefore scope site name) ↔ DeclaredBefore scope site name other := by
    intro other
    rw [List.mem_filter, declared_before_iff]
  unfold findLocal?
  rw [List.getLast?_eq_some_iff]
  constructor
  · rintro ⟨front, split⟩
    rw [split] at sorted listed
    refine ⟨(listed declarator).mp (by simp), ?_⟩
    intro other declared
    rcases List.mem_append.mp ((listed other).mpr declared) with inFront | isLast
    · right
      exact (List.pairwise_append.mp sorted).2.2 other inFront declarator (by simp)
    · left
      exact List.mem_singleton.mp isLast
  · intro isLast
    obtain ⟨front, back, split⟩ := List.append_of_mem ((listed declarator).mpr isLast.declared)
    rw [split] at sorted listed
    obtain ⟨-, fromHere, -⟩ := List.pairwise_append.mp sorted
    obtain ⟨behind, -⟩ := List.pairwise_cons.mp fromHere
    cases back with
    | nil => exact ⟨front, split⟩
    | cons next back =>
        -- the next declarator would come after the last one
        have after := behind next List.mem_cons_self
        rcases isLast.last next ((listed next).mp (by simp)) with same | before
        · rw [same] at after
          exact absurd after (List.lt_irrefl _)
        · exact absurd before (List.lt_asymm after)

/-- The scope is the nearest enclosing node that binds the name at all: nothing
nearer binds it, and no type begins between. -/
def ReachedFrom (site : Node) (name : String) (scope : Node) : Prop :=
  ∃ nearer further, site.ancestors = nearer ++ scope :: further ∧
    ∀ ancestor ∈ nearer,
      bindingIn? site name ancestor = none ∧ ancestor.kind.isTypeDeclaration = false

theorem local_among_eq_some_iff {site : Node} {name : String} {enclosing : List Node}
    {binding : Binding} :
    localAmong? site name enclosing = some binding ↔
      ∃ nearer scope further, enclosing = nearer ++ scope :: further ∧
        (∀ ancestor ∈ nearer,
          bindingIn? site name ancestor = none ∧ ancestor.kind.isTypeDeclaration = false) ∧
        bindingIn? site name scope = some binding := by
  induction enclosing with
  | nil => simp [localAmong?]
  | cons ancestor enclosing ih =>
      rw [localAmong?]
      constructor
      · intro found
        split at found
        · next own isOwn =>
            cases found
            exact ⟨[], ancestor, enclosing, rfl, by simp, isOwn⟩
        · next isNone =>
            split at found
            · cases found
            · next notType =>
                obtain ⟨nearer, scope, further, rfl, passed, binds⟩ := ih.mp found
                refine ⟨ancestor :: nearer, scope, further, rfl, ?_, binds⟩
                intro other member
                rcases List.mem_cons.mp member with rfl | member
                · exact ⟨isNone, Bool.eq_false_iff.mpr notType⟩
                · exact passed other member
      · rintro ⟨nearer, scope, further, split, passed, binds⟩
        cases nearer with
        | nil =>
            cases split
            rw [binds]
        | cons first nearer =>
            cases split
            obtain ⟨isNone, notType⟩ := passed ancestor List.mem_cons_self
            rw [isNone, if_neg (by simp [notType])]
            apply ih.mpr
            refine ⟨nearer, scope, further, rfl, ?_, binds⟩
            exact fun other member => passed other (List.mem_cons_of_mem _ member)

theorem find_parameter_ne_local_variable (scope : Node) (name : String) (declarator : Node) :
    findParameter? scope name ≠ some (.localVariable declarator) := by
  intro found
  unfold findParameter? at found
  split at found
  · cases found
  · split at found
    · obtain ⟨parameter, -, same⟩ := Option.map_eq_some_iff.mp found
      split at same <;> cases same
    · obtain ⟨-, same⟩ := Option.ite_none_right_eq_some.mp found
      cases same
    · obtain ⟨-, same⟩ := Option.ite_none_right_eq_some.mp found
      cases same
    · cases found

/-- A function or the unit of top-level statements, where no parameter has the name. -/
structure BindsLocals (scope : Node) (name : String) : Prop where
  isFunction : scope.kind.isScope = true ∨ scope.kind = .compilationUnit
  noParameter : findParameter? scope name = none

theorem binding_in_eq_local_variable_iff {site scope declarator : Node} {name : String} :
    bindingIn? site name scope = some (.localVariable declarator) ↔
      BindsLocals scope name ∧ LastBefore scope site name declarator := by
  rw [← find_local_eq_some_iff]
  unfold bindingIn?
  constructor
  · intro found
    split at found
    · cases found
    · split at found
      · next isFunction =>
          rcases Option.or_eq_some_iff.mp found with isParameter | ⟨noParameter, isLocal⟩
          · exact absurd isParameter (find_parameter_ne_local_variable scope name declarator)
          · obtain ⟨other, isOther, same⟩ := Option.map_eq_some_iff.mp isLocal
            cases same
            exact ⟨⟨by simpa using isFunction, noParameter⟩, isOther⟩
      · cases found
  · rintro ⟨binds, isLast⟩
    have noLoop : iterates scope site name = false := by
      unfold iterates
      rcases binds.isFunction with isScope | isUnit
      · cases kind : scope.kind <;> simp [kind, Source.Kind.isScope] at isScope ⊢
      · simp [isUnit]
    have isFunction : (scope.kind.isScope || scope.kind == .compilationUnit) = true := by
      simpa using binds.isFunction
    rw [if_neg (by simp [noLoop]), if_pos isFunction, binds.noParameter, isLast]
    rfl

theorem local_variable_of_lookup {index : Index} {site declarator : Node} {name : String}
    (bound : lookup? index site name = some (.localVariable declarator)) :
    localAmong? site name site.ancestors = some (.localVariable declarator) := by
  rcases Option.or_eq_some_iff.mp bound with isLocal | ⟨-, isMember⟩
  · exact isLocal
  · obtain ⟨key, -, found⟩ := List.exists_of_findSome?_eq_some isMember
    obtain ⟨member, -, same⟩ := Option.map_eq_some_iff.mp found
    cases same

theorem lookup_eq_local_variable_iff {index : Index} {site declarator : Node} {name : String} :
    lookup? index site name = some (.localVariable declarator) ↔
      ∃ scope, ReachedFrom site name scope ∧ BindsLocals scope name ∧
        LastBefore scope site name declarator := by
  constructor
  · intro bound
    obtain ⟨nearer, scope, further, split, passed, binds⟩ :=
      local_among_eq_some_iff.mp (local_variable_of_lookup bound)
    exact ⟨scope, ⟨nearer, further, split, passed⟩, binding_in_eq_local_variable_iff.mp binds⟩
  · rintro ⟨scope, ⟨nearer, further, split, passed⟩, binds⟩
    unfold lookup?
    rw [local_among_eq_some_iff.mpr ⟨nearer, scope, further, split, passed,
      binding_in_eq_local_variable_iff.mpr binds⟩]
    rfl

theorem mem_ancestors_of_reached_from {site scope : Node} {name : String}
    (reached : ReachedFrom site name scope) : scope ∈ site.ancestors := by
  obtain ⟨nearer, further, split, -⟩ := reached
  rw [split]
  simp

/-- A name refers to a variable exactly when its declarator is the last one of that name
before the use in the nearest function that binds the name. The declarator begins before
the use and belongs to an enclosing function, but the block or statement that bounds the
variable encloses the use only if it has not ended there: otherwise it ends before the use
begins, and the use is bound all the same. -/
theorem lookup_local_variable_extent (index : Index) (site declarator : Node) (name : String) :
    (lookup? index site name = some (.localVariable declarator) ↔
      ∃ scope, ReachedFrom site name scope ∧ BindsLocals scope name ∧
        LastBefore scope site name declarator) ∧
    (lookup? index site name = some (.localVariable declarator) →
      declarator.start < site.start ∧
      (∃ scope ∈ site.ancestors, declarator.enclosingScope? = some scope) ∧
      (site.top.isOrdered = true → ∀ extent, declarator.variableExtent? = some extent →
        (site.Within extent ∧ site.stop ≤ extent.stop) ∨
          (¬ site.Within extent ∧ extent.stop ≤ site.start))) := by
  refine ⟨lookup_eq_local_variable_iff, ?_⟩
  intro bound
  obtain ⟨scope, reached, -, isLast⟩ := lookup_eq_local_variable_iff.mp bound
  have declared := isLast.declared
  have around := mem_ancestors_of_reached_from reached
  refine ⟨declared.earlier, ⟨scope, around, declared.belongs⟩, ?_⟩
  intro ordered extent isExtent
  have declaratorTop : declarator.top = site.top := by
    rw [← Node.top_of_mem_ancestors around]
    exact Node.top_of_mem_descendants (List.mem_filter.mp declared.isDeclarator).1
  exact Node.within_or_behind ordered declaratorTop
    (Node.mem_ancestors_of_variable_extent isExtent) declared.earlier

/-- `class A { A s; void M() { { A s; } s; } }`: the last `s` is the field. -/
def endedBlockText : String := "class A \x7b A s; void M() \x7b \x7b A s; \x7d s; \x7d \x7d"

/-- `A s` -/
def variableOutline (start : UInt32) : Outline :=
  .node .variableDeclaration true none start (start + 3)
    [letter (some .type) start,
      .node .variableDeclarator true none (start + 2) (start + 3) [letter (some .name) (start + 2)]]

def endedBlockOutline : Outline :=
  unit 41 [classWith 0 41
    [.node .fieldDeclaration true none 10 14 [variableOutline 10, token ";" 13],
      methodWith 15 39
        [.node .block true none 26 34
          [token "\x7b" 26,
            .node .localDeclarationStatement true none 28 32 [variableOutline 28, token ";" 31],
            token "\x7d" 33],
          .node (.other "expression_statement") true none 35 37
            [letter none 35, token ";" 36]]]]

def endedBlockDocument : Document := .ofOutline "ended.cs" endedBlockText endedBlockOutline

def endedBlockIndex : Index := indexOf (Catalog.ofSettings {}) [endedBlockDocument]

def Binding.hasEnded (site : Node) : Binding → Bool
  | .localVariable declarator =>
      declarator.variableExtent?.any fun extent => decide (extent.stop ≤ site.start)
  | _ => false

theorem lookup_local_variable_extent_ended :
    endedBlockDocument.tree.isOrdered = true ∧
    ∃ site declarator extent, lookup? endedBlockIndex site "s" = some (.localVariable declarator) ∧
      declarator.start < site.start ∧ declarator.variableExtent? = some extent ∧
      ¬ site.Within extent := by
  have ordered : endedBlockDocument.tree.isOrdered = true := by decide +kernel
  have bound : ((endedBlockDocument.root.descendantsOf .identifier).getLast?.any fun site =>
      decide (site.start < site.stop) &&
        (lookup? endedBlockIndex site "s").any (Binding.hasEnded site)) = true := by
    decide +kernel
  obtain ⟨site, isSite, bound⟩ := (Option.any_eq_true _ _).mp bound
  have siteTop : site.top = endedBlockDocument.tree :=
    Node.top_of_mem_descendants (List.mem_filter.mp (List.mem_of_getLast? isSite)).1
  obtain ⟨proper, bound⟩ := Bool.and_eq_true_iff.mp bound
  obtain ⟨binding, isBinding, ended⟩ := (Option.any_eq_true _ _).mp bound
  cases binding with
  | localVariable declarator =>
      obtain ⟨extent, isExtent, behind⟩ := (Option.any_eq_true _ _).mp ended
      obtain ⟨earlier, -, ranges⟩ :=
        (lookup_local_variable_extent endedBlockIndex site declarator "s").2 isBinding
      refine ⟨ordered, site, declarator, extent, isBinding, earlier, isExtent, ?_⟩
      rcases ranges (siteTop ▸ ordered) extent isExtent with ⟨-, stops⟩ | ⟨outside, -⟩
      · have starts := of_decide_eq_true proper
        have ends := of_decide_eq_true behind
        omega
      · exact outside
  | parameter declaration => cases ended
  | untyped => cases ended
  | iteration statement => cases ended
  | member decl member => cases ended

end ReleaseAudit.Inference
