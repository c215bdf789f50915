import ReleaseAudit.Proofs.Source.Place
import ReleaseAudit.Verdict.Placement

/-!
# Climbing out of wrappers

One step of the climb at a time: a parent that passes the value on has the same
root as its child, and any other parent ends the climb. Going down into a
wrapper undoes a step of the climb, unless the wrapper has several branches.
-/

namespace ReleaseAudit.Source.Node

set_option autoImplicit false

theorem eq_of_same {left right parent : Node} (isLeft : left.parent? = some parent)
    (isRight : right.parent? = some parent) (same : left.same right = true) : left = right := by
  apply eq_of_place
  · rw [top_of_parent isLeft, top_of_parent isRight]
  · unfold place
    rw [eq_of_beq same]

theorem same_self (node : Node) : node.same node = true :=
  beq_self_eq_true node.path

theorem any_same_iff {answer : Option Node} {child parent : Node}
    (isParent : child.parent? = some parent)
    (below : ∀ other ∈ answer, other.parent? = some parent) :
    answer.any child.same = true ↔ answer = some child := by
  cases answer with
  | none => simp
  | some other =>
      constructor
      · intro same
        rw [eq_of_same isParent (below other rfl) same]
      · intro found
        cases found
        exact same_self child

theorem eq_some_of_filter_same {answer : Option Node} {child parent found : Node}
    (isParent : child.parent? = some parent)
    (below : ∀ other ∈ answer, other.parent? = some parent)
    (kept : answer.filter child.same = some found) : answer = some child := by
  obtain ⟨isAnswer, same⟩ := Option.filter_eq_some_iff.mp kept
  rw [isAnswer, eq_of_same isParent (below found isAnswer) same]

theorem value_root_of_passes {node parent : Node} (isParent : node.parent? = some parent)
    (passes : passesValue parent node = true) : node.valueRoot = parent.valueRoot := by
  rw [valueRoot, ancestors_of_parent isParent, climbValue, if_pos passes, valueRoot]

theorem value_root_of_not_passes {node parent : Node} (isParent : node.parent? = some parent)
    (stops : passesValue parent node = false) : node.valueRoot = node := by
  rw [valueRoot, ancestors_of_parent isParent, climbValue, if_neg (by simp [stops])]

theorem climb_value_eq_or_passes (current : Node) (enclosing : List Node) :
    climbValue current enclosing = current ∨
      ∃ child, passesValue (climbValue current enclosing) child = true := by
  induction enclosing generalizing current with
  | nil => exact Or.inl rfl
  | cons parent enclosing ih =>
      rw [climbValue]
      split
      · next passes =>
          rcases ih parent with stays | further
          · rw [stays]
            exact Or.inr ⟨current, passes⟩
          · exact Or.inr further
      · exact Or.inl rfl

theorem value_root_eq_or_passes (node : Node) :
    node.valueRoot = node ∨ ∃ child, passesValue node.valueRoot child = true :=
  climb_value_eq_or_passes node node.ancestors

/-- Kinds of expressions that may hand on the value of a child. -/
def isWrapper : Kind → Bool
  | .parenthesizedExpression | .castExpression | .asExpression | .postfixUnaryExpression
  | .conditionalExpression | .binaryExpression => true
  | _ => false

theorem is_wrapper_of_passes {parent child : Node} (passes : passesValue parent child = true) :
    isWrapper parent.kind = true := by
  unfold passesValue at passes
  split at passes
  case h_7 => cases passes
  all_goals next kind => rw [kind]; rfl

theorem passes_value_eq_false {parent child : Node} (outside : isWrapper parent.kind = false) :
    passesValue parent child = false := by
  apply Bool.eq_false_iff.mpr
  intro passes
  rw [is_wrapper_of_passes passes] at outside
  cases outside

/-- The child is the one inner value of a wrapper, not a branch of several. -/
def OnlyValue (parent child : Node) : Prop :=
  parent.kind ≠ .conditionalExpression ∧ parent.kind ≠ .binaryExpression ∧
    (parent.kind = .parenthesizedExpression ∨ parent.kind = .postfixUnaryExpression →
      parent.firstPart? = some child)

/-- Going down enters a wrapper exactly where the climb leaves it, except for branches. -/
theorem wrapped_eq_some_iff {parent child : Node} (isParent : child.parent? = some parent) :
    parent.wrapped? = some child ↔ passesValue parent child = true ∧ parent.OnlyValue child := by
  have byLast : (parent.childOrLast? .value).any child.same = true ↔
      parent.childOrLast? .value = some child :=
    any_same_iff isParent fun _ found =>
      parent_of_mem_children (mem_children_of_child_or_last found)
  have byFirst : (parent.childOrFirst? .left).any child.same = true ↔
      parent.childOrFirst? .left = some child :=
    any_same_iff isParent fun _ found =>
      parent_of_mem_children (mem_children_of_child_or_first found)
  unfold wrapped? passesValue OnlyValue
  split
  · next kind => simp [kind]
  · next kind => simp [kind, byLast]
  · next kind => simp [kind, byFirst]
  · next kind =>
      by_cases asserts : parent.assertsPresence = true <;> simp [kind, asserts]
  · next notParenthesized notCast notAs notPostfix =>
      constructor
      · intro found
        cases found
      · rintro ⟨passes, notConditional, notBinary, -⟩
        split at passes
        · next kind => exact absurd kind notParenthesized
        · next kind => exact absurd kind notCast
        · next kind => exact absurd kind notAs
        · next kind => exact absurd kind notPostfix
        · next kind => exact absurd kind notConditional
        · next kind => exact absurd kind notBinary
        · cases passes

/-- The node, or a node around it. -/
def Within (node outer : Node) : Prop :=
  node = outer ∨ outer ∈ node.ancestors

namespace Within

theorem self (node : Node) : node.Within node :=
  Or.inl rfl

theorem parent {node parent outer : Node} (isParent : node.parent? = some parent)
    (further : parent.Within outer) : node.Within outer := by
  right
  rw [ancestors_of_parent isParent]
  rcases further with rfl | above
  · exact List.mem_cons_self
  · exact List.mem_cons_of_mem parent above

theorem eq_or_parent {node parent outer : Node} (isParent : node.parent? = some parent)
    (inside : node.Within outer) : node = outer ∨ parent.Within outer := by
  rcases inside with here | above
  · exact Or.inl here
  · rw [ancestors_of_parent isParent] at above
    rcases List.mem_cons.mp above with rfl | further
    · exact Or.inr (self outer)
    · exact Or.inr (Or.inr further)

theorem iff_place {node outer : Node} :
    node.Within outer ↔ outer.top = node.top ∧ outer.place <+: node.place := by
  constructor
  · rintro (rfl | above)
    · exact ⟨rfl, List.prefix_rfl⟩
    · obtain ⟨same, index, rest, place⟩ := mem_ancestors_iff.mp above
      rw [place]
      exact ⟨same, List.prefix_append _ _⟩
  · rintro ⟨same, rest, place⟩
    cases rest with
    | nil =>
        left
        apply eq_of_place same.symm
        rw [← place, List.append_nil]
    | cons index rest => exact Or.inr (mem_ancestors_iff.mpr ⟨same, index, rest, place.symm⟩)

theorem trans {node middle outer : Node} (lower : node.Within middle)
    (upper : middle.Within outer) : node.Within outer := by
  obtain ⟨sameLower, placeLower⟩ := iff_place.mp lower
  obtain ⟨sameUpper, placeUpper⟩ := iff_place.mp upper
  exact iff_place.mpr ⟨sameUpper.trans sameLower, placeUpper.trans placeLower⟩

theorem depth_le {node outer : Node} (inside : node.Within outer) : outer.depth ≤ node.depth := by
  rcases inside with rfl | above
  · exact Nat.le_refl _
  · exact Nat.le_of_lt (depth_lt_of_mem_ancestors_from above)

theorem child_unique {node left right parent : Node} (inLeft : node.Within left)
    (inRight : node.Within right) (isLeft : left.parent? = some parent)
    (isRight : right.parent? = some parent) : left = right := by
  obtain ⟨sameLeft, placeLeft⟩ := iff_place.mp inLeft
  obtain ⟨sameRight, placeRight⟩ := iff_place.mp inRight
  have lengths : left.place.length = right.place.length := by
    have depthLeft := depth_of_parent isLeft
    have depthRight := depth_of_parent isRight
    simp only [place, path, List.length_reverse, List.length_map]
    unfold depth at depthLeft depthRight
    omega
  have nested := List.prefix_of_prefix_length_le placeLeft placeRight (Nat.le_of_eq lengths)
  exact eq_of_place (sameLeft.trans sameRight.symm) (nested.eq_of_length lengths)

theorem mem_ancestors {node middle outer : Node} (inside : node.Within middle)
    (above : outer ∈ middle.ancestors) : outer ∈ node.ancestors := by
  rcases inside with rfl | further
  · exact above
  · obtain ⟨sameUpper, index, rest, placeUpper⟩ := mem_ancestors_iff.mp above
    obtain ⟨sameLower, other, below, placeLower⟩ := mem_ancestors_iff.mp further
    apply mem_ancestors_iff.mpr
    refine ⟨sameUpper.trans sameLower, index, rest ++ other :: below, ?_⟩
    rw [placeLower, placeUpper]
    simp

theorem value_root (node : Node) : node.Within node.valueRoot := by
  rcases climb_value_eq_or_mem node node.ancestors with same | further
  · exact Or.inl same.symm
  · exact Or.inr further

end Within

end ReleaseAudit.Source.Node
