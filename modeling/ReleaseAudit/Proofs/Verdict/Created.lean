import ReleaseAudit.Verdict.Basic

/-!
# The expression that carries a created value

A call that is awaited hands its value on as the result of the `await`, and any
other creation carries its value itself. Only a creation is ever placed as an
awaited result: placing the value outside of its wrappers never gives that
placement again. So the diagnostic of a node has one closed form, whether the
node is awaited or not.
-/

namespace ReleaseAudit.Source.Node

set_option autoImplicit false

/-- The `await` around an awaited call, and any other node itself. -/
def createdValue (node : Node) : Node :=
  (if node.kind == .invocationExpression then node.awaitedBy? else none).getD node

end ReleaseAudit.Source.Node

namespace ReleaseAudit.Verdict

set_option autoImplicit false

open Source (Node)
open ReleaseAudit.Types (TypeSymbol)

/-- Handed back to the caller, other than by the getter of a property. -/
def Placement.isReturn : Placement → Bool
  | returnInBlock | returnArrowBody | returnInLambda => true
  | _ => false

theorem returned_by_is_return (statement : Node) :
    (returnedBy statement).isGetterReturn = true ∨ (returnedBy statement).isReturn = true := by
  unfold returnedBy
  split
  · exact Or.inr rfl
  · split
    · dsimp only
      split
      · exact Or.inl rfl
      · exact Or.inr rfl
    · split <;> exact Or.inr rfl

theorem is_return_of_arrow_body_of {owner : Node} {placement : Placement}
    (found : arrowBodyOf? owner = some placement) :
    placement.isGetterReturn = true ∨ placement.isReturn = true := by
  unfold arrowBodyOf? at found
  split at found
  · cases found
    exact Or.inl rfl
  · obtain ⟨property, -, placed⟩ := Option.bind_eq_some_iff.mp found
    split at placed
    · cases placed
      exact Or.inl rfl
    · cases placed
  all_goals
    cases found
    exact Or.inr rfl

theorem is_return_of_returned {root : Node} {placement : Placement}
    (found : returned? root = some placement) :
    placement.isGetterReturn = true ∨ placement.isReturn = true := by
  obtain ⟨parent, -, placed⟩ := Option.bind_eq_some_iff.mp found
  split at placed
  · cases placed
    exact returned_by_is_return parent
  · split at placed
    · exact is_return_of_arrow_body_of placed
    · split at placed
      · cases placed
        exact Or.inr rfl
      · cases placed

/-- Getters are left out at every depth, so an argument is placed as returned only where no
property is asked. -/
theorem is_return_of_returned_as_argument {root : Node} {placement : Placement}
    (found : returnedAsArgument? root = some placement) : placement.isReturn = true := by
  fun_induction returnedAsArgument? root with
  | case1 | case2 => cases found
  | case3 root owner isOwner returning placed notGetter =>
      cases found
      exact (is_return_of_returned placed).resolve_left notGetter
  | case4 root owner isOwner placed shallower climbed ih => exact ih found

theorem initializer_element_ne_awaited_result (root await : Node) :
    initializerElement? root ≠ some (.awaitedResult await) := by
  intro found
  obtain ⟨outermost, -, found⟩ := Option.bind_eq_some_iff.mp found
  obtain ⟨holder, -, placed⟩ := Option.bind_eq_some_iff.mp found
  split at placed <;> simp at placed

namespace Audit

variable (audit : Audit)

theorem declared_ne_awaited_result (root await : Node) (declarator : Source.Declarator) :
    audit.declared root declarator ≠ .awaitedResult await := by
  unfold declared
  split
  · simp
  · split <;> simp

theorem stored_under_ne_awaited_result (root target name await : Node) :
    audit.storedUnder root target name ≠ .awaitedResult await := by
  unfold storedUnder
  split
  · split <;> simp
  · split <;> simp
  · simp
  · simp

theorem assigned_ne_awaited_result (root await : Node) :
    audit.assigned? root ≠ some (.awaitedResult await) := by
  intro found
  obtain ⟨assignment, -, found⟩ := Option.bind_eq_some_iff.mp found
  obtain ⟨right, -, found⟩ := Option.bind_eq_some_iff.mp found
  split at found
  · simp at found
  · obtain ⟨left, -, placed⟩ := Option.bind_eq_some_iff.mp found
    dsimp only at placed
    split at placed
    · exact audit.stored_under_ne_awaited_result _ _ _ await (Option.some.inj placed)
    · obtain ⟨receiver, -, placed⟩ := Option.bind_eq_some_iff.mp placed
      split at placed
      · obtain ⟨name, -, placed⟩ := Option.bind_eq_some_iff.mp placed
        exact audit.stored_under_ne_awaited_result _ _ _ await (Option.some.inj placed)
      · simp at placed
    · simp at placed

theorem place_value_ne_awaited_result (root await : Node) :
    audit.placeValue root ≠ .awaitedResult await := by
  unfold placeValue
  split
  · simp
  · intro placed
    rcases Option.getD_eq_iff.mp placed with found | ⟨-, none⟩
    · simp only [Option.or_eq_some_iff, Option.map_eq_some_iff] at found
      rcases found with found | ⟨-, found | ⟨-, found | ⟨-, found | ⟨-, found | ⟨-, found |
        ⟨-, found | ⟨-, found | ⟨-, found⟩⟩⟩⟩⟩⟩⟩⟩
      · rcases is_return_of_returned found with getter | returning
        · cases getter
        · cases returning
      · cases is_return_of_returned_as_argument found
      · obtain ⟨owner, -, placed⟩ := found
        unfold argumentPlacement at placed
        split at placed <;> simp at placed
      · simp at found
      · exact initializer_element_ne_awaited_result root await found
      · simp at found
      · obtain ⟨declarator, -, placed⟩ := found
        exact audit.declared_ne_awaited_result root await declarator placed
      · exact audit.assigned_ne_awaited_result root await found
      · simp at found
    · cases none

theorem value_of_eq (node : Node) :
    audit.valueOf? node =
      (audit.model.typeOf node.createdValue).map fun type =>
        (audit.placeValue node.createdValue.valueRoot, type) := by
  unfold valueOf? place Node.createdValue
  cases (if node.kind == .invocationExpression then node.awaitedBy? else none) with
  | some await => rfl
  | none =>
      simp only [Option.getD_none]
      split
      · next await placed =>
          exact absurd placed (audit.place_value_ne_awaited_result node.valueRoot await)
      · rfl

theorem resource_of_eq (node : Node) :
    audit.resourceOf? node =
      (audit.originOf? node).bind fun origin =>
        (audit.model.typeOf node.createdValue).bind fun type =>
          if audit.rules.needsRelease type then
            some (origin, audit.placeValue node.createdValue.valueRoot, type)
          else none := by
  unfold resourceOf?
  rw [value_of_eq]
  cases audit.originOf? node with
  | none => rfl
  | some origin =>
      cases audit.model.typeOf node.createdValue with
      | none => rfl
      | some type => rfl

theorem resource_of_eq_some_iff {node : Node} {origin : Origin} {placement : Placement}
    {type : TypeSymbol} :
    audit.resourceOf? node = some (origin, placement, type) ↔
      audit.originOf? node = some origin ∧ audit.model.typeOf node.createdValue = some type ∧
        audit.rules.needsRelease type = true ∧
        audit.placeValue node.createdValue.valueRoot = placement := by
  rw [resource_of_eq]
  simp only [Option.bind_eq_some_iff, Option.ite_none_right_eq_some, Option.some.injEq,
    Prod.mk.injEq]
  constructor
  · rintro ⟨_, isOrigin, _, isType, needed, rfl, placed, rfl⟩
    exact ⟨isOrigin, isType, needed, placed⟩
  · rintro ⟨isOrigin, isType, needed, placed⟩
    exact ⟨origin, isOrigin, type, isType, needed, rfl, placed, rfl⟩

end Audit

end ReleaseAudit.Verdict
