import ReleaseAudit.Proofs.Source.Climb
import ReleaseAudit.Source.Call
import ReleaseAudit.Verdict.Placement

/-!
# Receivers, seen from the value and from the call

A value finds the call that is made on it, and a call finds its receiver. The
two questions are inverse where the call has a target that is named through the
access around the value. They are not where a conditional access reads no
member, and where it is not called at all: the search for a call beside the
value then finds the value itself.
-/

namespace ReleaseAudit.Source.Node

set_option autoImplicit false

/-- How a call is found from the value that it is made on. -/
inductive CalledOn (value invocation : Node) : Prop
  /-- `value.M()` -/
  | member {access : Node} (isParent : value.parent? = some access)
      (kind : access.kind = .memberAccessExpression)
      (receiver : access.child? .expression = some value)
      (called : access.parent? = some invocation)
      (invokes : invocation.kind = .invocationExpression)
      (function : invocation.childOrFirst? .function = some access)
  /-- `value?.M()` where the access is what is called. -/
  | around {access : Node} (isParent : value.parent? = some access)
      (kind : access.kind = .conditionalAccessExpression)
      (receiver : access.firstPart? = some value)
      (called : access.parent? = some invocation)
      (invokes : invocation.kind = .invocationExpression)
  /-- A conditional access that is not called, with the first call among its parts. -/
  | beside {access : Node} (isParent : value.parent? = some access)
      (kind : access.kind = .conditionalAccessExpression)
      (receiver : access.firstPart? = some value)
      (notCalled : access.parentOf? .invocationExpression = none)
      (part : access.partOf? .invocationExpression = some invocation)

theorem called_on_of_invocation_on_receiver {value invocation : Node}
    (found : value.invocationOnReceiver? = some invocation) : CalledOn value invocation := by
  obtain ⟨access, isParent, found⟩ := Option.bind_eq_some_iff.mp found
  split at found
  · next kind =>
      obtain ⟨_, isReceiver, found⟩ := Option.bind_eq_some_iff.mp found
      obtain ⟨call, isCall, found⟩ := Option.bind_eq_some_iff.mp found
      obtain ⟨_, isFunction, found⟩ := Option.bind_eq_some_iff.mp found
      cases found
      obtain ⟨called, invokes⟩ := parent_of_eq_some_iff.mp isCall
      refine .member isParent kind ?_ called invokes ?_
      · exact eq_some_of_filter_same isParent
          (fun other found => parent_of_mem_children (mem_children_of_child found)) isReceiver
      · exact eq_some_of_filter_same called
          (fun other found => parent_of_mem_children (mem_children_of_child_or_first found))
          isFunction
  · next kind =>
      obtain ⟨_, isFirst, found⟩ := Option.bind_eq_some_iff.mp found
      have receiver : access.firstPart? = some value :=
        eq_some_of_filter_same isParent
          (fun other found => parent_of_mem_children (mem_children_of_first_part found)) isFirst
      rcases Option.or_eq_some_iff.mp found with outer | ⟨notCalled, part⟩
      · obtain ⟨called, invokes⟩ := parent_of_eq_some_iff.mp outer
        exact .around isParent kind receiver called invokes
      · exact .beside isParent kind receiver notCalled part
  · cases found

/-- A call that a conditional access begins with, where the access is not called: `A()?.B`. -/
def EndsInAccess (call : Node) : Prop :=
  call.kind = .invocationExpression ∧
    ∃ access, call.parentOf? .conditionalAccessExpression = some access ∧
      access.firstPart? = some call ∧ access.parentOf? .invocationExpression = none

theorem parent_of_part_of {node part : Node} {kind : Kind} (found : node.partOf? kind = some part) :
    part.parent? = some node :=
  parent_of_mem_parts (mem_parts_of_part_of found)

theorem kind_of_part_of {node part : Node} {kind : Kind} (found : node.partOf? kind = some part) :
    part.kind = kind :=
  eq_of_beq (List.find?_some found :)

theorem parent_asymm {node parent : Node} (up : node.parent? = some parent)
    (down : parent.parent? = some node) : False := by
  have first := depth_of_parent up
  have second := depth_of_parent down
  omega

theorem part_of_of_first_part {node first : Node} (isFirst : node.firstPart? = some first) :
    node.partOf? first.kind = some first := by
  unfold firstPart? at isFirst
  unfold partOf?
  cases listed : node.parts with
  | nil =>
      rw [listed] at isFirst
      cases isFirst
  | cons head rest =>
      rw [listed] at isFirst
      cases isFirst
      simp

namespace CalledOn

variable {value invocation : Node}

theorem invokes (called : CalledOn value invocation) :
    invocation.kind = .invocationExpression := by
  cases called with
  | member _ _ _ _ invokes _ => exact invokes
  | around _ _ _ _ invokes => exact invokes
  | beside _ _ _ _ part => exact kind_of_part_of part

/-- A call that is not found beside the value lies two levels further out. -/
theorem depth_or_beside (called : CalledOn value invocation) :
    invocation.depth + 2 = value.depth ∨
      ∃ access, value.parent? = some access ∧ access.kind = .conditionalAccessExpression ∧
        access.firstPart? = some value ∧ access.parentOf? .invocationExpression = none ∧
        access.partOf? .invocationExpression = some invocation := by
  cases called with
  | member isParent _ _ called _ _ | around isParent _ _ called _ =>
      have first := depth_of_parent isParent
      have second := depth_of_parent called
      exact Or.inl (by omega)
  | @beside access isParent kind receiver notCalled part =>
      exact Or.inr ⟨access, isParent, kind, receiver, notCalled, part⟩

/-- The call that a value finds is the value itself exactly where the value ends in an access. -/
theorem eq_value_iff (called : CalledOn value invocation) :
    invocation = value ↔ value.EndsInAccess := by
  constructor
  · rintro rfl
    refine ⟨called.invokes, ?_⟩
    rcases called.depth_or_beside with outward | ⟨access, isParent, kind, isFirst, notCalled, -⟩
    · omega
    · exact ⟨access, parent_of_eq_some_iff.mpr ⟨isParent, kind⟩, isFirst, notCalled⟩
  · rintro ⟨isCall, access, isAccess, isFirst, notCalled⟩
    obtain ⟨isParent, kind⟩ := parent_of_eq_some_iff.mp isAccess
    cases called with
    | member isParent' kind' _ _ _ _ =>
        cases isParent.symm.trans isParent'
        rw [kind] at kind'
        cases kind'
    | around isParent' _ _ called invokes =>
        cases isParent.symm.trans isParent'
        rw [parent_of_eq_some_iff.mpr ⟨called, invokes⟩] at notCalled
        cases notCalled
    | beside isParent' _ _ _ part =>
        cases isParent.symm.trans isParent'
        have first := part_of_of_first_part isFirst
        rw [isCall, part] at first
        exact Option.some.inj first

end CalledOn

def receiver? (invocation : Node) : Option Node :=
  invocation.callTarget?.bind CallTarget.receiver

/-- What a call takes for its receiver, by the kind of its function. -/
theorem call_target_cases {invocation : Node} {target : CallTarget}
    (found : invocation.callTarget? = some target) :
    ∃ function, invocation.childOrFirst? .function = some function ∧
      (function.kind = .memberAccessExpression ∧
          target.receiver = function.child? .expression ∨
        function.kind = .conditionalAccessExpression ∧ target.receiver = function.firstPart? ∨
        function.kind = .memberBindingExpression ∧
          target.receiver =
            (invocation.parentOf? .conditionalAccessExpression).bind firstPart? ∨
        (function.kind = .identifier ∨ function.kind = .genericName) ∧
          target.receiver = none) := by
  obtain ⟨function, isFunction, found⟩ := Option.bind_eq_some_iff.mp found
  refine ⟨function, isFunction, ?_⟩
  split at found
  · next kind =>
      obtain ⟨name, -, found⟩ := Option.bind_eq_some_iff.mp found
      cases found
      exact Or.inl ⟨kind, rfl⟩
  · next kind =>
      obtain ⟨binding, -, found⟩ := Option.bind_eq_some_iff.mp found
      obtain ⟨name, -, found⟩ := Option.bind_eq_some_iff.mp found
      cases found
      exact Or.inr (Or.inl ⟨kind, rfl⟩)
  · next kind =>
      obtain ⟨name, -, found⟩ := Option.bind_eq_some_iff.mp found
      cases found
      exact Or.inr (Or.inr (Or.inl ⟨kind, rfl⟩))
  · next kind =>
      cases found
      exact Or.inr (Or.inr (Or.inr ⟨Or.inl kind, rfl⟩))
  · next kind =>
      cases found
      exact Or.inr (Or.inr (Or.inr ⟨Or.inr kind, rfl⟩))
  · cases found

/-- A receiver stands in the function of its call, or first in the conditional access around a
call that binds a member. -/
theorem parent_of_receiver {value invocation : Node}
    (found : invocation.receiver? = some value) :
    invocation.childOrFirst? .function = value.parent? ∨
      invocation.parent? = value.parent? ∧
        (invocation.childOrFirst? .function).any
          (fun function => function.kind == .memberBindingExpression) = true := by
  obtain ⟨target, isTarget, isReceiver⟩ := Option.bind_eq_some_iff.mp found
  obtain ⟨function, isFunction, ⟨-, through⟩ | ⟨-, through⟩ | ⟨kind, through⟩ | ⟨-, through⟩⟩ :=
    call_target_cases isTarget
  · rw [through] at isReceiver
    rw [isFunction, parent_of_mem_children (mem_children_of_child isReceiver)]
    exact Or.inl rfl
  · rw [through] at isReceiver
    rw [isFunction, parent_of_mem_children (mem_children_of_first_part isReceiver)]
    exact Or.inl rfl
  · rw [through] at isReceiver
    obtain ⟨access, isAccess, isFirst⟩ := Option.bind_eq_some_iff.mp isReceiver
    rw [parent_of_parent_of isAccess, parent_of_mem_children (mem_children_of_first_part isFirst)]
    exact Or.inr ⟨rfl, by simp [isFunction, kind]⟩
  · rw [through] at isReceiver
    cases isReceiver

namespace CalledOn

variable {value invocation : Node}

theorem exists_access (called : CalledOn value invocation) :
    ∃ access, value.parent? = some access ∧
      (access.kind = .memberAccessExpression ∧ access.child? .expression = some value ∧
          access.parent? = some invocation ∨
        access.kind = .conditionalAccessExpression ∧ access.firstPart? = some value) := by
  cases called with
  | @member access isParent kind receiver called _ _ =>
      exact ⟨access, isParent, Or.inl ⟨kind, receiver, called⟩⟩
  | @around access isParent kind receiver _ _ | @beside access isParent kind receiver _ _ =>
      exact ⟨access, isParent, Or.inr ⟨kind, receiver⟩⟩

/-- The call that a value finds is made on that value exactly where it has a target, named
through the access around the value. -/
theorem receiver_iff (called : CalledOn value invocation) :
    invocation.receiver? = some value ↔
      invocation.callTarget?.isSome = true ∧
        (invocation.childOrFirst? .function = value.parent? ∨
          invocation.parent? = value.parent? ∧
            (invocation.childOrFirst? .function).any
              (fun function => function.kind == .memberBindingExpression) = true) := by
  constructor
  · intro found
    obtain ⟨target, isTarget, -⟩ := Option.bind_eq_some_iff.mp found
    exact ⟨Option.isSome_iff_exists.mpr ⟨target, isTarget⟩, parent_of_receiver found⟩
  · rintro ⟨hasTarget, named⟩
    obtain ⟨target, isTarget⟩ := Option.isSome_iff_exists.mp hasTarget
    obtain ⟨function, isFunction, shapes⟩ := call_target_cases isTarget
    obtain ⟨access, isParent, place⟩ := called.exists_access
    have through : invocation.receiver? = target.receiver := by
      rw [receiver?, isTarget, Option.bind_some]
    rw [through]
    rw [isFunction, isParent] at named
    rcases named with inside | ⟨beside, binds⟩
    · cases inside
      rcases place with ⟨kind, receiver, -⟩ | ⟨kind, receiver⟩
      · simpa [kind, receiver] using shapes
      · simpa [kind, receiver] using shapes
    · have kind : function.kind = .memberBindingExpression := by simpa using binds
      rcases place with ⟨-, -, called⟩ | ⟨conditional, receiver⟩
      · exact (parent_asymm beside called).elim
      · have isAccess := parent_of_eq_some_iff.mpr ⟨beside, conditional⟩
        simpa [kind, isAccess, receiver] using shapes

end CalledOn

end ReleaseAudit.Source.Node
