import Mathlib.Data.List.Basic
import ReleaseAudit.Inference.Scope
import ReleaseAudit.Proofs.Declarations.Levels
import ReleaseAudit.Proofs.Source.Parent

/-!
# Trails from a node outward

Each enclosing node adds its own share behind what was met before it. So the
trail that the children of a node see is the node's share followed by the trail
that the node's siblings see.
-/

namespace ReleaseAudit.Inference

set_option autoImplicit false

open Declarations (Usings qualify typeParameters)
open Source (Node)
open ReleaseAudit.Types (typeKey)

namespace Trail

def append (trail outer : Trail) : Trail where
  usings := trail.usings.append outer.usings
  namespaces := trail.namespaces ++ outer.namespaces
  types := trail.types ++ outer.types
  typeParams := trail.typeParams ++ outer.typeParams

@[simp] theorem append_empty (trail : Trail) : trail.append {} = trail := by
  simp [append]

theorem append_assoc (first second third : Trail) :
    (first.append second).append third = first.append (second.append third) := by
  simp [append, Usings.append_assoc]

theorem add_namespace_name_eq (trail : Trail) (declaration : Node) :
    trail.addNamespaceName declaration = trail.append (addNamespaceName {} declaration) := by
  simp [addNamespaceName, append]

theorem add_usings_eq (trail : Trail) (container : Node) :
    trail.addUsings container = trail.append (addUsings {} container) := by
  simp [addUsings, append, Usings.add_from_eq trail.usings, Usings.level]

theorem add_type_eq (trail : Trail) (declaration : Node) :
    trail.addType declaration = trail.append (addType {} declaration) := by
  unfold addType
  split <;> simp [append]

def addFileScoped (trail : Trail) (child : Node) : Trail :=
  (trail.addNamespaceName child).addUsings child

theorem add_file_scoped_eq (trail : Trail) (child : Node) :
    trail.addFileScoped child = trail.append (addFileScoped {} child) := by
  unfold addFileScoped
  rw [add_usings_eq, add_namespace_name_eq, append_assoc, ← add_usings_eq]

theorem foldl_eq_append {step : Trail → Node → Trail}
    (adds : ∀ trail node, step trail node = trail.append (step {} node)) (trail : Trail)
    (nodes : List Node) : nodes.foldl step trail = trail.append (nodes.foldl step {}) := by
  induction nodes generalizing trail with
  | nil => simp
  | cons node rest ih =>
      rw [List.foldl_cons, List.foldl_cons, ih, ih (step {} node), adds trail, append_assoc]

theorem pass_eq (trail : Trail) (ancestor : Node) :
    trail.pass ancestor = trail.append (pass {} ancestor) := by
  unfold pass
  split
  · cases ancestor.body? with
    | none => exact trail.add_namespace_name_eq ancestor
    | some body =>
        dsimp only
        rw [add_usings_eq, add_namespace_name_eq, append_assoc, ← add_usings_eq]
  · have scopes := foldl_eq_append add_file_scoped_eq
    refine (scopes (trail.addUsings ancestor) _).trans ?_
    rw [add_usings_eq, append_assoc]
    exact congrArg trail.append (scopes (addUsings {} ancestor) _).symm
  · simp [append]
  · simp [append]
  · split
    · exact trail.add_type_eq ancestor
    · simp

end Trail

def trailFrom (node : Node) : Trail :=
  (node :: node.ancestors).foldl Trail.pass {}

theorem trail_from_eq {node parent : Node} (found : node.parent? = some parent) :
    trailFrom node = (Trail.pass {} node).append (trailFrom parent) := by
  unfold trailFrom
  rw [Node.ancestors_of_parent found, List.foldl_cons, Trail.foldl_eq_append Trail.pass_eq]

theorem scope_at_eq {node parent : Node} (found : node.parent? = some parent) :
    scopeAt node = (trailFrom parent).toScope := by
  unfold scopeAt trailFrom
  rw [Node.ancestors_of_parent found]

end ReleaseAudit.Inference
