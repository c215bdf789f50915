import ReleaseAudit.Inference.Model
import ReleaseAudit.Proofs.Declarations.Agreement

/-!
# Inference over agreeing tables

Inference asks the table for keys, symbols, written types, members and
extension methods, and of a member's type it reads the heading only. So agreeing
tables give every expression the same type and symbol.
-/

namespace ReleaseAudit.Inference

set_option autoImplicit false

open Declarations (Index MemberDecl NameScope TypeDecl)
open Declarations.Index (Agree headed)
open Source (Node)
open ReleaseAudit.Types (TypeRef TypeSymbol)

variable {left right : Index}

theorem written_at_congr (agree : Agree left right) : writtenAt? left = writtenAt? right := by
  funext node
  unfold writtenAt?
  rw [agree.resolve]

theorem named_type_congr (agree : Agree left right) : namedType? left = namedType? right := by
  funext node
  unfold namedType?
  rw [written_at_congr agree]

theorem declared_at_congr (agree : Agree left right) : declaredAt? left = declaredAt? right := by
  funext node
  unfold declaredAt?
  rw [written_at_congr agree]

theorem enclosing_type_symbol_congr (agree : Agree left right) :
    enclosingTypeSymbol? left = enclosingTypeSymbol? right := by
  funext node
  unfold enclosingTypeSymbol?
  rw [agree.symbol_for]

theorem parameter_name_congr (agree : Agree left right) :
    parameterName left = parameterName right := by
  funext scope bindings type
  unfold parameterName
  rw [agree.resolve]

theorem bind_call_congr (agree : Agree left right) : bindCall left = bindCall right := by
  funext decl member receiver typeArguments isExtension
  unfold bindCall
  rw [agree.symbol_for, agree.resolve, parameter_name_congr agree]

theorem explicit_type_arguments_congr (agree : Agree left right) :
    explicitTypeArguments left = explicitTypeArguments right := by
  funext name scope
  unfold explicitTypeArguments
  rw [agree.resolve]

theorem local_function_call_congr (agree : Agree left right) :
    localFunctionCall? left = localFunctionCall? right := by
  funext invocation name typeArguments
  unfold localFunctionCall?
  rw [agree.resolve, parameter_name_congr agree]

theorem map_enclosing_method (agree : Agree left right) {α : Type}
    {read : TypeDecl × MemberDecl → α} (reads : ∀ found, read found = read (headed found))
    (scope : NameScope) (name : String) (count : Nat) :
    (enclosingMethod? left scope name count).map read =
      (enclosingMethod? right scope name count).map read := by
  unfold enclosingMethod?
  rw [List.map_findSome?, List.map_findSome?]
  congr 1
  funext key
  exact agree.map_find_member reads key name MemberDecl.isMethod (some count)

theorem map_imported_method (agree : Agree left right) {α : Type}
    {read : TypeDecl × MemberDecl → α} (reads : ∀ found, read found = read (headed found))
    (scope : NameScope) (name : String) (count : Nat) :
    (importedMethod? left scope name count).map read =
      (importedMethod? right scope name count).map read := by
  unfold importedMethod?
  rw [List.map_findSome?, List.map_findSome?]
  congr 1
  funext text
  simp only [Function.comp_apply, agree.lookup_key]
  cases TypeRef.parse? text with
  | none => rfl
  | some written =>
      cases found : right.lookupKey? written.name written.arity scope with
      | none => simp [found]
      | some key =>
          simpa [found] using agree.map_find_member reads key name _ (some count)

theorem map_unqualified (agree : Agree left right) {α : Type}
    {read : TypeDecl × MemberDecl → α} (reads : ∀ found, read found = read (headed found))
    (scope : NameScope) (name : String) (count : Nat) :
    ((enclosingMethod? left scope name count).or (importedMethod? left scope name count)).map
        read =
      ((enclosingMethod? right scope name count).or (importedMethod? right scope name count)).map
        read := by
  rw [Option.map_or, Option.map_or, map_enclosing_method agree reads,
    map_imported_method agree reads]

theorem call_on_eq (index : Index) (infer : Node → Option TypeSymbol) (receiver : Node)
    (name : String) (count : Nat) (typeArguments : List TypeSymbol) :
    callOn? index infer receiver name count typeArguments =
      match infer receiver with
      | some type =>
          ((index.findMember? type.key name MemberDecl.isMethod (some count)).map fun found =>
            bindCall index found.1 found.2 (some type) typeArguments false).or
          ((index.findExtension? name type count).map fun found =>
            bindCall index found.1 found.2 none typeArguments true)
      | none =>
          (namedType? index receiver).bind fun owner =>
            (index.findMember? owner.key name MemberDecl.isMethod (some count)).map fun found =>
              bindCall index found.1 found.2 (some owner) typeArguments false := by
  unfold callOn?
  cases infer receiver with
  | some type =>
      dsimp only
      cases index.findMember? type.key name MemberDecl.isMethod (some count) <;> rfl
  | none =>
      simp only [Option.map_eq_bind]
      rfl

theorem call_on_congr (agree : Agree left right) : callOn? left = callOn? right := by
  funext infer receiver name count typeArguments
  have members := fun (owner : TypeSymbol) =>
    agree.map_find_member
      (fun found => (rfl : bindCall right found.1 found.2 (some owner) typeArguments false = _))
      owner.key name MemberDecl.isMethod (some count)
  have extensions := fun (receiver : TypeSymbol) =>
    agree.map_find_extension
      (fun found => (rfl : bindCall right found.1 found.2 none typeArguments true = _))
      name receiver count
  rw [call_on_eq, call_on_eq, bind_call_congr agree, named_type_congr agree]
  simp only [members, extensions]

theorem resolve_call_congr (agree : Agree left right) : resolveCall? left = resolveCall? right := by
  funext infer invocation
  have unqualified := fun (scope : NameScope) (name : String) (count : Nat)
      (typeArguments : List TypeSymbol) =>
    map_unqualified agree
      (fun found => (rfl : bindCall right found.1 found.2 none typeArguments false = _))
      scope name count
  unfold resolveCall?
  rw [call_on_congr agree, bind_call_congr agree, explicit_type_arguments_congr agree,
    local_function_call_congr agree]
  simp only [unqualified]

namespace Binding

def headed : Binding → Binding
  | member decl found => member decl.heading found
  | binding => binding

end Binding

theorem map_headed_lookup (agree : Agree left right) (site : Node) (name : String) :
    (lookup? left site name).map Binding.headed = (lookup? right site name).map Binding.headed := by
  have members : (enclosingMember? left site name).map Binding.headed =
      (enclosingMember? right site name).map Binding.headed := by
    unfold enclosingMember?
    rw [List.map_findSome?, List.map_findSome?]
    congr 1
    funext key
    simp only [Function.comp_apply, Option.map_map]
    exact agree.map_find_member (fun _ => rfl) key name MemberDecl.isValue none
  unfold lookup?
  rw [Option.map_or, Option.map_or, members]

/-- What reads only the heading of a member's type is the same over both tables. -/
theorem bind_lookup (agree : Agree left right) {α : Type} {read : Binding → Option α}
    (reads : ∀ binding, read binding = read binding.headed) (site : Node) (name : String) :
    (lookup? left site name).bind read = (lookup? right site name).bind read := by
  have through : read = read ∘ Binding.headed := funext reads
  rw [through, ← Option.bind_map, ← Option.bind_map, map_headed_lookup agree]

section Step

variable (infer : Node → Option TypeSymbol)

theorem local_type_congr (agree : Agree left right) :
    localType? left infer = localType? right infer := by
  funext declarator site
  unfold localType?
  rw [written_at_congr agree]

theorem iteration_type_congr (agree : Agree left right) :
    iterationType? left infer = iterationType? right infer := by
  funext statement
  unfold iterationType?
  rw [written_at_congr agree]

theorem binding_type_congr (agree : Agree left right) :
    bindingType? left infer = bindingType? right infer := by
  funext binding site
  unfold bindingType?
  rw [local_type_congr infer agree, iteration_type_congr infer agree, declared_at_congr agree,
    agree.resolve]

theorem target_type_congr (agree : Agree left right) :
    targetType? left infer = targetType? right infer := by
  funext node
  unfold targetType?
  rw [declared_at_congr agree]

theorem accessed_member_eq (index : Index) (access : Node) :
    accessedMember? index infer access =
      ((access.child? .expression).bind (receiverType? index infer)).bind fun owner =>
        (access.child? .name).bind fun name =>
          (index.findMember? owner.key name.simpleName MemberDecl.isValue none).map
            (Prod.mk owner) := by
  unfold accessedMember?
  simp only [Option.map_eq_bind]
  rfl

theorem bind_accessed_member (agree : Agree left right) {α : Type}
    {read : TypeSymbol × TypeDecl × MemberDecl → Option α}
    (reads : ∀ owner found, read (owner, found) = read (owner, headed found)) (access : Node) :
    (accessedMember? left infer access).bind read =
      (accessedMember? right infer access).bind read := by
  have receivers : receiverType? left infer = receiverType? right infer := by
    funext receiver
    unfold receiverType?
    rw [named_type_congr agree]
  have members := fun (owner : TypeSymbol) (name : Node) =>
    agree.bind_find_member (reads owner) owner.key name.simpleName MemberDecl.isValue none
  rw [accessed_member_eq, accessed_member_eq, receivers]
  simp only [Option.bind_assoc, Option.bind_map, Function.comp_def, members]

theorem member_access_type_congr (agree : Agree left right) :
    memberAccessType? left infer = memberAccessType? right infer := by
  funext access
  unfold memberAccessType?
  rw [agree.resolve]
  exact bind_accessed_member infer agree (fun _ _ => rfl) access

theorem type_step_congr (agree : Agree left right) :
    typeStep? left infer = typeStep? right infer := by
  funext node
  have named := bind_lookup agree
    (fun binding =>
      (by cases binding <;> rfl : bindingType? right infer binding node =
        bindingType? right infer binding.headed node)) node node.text
  unfold typeStep?
  rw [written_at_congr agree, target_type_congr infer agree, resolve_call_congr agree,
    binding_type_congr infer agree, named, member_access_type_congr infer agree,
    enclosing_type_symbol_congr agree]

end Step

theorem type_at_congr (agree : Agree left right) (depth : Nat) :
    typeAt? left depth = typeAt? right depth := by
  induction depth with
  | zero => rfl
  | succ depth ih =>
      funext node
      unfold typeAt?
      rw [ih, type_step_congr _ agree]

theorem member_symbol_congr (agree : Agree left right) :
    memberSymbol left = memberSymbol right := by
  funext decl member
  unfold memberSymbol
  rw [agree.symbol_for]

theorem symbol_of_congr (agree : Agree left right) : symbolOf? left = symbolOf? right := by
  funext node
  have types : typeOf? left = typeOf? right := type_at_congr agree maxDepth
  have named : (lookup? left node node.text).map (bindingSymbol left node.text) =
      (lookup? right node node.text).map (bindingSymbol right node.text) := by
    have symbols : bindingSymbol left node.text = bindingSymbol right node.text := by
      funext binding
      unfold bindingSymbol
      rw [member_symbol_congr agree]
    rw [symbols, Option.map_eq_bind, Option.map_eq_bind]
    exact bind_lookup agree (fun binding => by cases binding <;> rfl) node node.text
  have accessed : (accessedMember? left (typeOf? right) node).map
      (fun found => memberSymbol right found.2.1 found.2.2) =
      (accessedMember? right (typeOf? right) node).map
        (fun found => memberSymbol right found.2.1 found.2.2) := by
    rw [Option.map_eq_bind, Option.map_eq_bind]
    exact bind_accessed_member _ agree (fun _ _ => rfl) node
  unfold symbolOf?
  rw [types, named, resolve_call_congr agree, member_symbol_congr agree, accessed]

theorem of_index_congr (agree : Agree left right) : Model.ofIndex left = Model.ofIndex right := by
  have types : typeOf? left = typeOf? right := type_at_congr agree maxDepth
  unfold Model.ofIndex
  rw [types, symbol_of_congr agree]

end ReleaseAudit.Inference
