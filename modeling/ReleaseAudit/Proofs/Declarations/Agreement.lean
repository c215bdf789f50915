import Mathlib.Data.List.Basic
import ReleaseAudit.Proofs.Declarations.Insertion

/-!
# Tables that give the same answers

Two tables agree when they hold the same headings, bases, members of each name
and extension methods of each name. The order of their types and of members of
different names is left open. Agreeing tables answer every lookup alike, and
agree still once bases and supertypes are recorded.
-/

namespace ReleaseAudit.Declarations

set_option autoImplicit false

open ReleaseAudit.Types (TypeRef TypeSymbol)

/-- The search depends on which keys are known, not on how they are listed. -/
theorem breadth_first_congr {keys others : List String} (same : ∀ key, key ∈ keys ↔ key ∈ others)
    (next : String → List String) (queue seen : List String) :
    breadthFirst keys next queue seen = breadthFirst others next queue seen := by
  fun_induction breadthFirst keys next queue seen with
  | case1 => rw [breadthFirst]
  | case2 key queue seen fresh ih =>
      have freshToo : key ∉ seen ∧ key ∈ others := ⟨fresh.1, (same key).mp fresh.2⟩
      rw [breadthFirst, dif_pos freshToo, ih]
  | case3 key queue seen old ih =>
      have oldToo : ¬(key ∉ seen ∧ key ∈ others) := fun fresh =>
        old ⟨fresh.1, (same key).mpr fresh.2⟩
      rw [breadthFirst, dif_neg oldToo, ih]

namespace Index

structure Agree (left right : Index) : Prop where
  headings : ∀ key, left.headingAt? key = right.headingAt? key
  bases : ∀ key, left.basesAt key = right.basesAt key
  members : ∀ key name, left.membersAt key name = right.membersAt key name
  extensions : ∀ name, left.extensionsNamed name = right.extensionsNamed name
  implicitUsings : left.implicitUsings = right.implicitUsings

namespace Agree

variable {left right : Index}

theorem symm (agree : Agree left right) : Agree right left where
  headings key := (agree.headings key).symm
  bases key := (agree.bases key).symm
  members key name := (agree.members key name).symm
  extensions name := (agree.extensions name).symm
  implicitUsings := agree.implicitUsings.symm

theorem trans {middle : Index} (first : Agree left middle) (second : Agree middle right) :
    Agree left right where
  headings key := (first.headings key).trans (second.headings key)
  bases key := (first.bases key).trans (second.bases key)
  members key name := (first.members key name).trans (second.members key name)
  extensions name := (first.extensions name).trans (second.extensions name)
  implicitUsings := first.implicitUsings.trans second.implicitUsings

/-- What reads no members is the same in both tables. -/
theorem map_get (agree : Agree left right) {α : Type} {read : TypeDecl → α}
    (reads : ∀ decl, read decl = read { decl with members := [] }) (key : String) :
    (left.get? key).map read = (right.get? key).map read := by
  have headings := agree.headings key
  have bases := agree.bases key
  unfold headingAt? at headings
  unfold basesAt at bases
  cases inLeft : left.get? key with
  | none =>
      have missing : right.get? key = none := by simpa [inLeft] using headings.symm
      rw [missing]
  | some decl =>
      cases inRight : right.get? key with
      | none => simp [inLeft, inRight] at headings
      | some other =>
          simp only [inLeft, inRight, Option.map_some, Option.some.injEq, TypeDecl.heading,
            Option.getD_some] at headings bases
          have same : { decl with members := [] } = { other with members := [] } := by
            cases decl
            cases other
            simp_all
          simp only [Option.map_some]
          rw [reads decl, reads other, same]

theorem is_some_get (agree : Agree left right) (key : String) :
    (left.get? key).isSome = (right.get? key).isSome := by
  have known : (left.get? key).map (fun _ => ()) = (right.get? key).map fun _ => () :=
    agree.map_get (fun _ => rfl) key
  simpa using congrArg Option.isSome known

theorem readings (agree : Agree left right) (name : String) (scope : NameScope) :
    left.readings name scope = right.readings name scope := by
  have outer : (scope.enclosingTypes.reverse.filterMap left.get?).map
      (fun outer => outer.fullName ++ "." ++ name) =
      (scope.enclosingTypes.reverse.filterMap right.get?).map
        (fun outer => outer.fullName ++ "." ++ name) := by
    rw [List.map_filterMap, List.map_filterMap]
    exact List.filterMap_congr fun key _ => agree.map_get (fun _ => rfl) key
  unfold Index.readings
  rw [outer, agree.implicitUsings]

theorem lookup_key (agree : Agree left right) : left.lookupKey? = right.lookupKey? := by
  funext name arity scope
  unfold Index.lookupKey?
  rw [agree.readings, funext agree.is_some_get]

theorem symbol_for (agree : Agree left right) : left.symbolFor? = right.symbolFor? := by
  funext key typeArguments
  exact agree.map_get (fun _ => rfl) key

mutual

theorem resolve_apply (agree : Agree left right) (scope : NameScope) (bindings : Substitution)
    (written : TypeRef) :
    left.resolve? scope bindings written = right.resolve? scope bindings written := by
  match written with
  | ⟨name, args, array⟩ =>
      unfold Index.resolve?
      rw [agree.resolve_all scope bindings args, agree.symbol_for, agree.lookup_key]

theorem resolve_all (agree : Agree left right) (scope : NameScope) (bindings : Substitution)
    (args : List TypeRef) :
    resolve?.resolveAll left scope bindings args =
      resolve?.resolveAll right scope bindings args := by
  match args with
  | [] => rfl
  | arg :: rest =>
      unfold resolve?.resolveAll
      rw [agree.resolve_apply scope bindings arg, agree.resolve_all scope bindings rest]

end

theorem resolve (agree : Agree left right) : left.resolve? = right.resolve? := by
  funext scope bindings written
  exact agree.resolve_apply scope bindings written

theorem mem_keys (agree : Agree left right) (key : String) :
    key ∈ left.keys ↔ key ∈ right.keys := by
  rw [mem_keys_iff, mem_keys_iff, agree.is_some_get key]

theorem base_keys_of (agree : Agree left right) : left.baseKeysOf = right.baseKeysOf := by
  funext key
  unfold Index.baseKeysOf
  rw [agree.map_get fun _ => rfl]

theorem reached (agree : Agree left right) (queue : List String) :
    breadthFirst left.keys left.baseKeysOf queue [] =
      breadthFirst right.keys right.baseKeysOf queue [] := by
  rw [breadth_first_congr agree.mem_keys, agree.base_keys_of]

theorem bases_of (agree : Agree left right) : left.basesOf = right.basesOf := by
  funext decl
  unfold Index.basesOf
  rw [agree.lookup_key]

theorem supertypes_of (agree : Agree left right) : left.supertypesOf = right.supertypesOf := by
  funext decl
  unfold Index.supertypesOf
  rw [agree.reached, funext fun key => agree.map_get (fun _ => rfl) key]

/-- Changing declarations alike keeps the agreement, if bases and members stay. -/
theorem map_types (agree : Agree left right) {change : TypeDecl → TypeDecl}
    (keepsKey : ∀ decl, (change decl).key = decl.key)
    (keepsBases : ∀ decl, (change decl).bases = decl.bases)
    (keepsMembers : ∀ decl, (change decl).members = decl.members)
    (reads : ∀ decl, (change decl).heading = (change { decl with members := [] }).heading) :
    Agree { left with types := left.types.map change }
      { right with types := right.types.map change } := by
  have found := fun (index : Index) => index.get_map_types change keepsKey
  have kept : ∀ index : Index,
      extensionAt? { index with types := index.types.map change } = index.extensionAt? := by
    intro index
    funext extension
    unfold extensionAt?
    rw [found]
    cases index.get? extension.key <;> simp [keepsMembers]
  constructor
  case headings =>
    intro key
    simp only [headingAt?, found, Option.map_map]
    exact agree.map_get reads key
  case bases =>
    intro key
    simp only [basesAt, found, Option.map_map, Function.comp_def, keepsBases]
    exact agree.bases key
  case members =>
    intro key name
    simp only [membersAt, found, Option.map_map, Function.comp_def, TypeDecl.membersNamed,
      keepsMembers]
    exact agree.members key name
  case extensions =>
    intro name
    simp only [extensionsNamed, kept]
    exact agree.extensions name
  case implicitUsings => exact agree.implicitUsings

theorem link_bases (agree : Agree left right) : Agree left.linkBases right.linkBases := by
  have same : left.withBases = right.withBases := by
    funext decl
    unfold withBases
    rw [agree.bases_of]
  unfold Index.linkBases
  rw [same]
  exact agree.map_types (fun _ => rfl) (fun _ => rfl) (fun _ => rfl) fun _ => rfl

theorem close_supertypes (agree : Agree left right) :
    Agree left.closeSupertypes right.closeSupertypes := by
  have same : left.withSupertypes = right.withSupertypes := by
    funext decl
    unfold withSupertypes
    rw [agree.supertypes_of]
  unfold Index.closeSupertypes
  rw [same]
  exact agree.map_types (fun _ => rfl) (fun _ => rfl) (fun _ => rfl) fun _ => rfl

theorem finalize (agree : Agree left right) : Agree left.finalize right.finalize :=
  agree.link_bases.close_supertypes

end Agree

theorem map_preferred {α β : Type} (change : α → β) (test : β → Bool) (candidates : List α) :
    (preferred? (test ∘ change) candidates).map change =
      preferred? test (candidates.map change) := by
  unfold preferred?
  rw [Option.map_or, List.find?_map, List.head?_map]

def headed (found : TypeDecl × MemberDecl) : TypeDecl × MemberDecl :=
  (found.1.heading, found.2)

theorem map_headed_members_named (index : Index) (key name : String)
    (wanted : MemberDecl → Bool) :
    (index.membersNamed key name wanted).map headed =
      (breadthFirst index.keys index.baseKeysOf [key] []).flatMap fun key =>
        (index.headingAt? key).toList.flatMap fun heading =>
          ((index.membersAt key name).filter wanted).map (Prod.mk heading) := by
  unfold membersNamed lineage
  generalize breadthFirst index.keys index.baseKeysOf [key] [] = reached
  induction reached with
  | nil => rfl
  | cons key rest ih =>
      rw [List.flatMap_cons, ← ih, List.filterMap_cons]
      cases entry : index.get? key with
      | none => simp [headingAt?, entry]
      | some decl =>
          simp [headingAt?, membersAt, entry, TypeDecl.membersNamed, headed, List.filter_filter,
            Bool.and_comm, Function.comp_def]

theorem map_headed_find_extension (index : Index) (name : String) (receiver : TypeSymbol)
    (count : Nat) :
    (index.findExtension? name receiver count).map headed =
      preferred? (fun found => found.2.accepts (count + 1))
        ((index.extensionsNamed name).filterMap fun extension =>
          (index.headingAt? extension.1).bind fun heading =>
            if index.appliesTo receiver heading extension.2 then some (heading, extension.2)
            else none) := by
  refine (map_preferred headed (fun found => found.2.accepts (count + 1)) _).trans ?_
  congr 1
  unfold extensionsNamed
  rw [List.map_filterMap, List.filterMap_filterMap, List.filterMap_filter]
  refine List.filterMap_congr fun extension _ => ?_
  by_cases named : (extension.name == name) = true
  · unfold extensionAt? headingAt?
    rw [if_pos named, if_pos named]
    cases entry : index.get? extension.key with
    | none => rfl
    | some decl =>
        cases held : decl.members[extension.position]? with
        | none => simp [held]
        | some member =>
            have same : index.appliesTo receiver decl.heading member =
                index.appliesTo receiver decl member := rfl
            by_cases applies : index.appliesTo receiver decl member = true <;>
              simp [held, entry, same, applies, headed]
  · rw [if_neg named, if_neg named]
    rfl

namespace Agree

variable {left right : Index}

theorem map_headed_find_member (agree : Agree left right) (key name : String)
    (wanted : MemberDecl → Bool) (count : Option Nat) :
    (left.findMember? key name wanted count).map headed =
      (right.findMember? key name wanted count).map headed := by
  have split := fun (index : Index) => map_preferred headed
    (fun found => count.all found.2.accepts) (index.membersNamed key name wanted)
  refine (split left).trans (Eq.trans ?_ (split right).symm)
  simp only [map_headed_members_named, agree.reached, agree.headings, agree.members]

theorem map_find_member (agree : Agree left right) {α : Type} {read : TypeDecl × MemberDecl → α}
    (reads : ∀ found, read found = read (headed found)) (key name : String)
    (wanted : MemberDecl → Bool) (count : Option Nat) :
    (left.findMember? key name wanted count).map read =
      (right.findMember? key name wanted count).map read := by
  have through : read = read ∘ headed := funext reads
  rw [through, ← Option.map_map, ← Option.map_map, agree.map_headed_find_member]

theorem bind_find_member (agree : Agree left right) {α : Type}
    {read : TypeDecl × MemberDecl → Option α} (reads : ∀ found, read found = read (headed found))
    (key name : String) (wanted : MemberDecl → Bool) (count : Option Nat) :
    (left.findMember? key name wanted count).bind read =
      (right.findMember? key name wanted count).bind read := by
  have through : read = read ∘ headed := funext reads
  rw [through, ← Option.bind_map, ← Option.bind_map, agree.map_headed_find_member]

theorem applies_to (agree : Agree left right) : left.appliesTo = right.appliesTo := by
  funext receiver decl member
  unfold Index.appliesTo
  rw [agree.resolve]

theorem map_find_extension (agree : Agree left right) {α : Type}
    {read : TypeDecl × MemberDecl → α} (reads : ∀ found, read found = read (headed found))
    (name : String) (receiver : TypeSymbol) (count : Nat) :
    (left.findExtension? name receiver count).map read =
      (right.findExtension? name receiver count).map read := by
  have through : read = read ∘ headed := funext reads
  rw [through, ← Option.map_map, ← Option.map_map, map_headed_find_extension,
    map_headed_find_extension, agree.extensions, agree.applies_to, funext agree.headings]

end Agree

end Index

end ReleaseAudit.Declarations
