import Mathlib.Data.List.Basic
import ReleaseAudit.Proofs.Declarations.Supertypes

/-!
# The table of extension methods

Extension methods are recorded by the position they have among the members of
their type, and a type may be declared in any number of parts. Each part adds
its members behind those that are there and records its own extension methods
from that point on. So however parts of different types come in between, the
table has every extension method once and nothing else.
-/

namespace ReleaseAudit.Declarations

set_option autoImplicit false

def MemberDecl.isExtensionNamed (name : String) (member : MemberDecl) : Bool :=
  member.isExtension && member.name == name

namespace Index

/-- Where the extension methods of a name are: key of the type and position in it. -/
def positionsNamed (index : Index) (name : String) : List (String × Nat) :=
  (index.extensions.filter fun extension => extension.name == name).map fun extension =>
    (extension.key, extension.position)

def ExtensionAt (index : Index) (name key : String) (position : Nat) : Prop :=
  ∃ decl member, index.get? key = some decl ∧ decl.members[position]? = some member ∧
    member.isExtension = true ∧ member.name = name

def membersUnder (index : Index) (key : String) : List MemberDecl :=
  ((index.get? key).map TypeDecl.members).getD []

theorem extension_at_iff {index : Index} {name key : String} {position : Nat} :
    index.ExtensionAt name key position ↔
      (index.membersUnder key)[position]?.any (MemberDecl.isExtensionNamed name) = true := by
  unfold ExtensionAt membersUnder
  cases index.get? key with
  | none => simp
  | some decl => simp [MemberDecl.isExtensionNamed, Option.any_eq_true]

theorem count_positions_named (index : Index) (name key : String) (position : Nat) :
    (index.positionsNamed name).count (key, position) =
      index.extensions.count ⟨name, key, position⟩ := by
  unfold positionsNamed
  induction index.extensions with
  | nil => rfl
  | cons extension rest ih =>
      obtain ⟨spelled, owner, place⟩ := extension
      by_cases named : spelled = name
      · subst named
        rw [List.filter_cons_of_pos (by simp), List.map_cons, List.count_cons, List.count_cons, ih]
        simp
      · rw [List.filter_cons_of_neg (by simpa using named), ih, List.count_cons_of_ne]
        simp [named]

def recordOf (owner : String) (position : Nat) (member : MemberDecl) : List Extension :=
  if member.isExtension then [⟨member.name, owner, position⟩] else []

theorem extensions_among_cons (owner : String) (offset : Nat) (member : MemberDecl)
    (rest : List MemberDecl) :
    extensionsAmong owner offset (member :: rest) =
      recordOf owner offset member ++ extensionsAmong owner (offset + 1) rest := by
  unfold extensionsAmong recordOf
  rw [List.zipIdx_cons, List.filterMap_cons]
  cases member.isExtension <;> rfl

theorem count_record_of (name key owner : String) (offset position : Nat) (member : MemberDecl) :
    (recordOf owner offset member).count ⟨name, key, position⟩ =
      if key = owner ∧ offset = position ∧ member.isExtensionNamed name = true then 1 else 0 := by
  unfold recordOf MemberDecl.isExtensionNamed
  by_cases extends' : member.isExtension
  · simp only [extends', if_true, List.count_singleton, Extension.mk.injEq, Bool.true_and,
      beq_iff_eq]
    grind
  · simp [extends']

/-- Members that start at some offset are recorded under their shifted positions. -/
theorem count_extensions_among (name key owner : String) (offset position : Nat)
    (members : List MemberDecl) :
    (extensionsAmong owner offset members).count ⟨name, key, position⟩ =
      if key = owner ∧ offset ≤ position ∧
          members[position - offset]?.any (MemberDecl.isExtensionNamed name) = true then 1
      else 0 := by
  induction members generalizing offset with
  | nil => simp [extensionsAmong]
  | cons member rest ih =>
      rw [extensions_among_cons, List.count_append, count_record_of, ih]
      -- the first member has the offset itself, and the others lie behind it
      rcases Nat.lt_trichotomy position offset with before | here | behind
      · have later : ¬ offset ≤ position ∧ ¬ offset + 1 ≤ position ∧ offset ≠ position := by omega
        simp [later]
      · subst here
        simp
      · have earlier : offset ≤ position ∧ offset + 1 ≤ position ∧ offset ≠ position := by omega
        have shifted : position - offset = position - (offset + 1) + 1 := by omega
        rw [shifted, List.getElem?_cons_succ]
        simp [earlier]

theorem members_under_insert (index : Index) (decl : TypeDecl) (key : String) :
    (index.insert decl).membersUnder key =
      index.membersUnder key ++ if key = decl.key then decl.members else [] := by
  rw [membersUnder, membersUnder, get_insert]
  by_cases same : key = decl.key
  · cases index.get? key <;> simp [same, TypeDecl.merge]
  · simp [same]

/-- The table has every extension method once, and nothing else. -/
def Exact (index : Index) : Prop :=
  ∀ (name key : String) (position : Nat),
    index.extensions.count ⟨name, key, position⟩ =
      if (index.membersUnder key)[position]?.any (MemberDecl.isExtensionNamed name) = true then 1
      else 0

/-- A part records exactly its own extension methods, behind the members that are there. -/
theorem Exact.insert {index : Index} (exact : index.Exact) (decl : TypeDecl) :
    (index.insert decl).Exact := by
  intro name key position
  have recorded : (index.insert decl).extensions =
      index.extensions ++
        extensionsAmong decl.key (index.membersUnder decl.key).length decl.members :=
    index.extensions_insert decl
  rw [recorded, List.count_append, exact name key position, count_extensions_among,
    members_under_insert]
  by_cases same : key = decl.key
  · subst same
    rw [if_pos rfl]
    by_cases old : position < (index.membersUnder decl.key).length
    · have notNew : ¬ (index.membersUnder decl.key).length ≤ position := by omega
      rw [List.getElem?_append_left old]
      simp [notNew]
    · have behind : (index.membersUnder decl.key).length ≤ position := by omega
      rw [List.getElem?_append_right behind, List.getElem?_eq_none behind]
      simp [behind]
  · simp [same]

theorem exact_of_decls (implicitUsings : List String) (decls : List TypeDecl) :
    (ofDecls implicitUsings decls).Exact := by
  refine List.foldlRecOn (motive := Exact) decls insert ?_ ?_
  · intro name key position
    simp [membersUnder, get?]
  · intro index exact decl _
    exact exact.insert decl

def partsUnder (decls : List TypeDecl) (key : String) : List TypeDecl :=
  decls.filter fun decl => decl.key == key

/-- What every part of a type appends to is the concatenation over its parts. -/
theorem appended_of_decls {α : Type} (view : Index → List α) (share : TypeDecl → List α)
    (key : String) (implicitUsings : List String)
    (empty : view { implicitUsings := implicitUsings } = [])
    (step : ∀ (index : Index) (decl : TypeDecl),
      view (index.insert decl) = view index ++ if key = decl.key then share decl else [])
    (decls : List TypeDecl) :
    view (ofDecls implicitUsings decls) = (partsUnder decls key).flatMap share := by
  have behind : ∀ index : Index,
      view (decls.foldl insert index) = view index ++ (partsUnder decls key).flatMap share := by
    induction decls with
    | nil => simp [partsUnder]
    | cons decl rest ih =>
        intro index
        rw [List.foldl_cons, ih, step, List.append_assoc]
        by_cases same : key = decl.key
        · simp [partsUnder, same]
        · have other : decl.key ≠ key := fun equal => same equal.symm
          simp [partsUnder, same, other]
  rw [ofDecls, behind, empty, List.nil_append]

theorem members_under_of_decls (implicitUsings : List String) (decls : List TypeDecl)
    (key : String) :
    (ofDecls implicitUsings decls).membersUnder key =
      (partsUnder decls key).flatMap TypeDecl.members :=
  appended_of_decls (fun index => index.membersUnder key) TypeDecl.members key implicitUsings rfl
    (fun index decl => index.members_under_insert decl key) decls

theorem bases_at_of_decls (implicitUsings : List String) (decls : List TypeDecl) (key : String) :
    (ofDecls implicitUsings decls).basesAt key = (partsUnder decls key).flatMap TypeDecl.bases :=
  appended_of_decls (fun index => index.basesAt key) TypeDecl.bases key implicitUsings rfl
    (fun index decl => index.bases_at_insert decl key) decls

theorem get_of_decls_eq_none_iff (implicitUsings : List String) (decls : List TypeDecl)
    (key : String) :
    (ofDecls implicitUsings decls).get? key = none ↔ partsUnder decls key = [] := by
  have behind : ∀ index : Index, (decls.foldl insert index).get? key = none ↔
      index.get? key = none ∧ partsUnder decls key = [] := by
    induction decls with
    | nil => simp [partsUnder]
    | cons decl rest ih =>
        intro index
        rw [List.foldl_cons, ih, get_insert]
        by_cases same : key = decl.key
        · simp [partsUnder, same]
        · have other : decl.key ≠ key := fun equal => same equal.symm
          simp [partsUnder, same, other]
  rw [ofDecls, behind]
  simp [get?]

end Index

open Index (ofDecls partsUnder)

/-- However the parts of types are entered one after the other, the table has each extension
method exactly once, at its place among the members of its type, and no other entry. The members
and bases of a type are those of its parts in order. Recording the bases and supertypes changes
none of this. -/
theorem extensions_of_decls_exact (implicitUsings : List String) (decls : List TypeDecl) :
    (∀ (name key : String) (position : Nat),
      ((ofDecls implicitUsings decls).ExtensionAt name key position →
        ((ofDecls implicitUsings decls).positionsNamed name).count (key, position) = 1) ∧
      (¬ (ofDecls implicitUsings decls).ExtensionAt name key position →
        (key, position) ∉ (ofDecls implicitUsings decls).positionsNamed name)) ∧
    (∀ key, ((ofDecls implicitUsings decls).get? key = none ↔ partsUnder decls key = []) ∧
      ∀ entry, (ofDecls implicitUsings decls).get? key = some entry →
        entry.members = (partsUnder decls key).flatMap TypeDecl.members ∧
        entry.bases = (partsUnder decls key).flatMap TypeDecl.bases) ∧
    (∀ key, ((ofDecls implicitUsings decls).finalize.get? key).map TypeDecl.members =
        ((ofDecls implicitUsings decls).get? key).map TypeDecl.members ∧
      ((ofDecls implicitUsings decls).finalize.get? key).map TypeDecl.bases =
        ((ofDecls implicitUsings decls).get? key).map TypeDecl.bases) ∧
    (ofDecls implicitUsings decls).finalize.extensions =
      (ofDecls implicitUsings decls).extensions := by
  refine ⟨?_, ?_, ?_, rfl⟩
  · intro name key position
    have count := Index.exact_of_decls implicitUsings decls name key position
    rw [← Index.count_positions_named] at count
    rw [Index.extension_at_iff]
    constructor
    · intro here
      rw [count, if_pos here]
    · intro nothing
      rw [← List.count_eq_zero, count, if_neg nothing]
  · intro key
    refine ⟨Index.get_of_decls_eq_none_iff implicitUsings decls key, ?_⟩
    intro entry found
    have members := Index.members_under_of_decls implicitUsings decls key
    have bases := Index.bases_at_of_decls implicitUsings decls key
    rw [Index.membersUnder, found] at members
    rw [Index.basesAt, found] at bases
    exact ⟨members, bases⟩
  · intro key
    rw [Index.get_finalize, Option.map_map, Option.map_map]
    exact ⟨rfl, rfl⟩

def extensionMethod (name : String) : MemberDecl :=
  ⟨.method, name, none, [], some [⟨none, false, false⟩], true, true, none⟩

def sortField : MemberDecl :=
  ⟨.field, "Sort", none, [], none, true, false, none⟩

/-- Three parts of one class with another class in between. -/
def extensionParts : List TypeDecl :=
  [{ plainClass "A" [] with members := [sortField, extensionMethod "Sort"] },
    { plainClass "B" ["A"] with members := [extensionMethod "Sort"] },
    { plainClass "A" ["B"] with members := [extensionMethod "Map", extensionMethod "Sort"] },
    { plainClass "A" ["C"] with members := [extensionMethod "Sort"] }]

theorem extensions_of_decls_exact_parts :
    (ofDecls [] extensionParts).ExtensionAt "Sort" "A" 3 ∧
    ((ofDecls [] extensionParts).positionsNamed "Sort").count ("A", 3) = 1 ∧
    ¬ (ofDecls [] extensionParts).ExtensionAt "Sort" "A" 0 ∧
    ("A", 0) ∉ (ofDecls [] extensionParts).positionsNamed "Sort" := by
  have third : (ofDecls [] extensionParts).ExtensionAt "Sort" "A" 3 :=
    Index.extension_at_iff.mpr (by decide +kernel)
  have field : ¬ (ofDecls [] extensionParts).ExtensionAt "Sort" "A" 0 := by
    rw [Index.extension_at_iff]
    decide +kernel
  have exact := (extensions_of_decls_exact [] extensionParts).1
  exact ⟨third, (exact "Sort" "A" 3).1 third, field, (exact "Sort" "A" 0).2 field⟩

end ReleaseAudit.Declarations
