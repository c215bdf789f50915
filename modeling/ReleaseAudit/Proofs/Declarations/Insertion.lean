import Mathlib.Data.List.Basic
import ReleaseAudit.Declarations.Index

/-!
# Entering declarations into the table

What the table answers after a declaration has been entered. The first
declaration of a key gives the heading; bases, members and extension methods
are appended. Extension methods are recorded by position, and positions stay
good since members are only appended.
-/

namespace ReleaseAudit.Declarations

set_option autoImplicit false

open ReleaseAudit.Types (TypeRef)

namespace TypeDecl

def merge (entry part : TypeDecl) : TypeDecl :=
  { entry with
    bases := entry.bases ++ part.bases
    members := entry.members ++ part.members }

/-- What further parts do not add to. -/
def heading (decl : TypeDecl) : TypeDecl :=
  { decl with bases := [], members := [] }

def membersNamed (decl : TypeDecl) (name : String) : List MemberDecl :=
  decl.members.filter fun member => member.name == name

def extensionsNamed (decl : TypeDecl) (name : String) : List (String × MemberDecl) :=
  (decl.members.filter fun member => member.isExtension && member.name == name).map
    (Prod.mk decl.key)

end TypeDecl

namespace Index

theorem key_of_get {index : Index} {key : String} {decl : TypeDecl}
    (found : index.get? key = some decl) : decl.key = key := by
  unfold get? at found
  exact eq_of_beq (List.find?_some found :)

theorem mem_keys_iff {index : Index} {key : String} :
    key ∈ index.keys ↔ (index.get? key).isSome = true := by
  simp [keys, get?]

theorem get_map_types (index : Index) (change : TypeDecl → TypeDecl)
    (keeps : ∀ decl, (change decl).key = decl.key) (key : String) :
    get? { index with types := index.types.map change } key = (index.get? key).map change := by
  have tests : (fun decl => decl.key == key) ∘ change = fun decl => decl.key == key := by
    funext decl
    simp only [Function.comp_apply, keeps]
  rw [get?, List.find?_map, tests]
  rfl

theorem get_insert (index : Index) (decl : TypeDecl) (key : String) :
    (index.insert decl).get? key =
      if key = decl.key then
        some (((index.get? key).map fun entry => entry.merge decl).getD decl)
      else index.get? key := by
  unfold insert
  split
  · next existing found =>
      have changed := index.get_map_types
        (fun entry => if entry.key = decl.key then entry.merge decl else entry)
        (by intro entry; split <;> rfl) key
      refine changed.trans ?_
      by_cases same : key = decl.key
      · subst same
        rw [if_pos rfl, found]
        simp [key_of_get found]
      · rw [if_neg same]
        cases entry : index.get? key with
        | none => rfl
        | some entry' =>
            have other : entry'.key ≠ decl.key := by rwa [key_of_get entry]
            simp [other]
  · next missing =>
      have added : get? { index with
          types := index.types ++ [decl]
          extensions := index.extensions ++ extensionsAmong decl.key 0 decl.members } key =
          (index.get? key).or ([decl].find? fun entry => entry.key == key) := List.find?_append
      rw [added]
      by_cases same : key = decl.key
      · subst same
        simp [missing]
      · have other : decl.key ≠ key := fun equal => same equal.symm
        simp [same, other]

def headingAt? (index : Index) (key : String) : Option TypeDecl :=
  (index.get? key).map TypeDecl.heading

def basesAt (index : Index) (key : String) : List TypeRef :=
  ((index.get? key).map TypeDecl.bases).getD []

def membersAt (index : Index) (key name : String) : List MemberDecl :=
  ((index.get? key).map fun decl => decl.membersNamed name).getD []

theorem heading_at_insert (index : Index) (decl : TypeDecl) (key : String) :
    (index.insert decl).headingAt? key =
      (index.headingAt? key).or (if key = decl.key then some decl.heading else none) := by
  rw [headingAt?, headingAt?, get_insert]
  by_cases same : key = decl.key
  · cases index.get? key <;> simp [same, TypeDecl.heading, TypeDecl.merge]
  · simp [same]

theorem bases_at_insert (index : Index) (decl : TypeDecl) (key : String) :
    (index.insert decl).basesAt key =
      index.basesAt key ++ if key = decl.key then decl.bases else [] := by
  rw [basesAt, basesAt, get_insert]
  by_cases same : key = decl.key
  · cases index.get? key <;> simp [same, TypeDecl.merge]
  · simp [same]

theorem members_at_insert (index : Index) (decl : TypeDecl) (key name : String) :
    (index.insert decl).membersAt key name =
      index.membersAt key name ++ if key = decl.key then decl.membersNamed name else [] := by
  rw [membersAt, membersAt, get_insert]
  by_cases same : key = decl.key
  · cases index.get? key <;> simp [same, TypeDecl.merge, TypeDecl.membersNamed]
  · simp [same]

@[simp] theorem implicit_usings_insert (index : Index) (decl : TypeDecl) :
    (index.insert decl).implicitUsings = index.implicitUsings := by
  unfold insert
  split <;> rfl

def extensionAt? (index : Index) (extension : Extension) : Option (String × MemberDecl) :=
  ((index.get? extension.key).bind fun decl => decl.members[extension.position]?).map
    (Prod.mk extension.key)

def extensionsNamed (index : Index) (name : String) : List (String × MemberDecl) :=
  (index.extensions.filter fun extension => extension.name == name).filterMap index.extensionAt?

/-- Every recorded extension method has its position among the members of its type. -/
def Sound (index : Index) : Prop :=
  ∀ extension ∈ index.extensions, (index.extensionAt? extension).isSome = true

theorem extensions_insert (index : Index) (decl : TypeDecl) :
    (index.insert decl).extensions = index.extensions ++
      extensionsAmong decl.key (((index.get? decl.key).map TypeDecl.members).getD []).length
        decl.members := by
  unfold insert
  split
  · next existing found => simp [found]
  · next missing => simp [missing]

theorem extension_at_insert {index : Index} {extension : Extension} (decl : TypeDecl)
    (taken : (index.extensionAt? extension).isSome = true) :
    (index.insert decl).extensionAt? extension = index.extensionAt? extension := by
  unfold extensionAt? at *
  rw [get_insert]
  by_cases same : extension.key = decl.key
  · rw [if_pos same]
    cases entry : index.get? extension.key with
    | none => simp [entry] at taken
    | some existing =>
        have inside : extension.position < existing.members.length := by
          simpa [entry] using taken
        simp [TypeDecl.merge, List.getElem?_append_left inside]
  · rw [if_neg same]

theorem filter_map_extensions_among (index : Index) (key name : String)
    (before members : List MemberDecl) (decl : TypeDecl) (found : index.get? key = some decl)
    (listed : decl.members = before ++ members) :
    ((extensionsAmong key before.length members).filter
        fun extension => extension.name == name).filterMap index.extensionAt? =
      (members.filter fun member => member.isExtension && member.name == name).map
        (Prod.mk key) := by
  -- Members are taken one by one, each moving over to the members before.
  induction members generalizing before with
  | nil => rfl
  | cons member rest ih =>
      have rests := ih (before ++ [member]) (by simpa using listed)
      have here : index.extensionAt? ⟨member.name, key, before.length⟩ = some (key, member) := by
        simp [extensionAt?, found, listed]
      unfold extensionsAmong at rests ⊢
      rw [List.length_append, List.length_singleton] at rests
      rw [List.zipIdx_cons, List.filterMap_cons]
      by_cases extends' : member.isExtension
      · by_cases named : member.name = name
        · subst named
          simp [extends', here, rests]
        · simp [extends', named, rests]
      · simp [extends', rests]

theorem extensions_named_insert {index : Index} (sound : index.Sound) (decl : TypeDecl)
    (name : String) :
    (index.insert decl).extensionsNamed name =
      index.extensionsNamed name ++ decl.extensionsNamed name := by
  have kept : (index.extensions.filter fun extension => extension.name == name).filterMap
      (index.insert decl).extensionAt? = index.extensionsNamed name := by
    apply List.filterMap_congr
    intro extension member
    exact extension_at_insert decl (sound extension (List.mem_filter.mp member).1)
  have entry := get_insert index decl decl.key
  rw [if_pos rfl] at entry
  have added := filter_map_extensions_among (index.insert decl) decl.key name
    (((index.get? decl.key).map TypeDecl.members).getD []) decl.members _ entry
    (by cases index.get? decl.key <;> simp [TypeDecl.merge])
  rw [extensionsNamed, extensions_insert, List.filter_append, List.filterMap_append, kept, added]
  rfl

theorem sound_insert {index : Index} (sound : index.Sound) (decl : TypeDecl) :
    (index.insert decl).Sound := by
  intro extension member
  rw [extensions_insert, List.mem_append] at member
  rcases member with old | new
  · rw [extension_at_insert decl (sound extension old)]
    exact sound extension old
  · unfold extensionsAmong at new
    obtain ⟨⟨declared, position⟩, listed, made⟩ := List.mem_filterMap.mp new
    obtain ⟨_, same⟩ := Option.ite_none_right_eq_some.mp made
    cases same
    have bounds := List.mem_zipIdx listed
    unfold extensionAt?
    rw [get_insert, if_pos rfl]
    cases entry : index.get? decl.key <;>
      simp_all [TypeDecl.merge]

end Index

end ReleaseAudit.Declarations
