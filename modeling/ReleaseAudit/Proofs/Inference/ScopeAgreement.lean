import Mathlib.Data.List.Nodup
import ReleaseAudit.Inference.Model
import ReleaseAudit.Proofs.Declarations.FileOrder
import ReleaseAudit.Proofs.Inference.Surroundings
import ReleaseAudit.Proofs.Source.Sample

/-!
# Stored scopes and scopes at nodes

The scope that is stored with a declaration and the scope at its members have
the same namespace and types around, and the directives of the same levels in
different orders. So they decide a name alike unless two levels disagree about
it.
-/

namespace ReleaseAudit.Inference

set_option autoImplicit false

open Declarations (Catalog Index TypeDecl TypeSite Usings documentSites)
open Source (Document Node)
open Source.Sample (aliasDirective classWith methodWith namespaceWith unit)

theorem map_scope_finalize (index : Index) (key : String) :
    (index.finalize.get? key).map TypeDecl.scope = (index.get? key).map TypeDecl.scope := by
  have linked : index.linkBases.get? key = (index.get? key).map index.withBases :=
    index.get_map_types index.withBases (fun _ => rfl) key
  have closed : index.finalize.get? key =
      (index.linkBases.get? key).map index.linkBases.withSupertypes :=
    index.linkBases.get_map_types index.linkBases.withSupertypes (fun _ => rfl) key
  rw [closed, linked, Option.map_map, Option.map_map]
  rfl

theorem exists_stored {catalog : Catalog} {documents : List Document} {document : Document}
    (inDocuments : document ∈ documents) {site : TypeSite}
    (inSites : site ∈ documentSites document) (new : catalog.toIndex.get? site.key = none)
    (only : ∀ other ∈ documents, ∀ again ∈ documentSites other, again.key = site.key →
      again = site) :
    ∃ decl params, (indexOf catalog documents).get? site.key = some decl ∧
      decl.scope = (site.header.inside params).scope := by
  have missing : catalog.toIndex.headingAt? site.key = none := Option.map_eq_none_iff.mpr new
  have heading := Index.heading_at_add_documents catalog.toIndex documents site.key
  rw [missing, Option.none_or,
    Declarations.find_some_header_in_of_only inDocuments inSites only] at heading
  obtain ⟨entry, found, same⟩ := Option.map_eq_some_iff.mp heading
  have scopes := map_scope_finalize (catalog.toIndex.addDocuments documents) site.key
  rw [found] at scopes
  obtain ⟨decl, stored, kept⟩ := Option.map_eq_some_iff.mp scopes
  have scope := congrArg TypeDecl.scope same
  exact ⟨decl, _, stored, kept.trans scope⟩

theorem scope_at_of_mem_document_sites {document : Document} {site : TypeSite}
    (inSites : site ∈ documentSites document) (unit : RegularUnit document.root)
    (regular : Regular site.node) {body member : Node} (found : site.node.body? = some body)
    (inBody : member ∈ body.children) :
    (scopeAt member).namespaceName = site.namespaceName ∧
    (scopeAt member).enclosingTypes = site.outer ++ [site.key] ∧
    (scopeAt member).usings =
      Usings.ofLevels (levelsFrom body ++ topLevels document.root) ∧
    site.usings = Usings.ofLevels (topLevels document.root ++ (levelsFrom body).reverse) := by
  obtain ⟨around, container, name, within, inContainer, isType, named, placed⟩ :=
    placed_of_mem_document_sites inSites
  have outside := regular.parent (Node.parent_of_mem_parts inContainer)
  have matched := (matches_of_within rfl unit within outside).enter_type regular inContainer isType
    named found
  rw [← placed] at matched
  have namespaceName : site.namespaceName = around.namespaceName := by rw [placed]; rfl
  have outer : site.outer = around.outer := by rw [placed]; rfl
  have usings : site.usings = around.usings := by rw [placed]; rfl
  rw [scope_at_eq (Node.parent_of_mem_children inBody)]
  refine ⟨?_, ?_, matched.up, ?_⟩
  · exact matched.namespaceName.symm.trans namespaceName.symm
  · rw [outer]
    have keys := matched.outer
    rw [matched.namespaceName] at keys
    exact keys.symm
  · rw [usings]
    exact matched.down

section Lookups

variable (index : Index) (name : String) (arity : Nat) (top inner : List Usings)

/-- Directives as a stored scope asks them: aliases from the inner levels outward, then imports
from the outer levels inward. -/
def storedKey? : Option String :=
  (index.aliasKey? name arity (inner ++ top.reverse)).or
    ((index.importKey? name arity (top ++ inner.reverse)).or (index.implicitKey? name arity))

/-- Directives as the scope at a node asks them: aliases from the outer levels inward, then
imports from the inner levels outward. -/
def gatheredKey? : Option String :=
  (index.aliasKey? name arity (top.reverse ++ inner.reverse)).or
    ((index.importKey? name arity (inner ++ top)).or (index.implicitKey? name arity))

/-- No two levels have different aliases for the name or import different types of it. -/
def Undisputed (levels : List Usings) : Prop :=
  ∀ level ∈ levels, ∀ other ∈ levels,
    (∀ target ∈ Index.aliasTarget? level name, ∀ again ∈ Index.aliasTarget? other name,
      target = again) ∧
    ∀ key ∈ index.importedKey? name arity level, ∀ again ∈ index.importedKey? name arity other,
      key = again

variable {index name arity top inner}

theorem stored_key_eq_gathered_key (undisputed : Undisputed index name arity (top ++ inner)) :
    storedKey? index name arity top inner = gatheredKey? index name arity top inner := by
  have order : (top ++ inner).Perm (inner ++ top) := List.perm_append_comm
  have aliases : ∀ levels : List Usings, (top ++ inner).Perm levels →
      ((top ++ inner).findSome? fun level => Index.aliasTarget? level name) =
        levels.findSome? fun level => Index.aliasTarget? level name :=
    fun levels => Declarations.find_some_eq_of_perm fun level inLevels other inOthers =>
      (undisputed level inLevels other inOthers).1
  have imports : ∀ levels : List Usings, (top ++ inner).Perm levels →
      (top ++ inner).findSome? (index.importedKey? name arity) =
        levels.findSome? (index.importedKey? name arity) :=
    fun levels => Declarations.find_some_eq_of_perm fun level inLevels other inOthers =>
      (undisputed level inLevels other inOthers).2
  unfold storedKey? gatheredKey? Index.aliasKey? Index.importKey?
  rw [← aliases (inner ++ top.reverse) (order.trans (top.reverse_perm.symm.append_left inner)),
    ← aliases (top.reverse ++ inner.reverse)
      (top.reverse_perm.symm.append inner.reverse_perm.symm),
    ← imports (top ++ inner.reverse) (inner.reverse_perm.symm.append_left top),
    ← imports (inner ++ top) order]

end Lookups

theorem or_eq_or_iff {α : Type} {first left right : Option α} :
    first.or left = first.or right ↔ first.isSome = true ∨ left = right := by
  cases first <;> simp

/-- The scope stored with a type that is declared once and the scope at its members see the same
surroundings, and ask the levels of directives in different orders. They decide a name alike
exactly where the surroundings decide it or both orders give the same type; in particular, for
every name about which no two levels disagree. -/
theorem lookup_key_stored_scope_at (catalog : Catalog) (documents : List Document)
    (document : Document) (inDocuments : document ∈ documents) (site : TypeSite)
    (inSites : site ∈ documentSites document) (new : catalog.toIndex.get? site.key = none)
    (only : ∀ other ∈ documents, ∀ again ∈ documentSites other, again.key = site.key →
      again = site)
    (unit : RegularUnit document.root) (regular : Regular site.node) (body member : Node)
    (found : site.node.body? = some body) (inBody : member ∈ body.children) :
    ∃ decl, (indexOf catalog documents).get? site.key = some decl ∧
      ∀ (name : String) (arity : Nat),
        (indexOf catalog documents).lookupKey? name arity decl.scope =
          ((indexOf catalog documents).lexicalKey? name arity (scopeAt member)).or
            (storedKey? (indexOf catalog documents) name arity (topLevels document.root)
              (levelsFrom body)) ∧
        (indexOf catalog documents).lookupKey? name arity (scopeAt member) =
          ((indexOf catalog documents).lexicalKey? name arity (scopeAt member)).or
            (gatheredKey? (indexOf catalog documents) name arity (topLevels document.root)
              (levelsFrom body)) ∧
        ((indexOf catalog documents).lookupKey? name arity decl.scope =
            (indexOf catalog documents).lookupKey? name arity (scopeAt member) ↔
          ((indexOf catalog documents).lexicalKey? name arity (scopeAt member)).isSome = true ∨
            storedKey? (indexOf catalog documents) name arity (topLevels document.root)
                (levelsFrom body) =
              gatheredKey? (indexOf catalog documents) name arity (topLevels document.root)
                (levelsFrom body)) ∧
        (Undisputed (indexOf catalog documents) name arity
            (topLevels document.root ++ levelsFrom body) →
          (indexOf catalog documents).lookupKey? name arity decl.scope =
            (indexOf catalog documents).lookupKey? name arity (scopeAt member)) := by
  obtain ⟨decl, params, stored, scope⟩ := exists_stored inDocuments inSites new only
  obtain ⟨namespaceName, enclosingTypes, up, down⟩ :=
    scope_at_of_mem_document_sites inSites unit regular found inBody
  refine ⟨decl, stored, fun name arity => ?_⟩
  generalize indexOf catalog documents = index
  have lexical : index.lexicalKey? name arity decl.scope =
      index.lexicalKey? name arity (scopeAt member) := by
    unfold Index.lexicalKey?
    rw [scope, namespaceName, enclosingTypes]
    rfl
  have directives : decl.scope.usings =
      Usings.ofLevels (topLevels document.root ++ (levelsFrom body).reverse) := by
    rw [scope]
    exact down
  have inStored := index.lookup_key_eq_of_levels directives name arity
  have atMember := index.lookup_key_eq_of_levels up name arity
  rw [lexical, List.reverse_append, List.reverse_reverse] at inStored
  rw [List.reverse_append] at atMember
  have decided : index.lookupKey? name arity decl.scope =
      index.lookupKey? name arity (scopeAt member) ↔
        (index.lexicalKey? name arity (scopeAt member)).isSome = true ∨
          storedKey? index name arity (topLevels document.root) (levelsFrom body) =
            gatheredKey? index name arity (topLevels document.root) (levelsFrom body) := by
    rw [inStored, atMember]
    exact or_eq_or_iff
  exact ⟨inStored, atMember, decided, fun undisputed =>
    decided.mpr (Or.inr (stored_key_eq_gathered_key undisputed))⟩

def aliasesDocument : Document :=
  .ofOutline "aliases.cs"
    ("using X = A; namespace Q \x7b using X = B; class U \x7b void M() \x7b \x7d \x7d \x7d " ++
      "class A \x7b \x7d class B \x7b \x7d")
    (unit 90
      [aliasDirective 0,
        namespaceWith 13 66
          [aliasDirective 27,
            classWith 40 64 [methodWith 50 62 []]],
        classWith 67 78 [], classWith 79 90 []])

/-- The stored scope takes the inner alias, the scope at the method takes the outer one. -/
theorem lookup_key_stored_scope_at_aliases :
    ∃ site ∈ documentSites aliasesDocument, ∃ body member decl,
      site.node.body? = some body ∧ member ∈ body.children ∧
      (indexOf ⟨[], []⟩ [aliasesDocument]).get? site.key = some decl ∧
      (indexOf ⟨[], []⟩ [aliasesDocument]).lookupKey? "X" 0 decl.scope = some "B" ∧
      (indexOf ⟨[], []⟩ [aliasesDocument]).lookupKey? "X" 0 (scopeAt member) = some "A" := by
  have distinct : ((documentSites aliasesDocument).map TypeSite.key).Nodup := by decide +kernel
  have unit : RegularUnit aliasesDocument.root := by decide +kernel
  have declared : ∃ site ∈ documentSites aliasesDocument, Regular site.node ∧
      (site.node.body?.any fun body => body.children.any fun member =>
        ((indexOf ⟨[], []⟩ [aliasesDocument]).lexicalKey? "X" 0 (scopeAt member)).or
            (storedKey? (indexOf ⟨[], []⟩ [aliasesDocument]) "X" 0
              (topLevels aliasesDocument.root) (levelsFrom body)) == some "B" &&
          (indexOf ⟨[], []⟩ [aliasesDocument]).lookupKey? "X" 0 (scopeAt member) ==
            some "A") = true := by
    decide +kernel
  obtain ⟨site, inSites, regular, holds⟩ := declared
  obtain ⟨body, found, holds⟩ := (Option.any_eq_true _ _).mp holds
  obtain ⟨member, inBody, holds⟩ := List.any_eq_true.mp holds
  obtain ⟨inner, outer⟩ := Bool.and_eq_true_iff.mp holds
  have only : ∀ other ∈ [aliasesDocument], ∀ again ∈ documentSites other,
      again.key = site.key → again = site := by
    intro other inOther again inAgain same
    cases List.mem_singleton.mp inOther
    exact List.inj_on_of_nodup_map distinct inAgain inSites same
  obtain ⟨decl, stored, lookups⟩ := lookup_key_stored_scope_at ⟨[], []⟩ [aliasesDocument]
    aliasesDocument List.mem_cons_self site inSites rfl only unit regular body member found inBody
  exact ⟨site, inSites, body, member, decl, found, inBody, stored,
    (lookups "X" 0).1.trans (eq_of_beq inner), eq_of_beq outer⟩

end ReleaseAudit.Inference
