import Mathlib.Data.List.Perm.Basic
import ReleaseAudit.Declarations.Catalog
import ReleaseAudit.Proofs.Declarations.Agreement
import ReleaseAudit.Proofs.Declarations.Sites

/-!
# The order in which documents are entered

For every key the first document that declares it gives the heading, and the
bases and members of all documents follow one another. Documents are compatible
when neither of these shows which of them came first; exactly then every order
of the documents gives the same table.
-/

namespace ReleaseAudit.Declarations

set_option autoImplicit false

open Source (Document)
open ReleaseAudit.Types (TypeRef)

def headerIn? (document : Document) (key : String) : Option TypeDecl :=
  ((documentSites document).find? fun site => key == site.key).map TypeSite.header

def basesIn (document : Document) (key : String) : List TypeRef :=
  (documentSites document).flatMap fun site => site.basesFor key

def membersIn (document : Document) (key name : String) : List MemberDecl :=
  (documentSites document).flatMap fun site => site.membersFor key name

def extensionsIn (document : Document) (name : String) : List (String × MemberDecl) :=
  (documentSites document).flatMap fun site => site.extensionsNamed name

/-- Documents whose order does not show in a table that holds `known` before. -/
structure Compatible (known : Index) (first second : Document) : Prop where
  /-- A new type that both declare has the same heading in both. -/
  headers : ∀ key, known.get? key = none →
    ∀ header ∈ headerIn? first key, ∀ other ∈ headerIn? second key, header = other
  bases : ∀ key,
    basesIn first key ++ basesIn second key = basesIn second key ++ basesIn first key
  members : ∀ key name,
    membersIn first key name ++ membersIn second key name =
      membersIn second key name ++ membersIn first key name
  extensions : ∀ name,
    extensionsIn first name ++ extensionsIn second name =
      extensionsIn second name ++ extensionsIn first name

theorem Compatible.refl (known : Index) (document : Document) :
    Compatible known document document where
  headers _ _ _ found _ again := Option.some.inj (found.symm.trans again)
  bases _ := rfl
  members _ _ := rfl
  extensions _ := rfl

mutual

def decEqTypeRef (left right : TypeRef) : Decidable (left = right) :=
  match left, right with
  | ⟨name, args, array⟩, ⟨otherName, otherArgs, otherArray⟩ =>
      have := decEqTypeRefs args otherArgs
      decidable_of_iff (name = otherName ∧ args = otherArgs ∧ array = otherArray) (by simp)

def decEqTypeRefs (left right : List TypeRef) : Decidable (left = right) :=
  match left, right with
  | [], [] => isTrue rfl
  | [], _ :: _ => isFalse (by simp)
  | _ :: _, [] => isFalse (by simp)
  | first :: rest, other :: others =>
      have := decEqTypeRef first other
      have := decEqTypeRefs rest others
      decidable_of_iff (first = other ∧ rest = others) (by simp)

end

instance : DecidableEq TypeRef := decEqTypeRef

deriving instance DecidableEq for ParameterDecl

deriving instance DecidableEq for MemberDecl

deriving instance DecidableEq for TypeDecl

theorem header_in_eq_none {document : Document} {key : String}
    (absent : ∀ site ∈ documentSites document, key ≠ site.key) : headerIn? document key = none := by
  unfold headerIn?
  rw [List.find?_eq_none.mpr, Option.map_none]
  simpa using absent

theorem bases_in_eq_nil {document : Document} {key : String}
    (absent : ∀ site ∈ documentSites document, key ≠ site.key) : basesIn document key = [] := by
  unfold basesIn
  rw [List.flatMap_eq_nil_iff]
  intro site member
  exact if_neg (absent site member)

theorem members_in_eq_nil {document : Document} {key name : String}
    (absent : ∀ site ∈ documentSites document, key = site.key →
      ∀ member ∈ site.members, member.name ≠ name) : membersIn document key name = [] := by
  unfold membersIn
  rw [List.flatMap_eq_nil_iff]
  intro site inSites
  unfold TypeSite.membersFor
  split
  · next same => simpa using absent site inSites same
  · rfl

theorem extensions_in_eq_nil {document : Document} {name : String}
    (absent : ∀ site ∈ documentSites document, ∀ member ∈ site.members, member.name ≠ name) :
    extensionsIn document name = [] := by
  unfold extensionsIn
  rw [List.flatMap_eq_nil_iff]
  intro site inSites
  have unnamed : (site.members.filter fun member =>
      member.isExtension && member.name == name) = [] := by
    rw [List.filter_eq_nil_iff]
    intro member inMembers
    simp [absent site inSites member inMembers]
  unfold TypeSite.extensionsNamed
  rw [unnamed, List.map_nil]

theorem compatible_iff (known : Index) (first second : Document) :
    Compatible known first second ↔
      ∀ site ∈ documentSites first,
        (known.get? site.key = none →
          ∀ header ∈ headerIn? first site.key, ∀ other ∈ headerIn? second site.key,
            header = other) ∧
        basesIn first site.key ++ basesIn second site.key =
          basesIn second site.key ++ basesIn first site.key ∧
        ∀ member ∈ site.members,
          membersIn first site.key member.name ++ membersIn second site.key member.name =
            membersIn second site.key member.name ++ membersIn first site.key member.name ∧
          extensionsIn first member.name ++ extensionsIn second member.name =
            extensionsIn second member.name ++ extensionsIn first member.name := by
  constructor
  · intro compatible site _
    exact ⟨compatible.headers site.key, compatible.bases site.key, fun member _ =>
      ⟨compatible.members site.key member.name, compatible.extensions member.name⟩⟩
  · intro compared
    constructor
    case headers =>
      intro key missing header found
      by_cases declared : ∃ site ∈ documentSites first, key = site.key
      · obtain ⟨site, inSites, rfl⟩ := declared
        exact (compared site inSites).1 missing header found
      · have absent := header_in_eq_none fun site inSites same => declared ⟨site, inSites, same⟩
        rw [absent] at found
        cases found
    case bases =>
      intro key
      by_cases declared : ∃ site ∈ documentSites first, key = site.key
      · obtain ⟨site, inSites, rfl⟩ := declared
        exact (compared site inSites).2.1
      · have absent := bases_in_eq_nil fun site inSites same => declared ⟨site, inSites, same⟩
        rw [absent, List.nil_append, List.append_nil]
    case members =>
      intro key name
      by_cases declared : ∃ site ∈ documentSites first, key = site.key ∧
          ∃ member ∈ site.members, member.name = name
      · obtain ⟨site, inSites, rfl, member, inMembers, rfl⟩ := declared
        exact ((compared site inSites).2.2 member inMembers).1
      · have absent := members_in_eq_nil fun site inSites same member inMembers named =>
          declared ⟨site, inSites, same, member, inMembers, named⟩
        rw [absent, List.nil_append, List.append_nil]
    case extensions =>
      intro name
      by_cases declared : ∃ site ∈ documentSites first, ∃ member ∈ site.members,
          member.name = name
      · obtain ⟨site, inSites, member, inMembers, rfl⟩ := declared
        exact ((compared site inSites).2.2 member inMembers).2
      · have absent := extensions_in_eq_nil fun site inSites member inMembers named =>
          declared ⟨site, inSites, member, inMembers, named⟩
        rw [absent, List.nil_append, List.append_nil]

instance (known : Index) (first second : Document) : Decidable (Compatible known first second) :=
  decidable_of_iff _ (compatible_iff known first second).symm

theorem flat_map_eq_of_perm {α β : Type} {share : α → List β} {items permuted : List α}
    (commute : ∀ first ∈ items, ∀ second ∈ items,
      share first ++ share second = share second ++ share first)
    (perm : items.Perm permuted) : items.flatMap share = permuted.flatMap share := by
  rw [List.flatMap_eq_foldl, List.flatMap_eq_foldl]
  apply perm.foldl_eq'
  intro first inFirst second inSecond before
  rw [List.append_assoc, List.append_assoc, commute first inFirst second inSecond]

theorem find_some_eq_of_perm {α β : Type} {pick : α → Option β} {items permuted : List α}
    (same : ∀ first ∈ items, ∀ second ∈ items,
      ∀ value ∈ pick first, ∀ other ∈ pick second, value = other)
    (perm : items.Perm permuted) : items.findSome? pick = permuted.findSome? pick := by
  cases found : permuted.findSome? pick with
  | none =>
      rw [List.findSome?_eq_none_iff] at found ⊢
      exact fun item member => found item (perm.mem_iff.mp member)
  | some other =>
      obtain ⟨second, inSecond, picked⟩ := List.exists_of_findSome?_eq_some found
      have inItems := perm.mem_iff.mpr inSecond
      cases first : items.findSome? pick with
      | none =>
          have missing := List.findSome?_eq_none_iff.mp first second inItems
          rw [missing] at picked
          cases picked
      | some value =>
          obtain ⟨item, inItem, pickedFirst⟩ := List.exists_of_findSome?_eq_some first
          rw [same item inItem second inItems value pickedFirst other picked]

theorem find_some_header_in_of_only {documents : List Document} {document : Document}
    (inDocuments : document ∈ documents) {site : TypeSite}
    (inSites : site ∈ documentSites document)
    (only : ∀ other ∈ documents, ∀ again ∈ documentSites other, again.key = site.key →
      again = site) :
    (documents.findSome? fun other => headerIn? other site.key) = some site.header := by
  have declared : ∀ other ∈ documents, ∀ header ∈ headerIn? other site.key,
      header = site.header := by
    intro other inOther header found
    obtain ⟨again, first, rfl⟩ := Option.map_eq_some_iff.mp found
    have sameKey : (site.key == again.key) = true := by simpa using List.find?_some first
    rw [only other inOther again (List.mem_of_find?_eq_some first) (eq_of_beq sameKey).symm]
  cases picked : documents.findSome? fun other => headerIn? other site.key with
  | none =>
      have absent := List.findSome?_eq_none_iff.mp picked document inDocuments
      have missed := List.find?_eq_none.mp (Option.map_eq_none_iff.mp absent) site inSites
      simp at missed
  | some header =>
      obtain ⟨other, inOther, found⟩ := List.exists_of_findSome?_eq_some picked
      rw [declared other inOther header found]

namespace Index

variable {known : Index}

def addDocuments (known : Index) (documents : List Document) : Index :=
  documents.foldl addDocument known

theorem heading_at_add_documents (known : Index) (documents : List Document) (key : String) :
    (known.addDocuments documents).headingAt? key =
      (known.headingAt? key).or
        ((documents.findSome? fun document => headerIn? document key).map fun header =>
          header.inside ((known.addDocuments documents).paramsOf header.outer)) := by
  have closed : Closed [] (documents.flatMap documentSites) :=
    Closed.flat_map fun document _ => closed_document_sites document []
  have headings := @heading_at_add_sites known [] _ closed (by simp) key
  rw [List.find?_flatMap, List.map_findSome?] at headings
  rw [addDocuments, foldl_add_document]
  exact headings

theorem bases_at_add_documents (sound : known.Sound) (documents : List Document) (key : String) :
    (known.addDocuments documents).basesAt key =
      known.basesAt key ++ documents.flatMap fun document => basesIn document key := by
  rw [addDocuments, foldl_add_document, bases_at_add_sites sound, List.flatMap_assoc]
  rfl

theorem members_at_add_documents (sound : known.Sound) (documents : List Document)
    (key name : String) :
    (known.addDocuments documents).membersAt key name =
      known.membersAt key name ++
        documents.flatMap fun document => membersIn document key name := by
  rw [addDocuments, foldl_add_document, members_at_add_sites sound, List.flatMap_assoc]
  rfl

theorem extensions_named_add_documents (sound : known.Sound) (documents : List Document)
    (name : String) :
    (known.addDocuments documents).extensionsNamed name =
      known.extensionsNamed name ++
        documents.flatMap fun document => extensionsIn document name := by
  rw [addDocuments, foldl_add_document, extensions_named_add_sites sound, List.flatMap_assoc]
  rfl

theorem implicit_usings_add_documents (known : Index) (documents : List Document) :
    (known.addDocuments documents).implicitUsings = known.implicitUsings := by
  rw [addDocuments, foldl_add_document, implicit_usings_add_sites]

theorem find_some_header_in_of_perm {documents permuted : List Document}
    (compatible : ∀ first ∈ documents, ∀ second ∈ documents, Compatible known first second)
    (perm : documents.Perm permuted) {key : String} (new : known.headingAt? key = none) :
    (documents.findSome? fun document => headerIn? document key) =
      permuted.findSome? fun document => headerIn? document key := by
  have missing : known.get? key = none := Option.map_eq_none_iff.mp new
  exact find_some_eq_of_perm
    (fun first inFirst second inSecond =>
      (compatible first inFirst second inSecond).headers key missing) perm

theorem params_of_add_documents_of_perm {documents permuted : List Document}
    (compatible : ∀ first ∈ documents, ∀ second ∈ documents, Compatible known first second)
    (perm : documents.Perm permuted) (keys : List String) :
    (known.addDocuments documents).paramsOf keys = (known.addDocuments permuted).paramsOf keys := by
  have params : ∀ key, ((known.addDocuments documents).headingAt? key).map TypeDecl.typeParams =
      ((known.addDocuments permuted).headingAt? key).map TypeDecl.typeParams := by
    intro key
    rw [heading_at_add_documents, heading_at_add_documents known permuted]
    cases entry : known.headingAt? key with
    | some heading => rfl
    | none =>
        rw [find_some_header_in_of_perm compatible perm entry, Option.none_or, Option.none_or,
          Option.map_map, Option.map_map]
        rfl
  rw [params_of_eq, params_of_eq, funext params]

theorem agree_of_perm (sound : known.Sound) {documents permuted : List Document}
    (compatible : ∀ first ∈ documents, ∀ second ∈ documents, Compatible known first second)
    (perm : documents.Perm permuted) :
    Agree (known.addDocuments documents) (known.addDocuments permuted) where
  headings key := by
    rw [heading_at_add_documents, heading_at_add_documents known permuted]
    cases entry : known.headingAt? key with
    | some heading => rfl
    | none =>
        -- The heading still depends on the parameters of the types around, which agree already.
        rw [find_some_header_in_of_perm compatible perm entry]
        congr 2
        funext header
        rw [params_of_add_documents_of_perm compatible perm]
  bases key := by
    rw [bases_at_add_documents sound, bases_at_add_documents sound]
    congr 1
    exact flat_map_eq_of_perm
      (fun first inFirst second inSecond => (compatible first inFirst second inSecond).bases key)
      perm
  members key name := by
    rw [members_at_add_documents sound, members_at_add_documents sound]
    congr 1
    exact flat_map_eq_of_perm
      (fun first inFirst second inSecond =>
        (compatible first inFirst second inSecond).members key name)
      perm
  extensions name := by
    rw [extensions_named_add_documents sound, extensions_named_add_documents sound]
    congr 1
    exact flat_map_eq_of_perm
      (fun first inFirst second inSecond =>
        (compatible first inFirst second inSecond).extensions name)
      perm
  implicitUsings := by
    rw [implicit_usings_add_documents, implicit_usings_add_documents]

theorem commute_of_append_eq {α : Type} {before first second after : List α}
    (same : before ++ (first ++ (second ++ after)) = before ++ (second ++ (first ++ after))) :
    first ++ second = second ++ first := by
  have rests := List.append_cancel_left same
  rw [← List.append_assoc, ← List.append_assoc] at rests
  exact List.append_cancel_right rests

theorem heading_at_add_documents_cons {key : String} (missing : known.get? key = none)
    {document : Document} {header : TypeDecl} (found : headerIn? document key = some header)
    (rest : List Document) :
    (known.addDocuments (document :: rest)).headingAt? key =
      some (header.inside ((known.addDocuments (document :: rest)).paramsOf header.outer)) := by
  have new : known.headingAt? key = none := Option.map_eq_none_iff.mpr missing
  rw [heading_at_add_documents, new, List.findSome?_cons, found]
  rfl

theorem compatible_of_agree (sound : known.Sound) {first second : Document}
    {rest : List Document}
    (agree : Agree (known.addDocuments (first :: second :: rest))
      (known.addDocuments (second :: first :: rest))) : Compatible known first second where
  headers key missing header found other foundToo := by
    have headings := agree.headings key
    rw [heading_at_add_documents_cons missing found,
      heading_at_add_documents_cons missing foundToo] at headings
    obtain ⟨site, -, rfl⟩ := Option.map_eq_some_iff.mp found
    obtain ⟨again, -, rfl⟩ := Option.map_eq_some_iff.mp foundToo
    exact TypeSite.header_eq_of_inside_eq (Option.some.inj headings)
  bases key := by
    have bases := agree.bases key
    rw [bases_at_add_documents sound, bases_at_add_documents sound] at bases
    exact commute_of_append_eq bases
  members key name := by
    have members := agree.members key name
    rw [members_at_add_documents sound, members_at_add_documents sound] at members
    exact commute_of_append_eq members
  extensions name := by
    have extensions := agree.extensions name
    rw [extensions_named_add_documents sound, extensions_named_add_documents sound] at extensions
    exact commute_of_append_eq extensions

theorem exists_perm_cons_cons {α : Type} {items : List α} {first second : α}
    (inFirst : first ∈ items) (inSecond : second ∈ items) (other : first ≠ second) :
    ∃ rest, items.Perm (first :: second :: rest) := by
  obtain ⟨before, after, rfl⟩ := List.append_of_mem inFirst
  have inRest : second ∈ before ++ after := by
    have inCons := List.perm_middle.mem_iff.mp inSecond
    exact (List.mem_cons.mp inCons).resolve_left fun same => other same.symm
  obtain ⟨front, back, parted⟩ := List.append_of_mem inRest
  refine ⟨front ++ back, List.perm_middle.trans (List.Perm.cons first ?_)⟩
  rw [parted]
  exact List.perm_middle

/-- Exactly compatible documents give the same table in every order. -/
theorem compatible_iff_agree (sound : known.Sound) (documents : List Document) :
    (∀ first ∈ documents, ∀ second ∈ documents, Compatible known first second) ↔
      ∀ permuted, documents.Perm permuted →
        Agree (known.addDocuments documents) (known.addDocuments permuted) := by
  constructor
  · intro compatible permuted perm
    exact agree_of_perm sound compatible perm
  · intro agree first inFirst second inSecond
    by_cases same : first = second
    · exact same ▸ Compatible.refl known first
    · -- Bring both to the front; the tables of the two orders agree with the given one.
      obtain ⟨rest, perm⟩ := exists_perm_cons_cons inFirst inSecond same
      have exchanged := perm.trans (List.Perm.swap second first rest)
      exact compatible_of_agree sound ((agree _ perm).symm.trans (agree _ exchanged))

end Index

end ReleaseAudit.Declarations
