import ReleaseAudit.Declarations.Catalog
import ReleaseAudit.Proofs.Declarations.Insertion
import ReleaseAudit.Proofs.Declarations.Levels
import ReleaseAudit.Proofs.Declarations.Sites
import ReleaseAudit.Proofs.Source.Place
import ReleaseAudit.Proofs.Types.Keys

/-!
# Types that designate their declaration

A type symbol is looked up again by its key, which counts its arguments. It
designates a declaration when that key leads to an entry of the same name, kind
and supertypes. Resolving a written type gives such symbols only, since names
that are written have no mark of arity in them.
-/

namespace ReleaseAudit.Declarations

set_option autoImplicit false

open Source (Document Label Node Tree)
open ReleaseAudit.Types (IsName TypeRef TypeSymbol is_name_dotted is_name_of_is_plain isPlain
  keywordType? typeKey type_key_name_inj)

/-- Names have no mark of arity, and neither have the targets of aliases. -/
def isPlainLabel (label : Label) : Bool :=
  decide ((label.kind = .usingDirective →
      ∀ entry ∈ (Usings.addDirective {} label.text).aliases, isPlain entry.2 = true) ∧
    (label.kind = .identifier ∨ label.field = some .name → isPlain label.text = true))

def isPlainTree : Tree → Bool
  | .node label children => isPlainLabel label && allPlain children
where
  allPlain : List Tree → Bool
    | [] => true
    | tree :: rest => isPlainTree tree && allPlain rest

theorem is_plain_tree_of_mem {trees : List Tree} (plain : isPlainTree.allPlain trees = true)
    {tree : Tree} (member : tree ∈ trees) : isPlainTree tree = true := by
  induction trees with
  | nil => cases member
  | cons first rest ih =>
      rw [isPlainTree.allPlain, Bool.and_eq_true] at plain
      rcases List.mem_cons.mp member with rfl | later
      · exact plain.1
      · exact ih plain.2 later

theorem is_plain_tree_at {tree inner : Tree} {place : List Nat} (plain : isPlainTree tree = true)
    (found : tree.at? place = some inner) : isPlainTree inner = true := by
  induction place generalizing tree with
  | nil =>
      cases found
      exact plain
  | cons index rest ih =>
      obtain ⟨child, isChild, below⟩ := Option.bind_eq_some_iff.mp found
      obtain ⟨label, children⟩ := tree
      rw [isPlainTree, Bool.and_eq_true] at plain
      exact ih (is_plain_tree_of_mem plain.2 (List.mem_of_getElem? isChild)) below

theorem is_plain_label_of_top {node : Node} (plain : isPlainTree node.top = true) :
    isPlainLabel node.label = true := by
  have inner := is_plain_tree_at plain node.at_place
  obtain ⟨⟨label, children⟩, above, linked⟩ := node
  rw [isPlainTree, Bool.and_eq_true] at inner
  exact inner.1

theorem is_plain_declaration_name {node name : Node} (plain : isPlainTree node.top = true)
    (found : node.declarationName? = some name) : isPlain name.text = true := by
  have spelled : name ∈ node.children ∧ (name.kind = .identifier ∨ name.field = some .name) := by
    rcases Option.or_eq_some_iff.mp found with byField | ⟨-, byKind⟩
    · exact ⟨Node.mem_children_of_child byField, Or.inr (eq_of_beq (List.find?_some byField :))⟩
    · exact ⟨Node.mem_children_of_mem_parts (Node.mem_parts_of_part_of byKind),
        Or.inl (eq_of_beq (List.find?_some byKind :))⟩
  rw [← Node.top_of_mem_children spelled.1] at plain
  exact (of_decide_eq_true (is_plain_label_of_top plain)).2 spelled.2

namespace Usings

def Plain (usings : Usings) : Prop :=
  ∀ entry ∈ usings.aliases, isPlain entry.2 = true

theorem plain_empty : Plain {} := by
  intro entry member
  cases member

theorem Plain.append {usings later : Usings} (plain : usings.Plain) (laterPlain : later.Plain) :
    (usings.append later).Plain := by
  intro entry member
  rcases List.mem_append.mp member with inLater | inFirst
  · exact laterPlain entry inLater
  · exact plain entry inFirst

theorem Plain.add_from {usings : Usings} (plain : usings.Plain) {container : Node}
    (plainTree : isPlainTree container.top = true) : (usings.addFrom container).Plain := by
  refine List.foldlRecOn (motive := Plain) _ _ plain ?_
  intro passed plainPassed child member
  obtain ⟨inParts, isDirective⟩ := List.mem_filter.mp member
  rw [← Node.top_of_mem_parts inParts] at plainTree
  have own : (addDirective {} child.text).Plain :=
    (of_decide_eq_true (is_plain_label_of_top plainTree)).1 (eq_of_beq isDirective)
  rw [add_directive_eq]
  exact plainPassed.append own

end Usings

/-- What holds of every entry: its key is made from its name and its own parameters, and no
name it was written with has the mark of arity. -/
structure TypeDecl.Regular (decl : TypeDecl) : Prop where
  key : decl.key = typeKey decl.fullName decl.typeParams.length
  isName : IsName decl.fullName
  usings : decl.scope.usings.Plain
  members : ∀ member ∈ decl.members, ∀ written, member.type = some written → written.Plain

theorem is_name_qualify (outer : String) {name : String} (plain : isPlain name = true) :
    IsName (qualify outer name) := by
  unfold qualify
  split
  · exact is_name_of_is_plain plain
  · exact is_name_dotted outer plain

theorem plain_of_written_type {node : Option Node} {written : TypeRef}
    (found : writtenType? node = some written) : written.Plain := by
  obtain ⟨read, -⟩ := Option.filter_eq_some_iff.mp found
  obtain ⟨type, -, parsed⟩ := Option.bind_eq_some_iff.mp read
  exact TypeRef.plain_of_parse parsed

theorem plain_of_mem_field_members {node : Node} {member : MemberDecl} {written : TypeRef}
    (isMember : member ∈ fieldMembers node) (typed : member.type = some written) :
    written.Plain := by
  unfold fieldMembers at isMember
  split at isMember
  · cases isMember
  · obtain ⟨declarator, -, built⟩ := List.mem_filterMap.mp isMember
    obtain ⟨name, -, rfl⟩ := Option.map_eq_some_iff.mp built
    exact plain_of_written_type typed

theorem plain_of_mem_member_decls {node : Node} {member : MemberDecl} {written : TypeRef}
    (isMember : member ∈ memberDecls node) (typed : member.type = some written) :
    written.Plain := by
  unfold memberDecls at isMember
  split at isMember
  · exact plain_of_mem_field_members isMember typed
  · exact plain_of_mem_field_members isMember typed
  · obtain ⟨name, -, rfl⟩ := List.mem_map.mp isMember
    exact plain_of_written_type typed
  · obtain ⟨name, -, rfl⟩ := List.mem_map.mp isMember
    exact plain_of_written_type typed
  · obtain ⟨name, -, rfl⟩ := List.mem_map.mp isMember
    cases typed
  · cases isMember

structure TypeSite.Plain (site : TypeSite) : Prop where
  isName : IsName site.fullName
  usings : site.usings.Plain

theorem Surroundings.is_name_site (around : Surroundings) (node : Node) {name : Node}
    (plainName : isPlain name.text = true) : IsName (around.site node name).fullName := by
  unfold Surroundings.site
  dsimp only
  split
  · exact is_name_dotted _ plainName
  · exact is_name_qualify _ plainName

theorem Surroundings.plain_site {around : Surroundings} (plain : around.usings.Plain)
    (node : Node) {name : Node} (plainName : isPlain name.text = true) :
    (around.site node name).Plain :=
  ⟨around.is_name_site node plainName, plain⟩

theorem plain_of_mem_type_sites {around : Surroundings} (plain : around.usings.Plain)
    {container : Node} (plainTree : isPlainTree container.top = true) :
    ∀ site ∈ typeSites around container, site.Plain := by
  intro site member
  rw [type_sites_eq] at member
  obtain ⟨child, inParts, member⟩ := List.mem_flatMap.mp member
  have inContainer := Node.size_lt_of_mem_children (Node.mem_children_of_mem_parts inParts)
  have plainChild : isPlainTree child.top = true := by
    rw [Node.top_of_mem_parts inParts]
    exact plainTree
  have plainBody : ∀ body, child.body? = some body → isPlainTree body.top = true := by
    intro body isBody
    rw [Node.top_of_parent (Node.parent_of_body isBody)]
    exact plainChild
  unfold childSites at member
  split at member
  · split at member
    · next name body isName isBody =>
        have := Nat.lt_trans (size_lt_of_body isBody) inContainer
        have entered : (around.enterNamespace name body).usings.Plain :=
          plain.add_from (plainBody body isBody)
        exact plain_of_mem_type_sites entered (plainBody body isBody) site member
    · cases member
  · split at member
    · exact plain_of_mem_type_sites plain plainChild site member
    · split at member
      · split at member
        · next name body isName isBody =>
            have own := around.plain_site plain child (is_plain_declaration_name plainChild isName)
            rcases List.mem_cons.mp member with rfl | inside
            · exact own
            · have := Nat.lt_trans (size_lt_of_body isBody) inContainer
              have entered : (around.enterType (around.site child name)).usings.Plain := plain
              exact plain_of_mem_type_sites entered (plainBody body isBody) site inside
        · next name isName noBody =>
            rw [List.mem_singleton.mp member]
            exact around.plain_site plain child (is_plain_declaration_name plainChild isName)
        · cases member
      · cases member
termination_by container.tree.size

theorem plain_top_surroundings {root : Node} (plainTree : isPlainTree root.top = true) :
    (topSurroundings root).usings.Plain := by
  refine List.foldlRecOn (motive := fun around : Surroundings => around.usings.Plain) _ _
    (Usings.plain_empty.add_from plainTree) ?_
  intro around plain child member
  rw [← Node.top_of_mem_parts (List.mem_filter.mp member).1] at plainTree
  exact plain.add_from plainTree

theorem TypeSite.Plain.regular {site : TypeSite} (plain : site.Plain) (index : Index) :
    (site.toDecl index).Regular := by
  refine ⟨rfl, plain.isName, plain.usings, ?_⟩
  intro member isMember written typed
  change member ∈ site.members at isMember
  unfold TypeSite.members at isMember
  split at isMember
  · obtain ⟨node, -, declared⟩ := List.mem_flatMap.mp isMember
    exact plain_of_mem_member_decls declared typed
  · cases isMember

namespace Index

def Regular (index : Index) : Prop :=
  ∀ decl ∈ index.types, decl.Regular

theorem Regular.insert {index : Index} (regular : index.Regular) {decl : TypeDecl}
    (regularDecl : decl.Regular) : (index.insert decl).Regular := by
  unfold Index.insert
  split
  · intro entry member
    obtain ⟨existing, inTypes, rfl⟩ := List.mem_map.mp member
    have old := regular existing inTypes
    split
    · refine ⟨old.key, old.isName, old.usings, ?_⟩
      intro declared isMember
      rcases List.mem_append.mp isMember with inOld | inNew
      · exact old.members declared inOld
      · exact regularDecl.members declared inNew
    · exact old
  · intro entry member
    rcases List.mem_append.mp member with inTypes | isNew
    · exact regular entry inTypes
    · rw [List.mem_singleton.mp isNew]
      exact regularDecl

theorem Regular.add_document {index : Index} (regular : index.Regular) {document : Document}
    (plain : isPlainTree document.tree = true) : (index.addDocument document).Regular := by
  have plainRoot : isPlainTree document.root.top = true := plain
  have sites : ∀ site ∈ documentSites document, site.Plain :=
    plain_of_mem_type_sites (plain_top_surroundings plainRoot) plainRoot
  refine List.foldlRecOn (motive := Regular) _ _ regular ?_
  intro entered regularEntered site member
  exact regularEntered.insert ((sites site member).regular entered)

theorem Regular.finalize {index : Index} (regular : index.Regular) : index.finalize.Regular := by
  intro decl member
  obtain ⟨linked, inLinked, rfl⟩ := List.mem_map.mp member
  obtain ⟨entry, inTypes, rfl⟩ := List.mem_map.mp inLinked
  obtain ⟨key, isName, usings, members⟩ := regular entry inTypes
  exact ⟨key, isName, usings, members⟩

theorem Regular.get {index : Index} (regular : index.Regular) {key : String} {decl : TypeDecl}
    (found : index.get? key = some decl) : decl.Regular :=
  regular decl (List.mem_of_find?_eq_some found)

end Index

theorem Catalog.regular_type_decl {known : KnownType} {decl : TypeDecl}
    (found : typeDecl? known = some decl) : decl.Regular := by
  obtain ⟨written, parsed, rfl⟩ := Option.map_eq_some_iff.mp found
  refine ⟨rfl, is_name_of_is_plain (TypeRef.plain_of_parse parsed).name, Usings.plain_empty, ?_⟩
  intro member isMember type typed
  obtain ⟨knownMember, -, rfl⟩ := List.mem_map.mp isMember
  obtain ⟨text, -, parsed⟩ := Option.bind_eq_some_iff.mp typed
  exact TypeRef.plain_of_parse parsed

theorem Catalog.regular_to_index (settings : Settings) :
    (Catalog.ofSettings settings).toIndex.Regular := by
  refine List.foldlRecOn (motive := Index.Regular) _ _ ?_ ?_
  · intro decl member
    cases member
  · intro index regular decl member
    obtain ⟨known, -, found⟩ := List.mem_filterMap.mp member
    exact regular.insert (regular_type_decl found)

/-- The key of the type leads to its declaration; undeclared types and arrays have none. -/
def Designates (index : Index) (type : TypeSymbol) : Prop :=
  type.kind = .undeclared ∨ type = .array ∨
    ∃ decl, index.get? type.key = some decl ∧ decl.fullName = type.fullName ∧
      decl.kind = type.kind ∧ decl.supertypes = type.supertypes

/-- The type designates its declaration, and so do its arguments at every depth. -/
inductive Designated (index : Index) : TypeSymbol → Prop
  | mk {type : TypeSymbol} (own : Designates index type)
      (arguments : ∀ argument ∈ type.typeArguments, Designated index argument) :
      Designated index type

theorem Designated.arguments {index : Index} {type : TypeSymbol}
    (designated : Designated index type) :
    ∀ argument ∈ type.typeArguments, Designated index argument := by
  cases designated with
  | mk _ arguments => exact arguments

theorem designated_of_name (index : Index) (name : String) :
    Designated index (TypeSymbol.ofName name) := by
  refine .mk (Or.inl rfl) ?_
  intro argument member
  cases member

theorem designated_array (index : Index) : Designated index TypeSymbol.array := by
  refine .mk (Or.inr (Or.inl rfl)) ?_
  intro argument member
  cases member

theorem designated_of_symbol_for {index : Index} (regular : index.Regular) {fullName : String}
    (isName : IsName fullName) {arguments : List TypeSymbol} {type : TypeSymbol}
    (found : index.symbolFor? (typeKey fullName arguments.length) arguments = some type)
    (designated : ∀ argument ∈ arguments, Designated index argument) :
    Designated index type := by
  obtain ⟨decl, isDecl, rfl⟩ := Option.map_eq_some_iff.mp found
  have entry := regular.get isDecl
  have keys : typeKey decl.fullName decl.typeParams.length = typeKey fullName arguments.length :=
    entry.key.symm.trans (Index.key_of_get isDecl)
  have names := type_key_name_inj entry.isName isName keys
  refine .mk (Or.inr (Or.inr ⟨decl, ?_, rfl, rfl, rfl⟩)) designated
  change index.get? (typeKey decl.fullName arguments.length) = some decl
  rw [names]
  exact isDecl

theorem mem_of_cut_first {mark character : Char} {characters before after : List Char}
    (cut : Text.cutFirst? mark characters = some (before, after)) (member : character ∈ after) :
    character ∈ characters := by
  induction characters generalizing before with
  | nil => cases cut
  | cons first rest ih =>
      rw [Text.cutFirst?] at cut
      split at cut
      · cases cut
        exact List.mem_cons_of_mem _ member
      · obtain ⟨⟨inner, innerAfter⟩, isInner, same⟩ := Option.map_eq_some_iff.mp cut
        cases same
        exact List.mem_cons_of_mem _ (ih isInner)

theorem is_plain_of_split_first {mark : Char} {text head tail : String}
    (plain : isPlain text = true) (cut : Text.splitFirst? mark text = some (head, tail)) :
    isPlain tail = true := by
  obtain ⟨⟨before, after⟩, isCut, same⟩ := Option.map_eq_some_iff.mp cut
  cases same
  rw [Types.is_plain_iff] at plain ⊢
  rw [String.toList_ofList]
  exact fun member => plain (mem_of_cut_first isCut member)

theorem is_name_alias_target {usings : Usings} (plain : usings.Plain) {name target : String}
    (plainName : isPlain name = true) (found : Index.aliasTarget? usings name = some target) :
    IsName target := by
  have targets : ∀ head long, usings.alias? head = some long →
      isPlain (((TypeRef.parse? long).map TypeRef.name).getD long) = true := by
    intro head long isAlias
    cases parsed : TypeRef.parse? long with
    | some written => exact (TypeRef.plain_of_parse parsed).name
    | none =>
        obtain ⟨before, after, listed, -⟩ := List.lookup_eq_some_iff.mp isAlias
        refine plain (head, long) ?_
        rw [listed]
        exact List.mem_append_right _ List.mem_cons_self
  unfold Index.aliasTarget? at found
  split at found
  next head tail isCut =>
    obtain ⟨long, isAlias, rfl⟩ := Option.map_eq_some_iff.mp found
    split at isCut
    · next first after cut =>
        cases isCut
        exact is_name_dotted _ (is_plain_of_split_first plainName cut)
    · cases isCut
      exact is_name_of_is_plain (targets _ _ isAlias)

theorem is_name_of_mem_readings {index : Index} {name : String} {scope : NameScope}
    (plainName : isPlain name = true) (plain : scope.usings.Plain) {full : String}
    (member : full ∈ index.readings name scope) : IsName full := by
  unfold Index.readings at member
  rcases List.mem_append.mp member with member | imported
  · rcases List.mem_append.mp member with member | aliased
    · rcases List.mem_append.mp member with nested | inNamespace
      · obtain ⟨outer, -, rfl⟩ := List.mem_map.mp nested
        exact is_name_dotted outer.fullName plainName
      · obtain ⟨outer, -, rfl⟩ := List.mem_map.mp inNamespace
        exact is_name_qualify outer plainName
    · exact is_name_alias_target plain plainName (Option.mem_toList.mp aliased)
  · obtain ⟨outer, -, rfl⟩ := List.mem_map.mp imported
    exact is_name_qualify outer plainName

theorem mem_keyword_types {name full : String} (found : keywordType? name = some full) :
    (name, full) ∈ Types.keywordTypes := by
  obtain ⟨before, after, listed, -⟩ := List.lookup_eq_some_iff.mp found
  rw [listed]
  exact List.mem_append_right _ List.mem_cons_self

theorem is_plain_of_keyword_type {name full : String} (found : keywordType? name = some full) :
    isPlain full = true := by
  have all : ∀ entry ∈ Types.keywordTypes, isPlain entry.2 = true := by decide
  exact all (name, full) (mem_keyword_types found)

theorem resolve_all_eq_map (index : Index) (scope : NameScope) (bindings : Substitution)
    (args : List TypeRef) :
    Index.resolve?.resolveAll index scope bindings args =
      args.map fun arg =>
        (index.resolve? scope bindings arg).getD (TypeSymbol.ofName arg.spelling) := by
  induction args with
  | nil => rfl
  | cons arg rest ih => rw [Index.resolve?.resolveAll, List.map_cons, ih]

theorem designated_get_or_else_of_name {index : Index} {found : Option TypeSymbol} (name : String)
    (designated : ∀ type, found = some type → Designated index type) :
    Designated index (found.getD (TypeSymbol.ofName name)) := by
  cases found with
  | none => exact designated_of_name index name
  | some type => exact designated type rfl

def Substitution.Designated (index : Index) (bindings : Substitution) : Prop :=
  ∀ entry ∈ bindings, Declarations.Designated index entry.2

theorem Substitution.designated_nil (index : Index) : Substitution.Designated index [] := by
  intro entry member
  cases member

theorem Substitution.Designated.bind_all {index : Index} {bindings : Substitution}
    (designated : bindings.Designated index) (params : List String) {arguments : List TypeSymbol}
    (ofArguments : ∀ argument ∈ arguments, Declarations.Designated index argument) :
    (bindings.bindAll params arguments).Designated index := by
  intro entry member
  rcases List.mem_append.mp member with inPairs | inBindings
  · exact ofArguments entry.2 (List.of_mem_zip (List.mem_reverse.mp inPairs)).2
  · exact designated entry inBindings

/-- A written type resolves to a type that designates its declaration, whatever the bindings
of generic parameters, as long as these do. -/
theorem designated_of_resolve {index : Index} (regular : index.Regular) {scope : NameScope}
    (plainScope : scope.usings.Plain) {bindings : Substitution}
    (designated : bindings.Designated index) {written : TypeRef} (plain : written.Plain) :
    ∀ type, index.resolve? scope bindings written = some type → Designated index type := by
  induction plain with
  | @mk written plainName plainArgs ih =>
      intro type found
      obtain ⟨name, args, array⟩ := written
      rw [Index.resolve?] at found
      split at found
      · cases found
        exact designated_array index
      · split at found
        · next bound isBound =>
            cases found
            split at isBound
            · rcases Option.or_eq_some_iff.mp isBound with isBinding | ⟨-, isParameter⟩
              · obtain ⟨before, after, listed, -⟩ := List.lookup_eq_some_iff.mp isBinding
                refine designated (name, _) ?_
                rw [listed]
                exact List.mem_append_right _ List.mem_cons_self
              · obtain ⟨-, isName⟩ := Option.ite_none_right_eq_some.mp isParameter
                cases isName
                exact designated_of_name index name
            · cases isBound
        · split at found
          · next full isKeyword =>
              cases found
              refine designated_get_or_else_of_name full fun type isSymbol => ?_
              have isName := is_name_of_is_plain (is_plain_of_keyword_type isKeyword)
              exact designated_of_symbol_for regular isName isSymbol (by simp)
          · split at found
            · next key isKey =>
                have listed := List.mem_of_find?_eq_some isKey
                obtain ⟨full, isReading, rfl⟩ := List.mem_map.mp listed
                have isName := is_name_of_mem_readings plainName plainScope isReading
                rw [resolve_all_eq_map] at found
                have lengths : args.length = (args.map fun arg =>
                    (index.resolve? scope bindings arg).getD
                      (TypeSymbol.ofName arg.spelling)).length := by
                  rw [List.length_map]
                rw [lengths] at found
                refine designated_of_symbol_for regular isName found ?_
                intro argument member
                obtain ⟨arg, inArgs, rfl⟩ := List.mem_map.mp member
                exact designated_get_or_else_of_name arg.spelling (ih arg inArgs)
            · cases found

end ReleaseAudit.Declarations
