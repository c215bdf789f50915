import ReleaseAudit.Proofs.Source.Argument
import ReleaseAudit.Proofs.Source.Sample
import ReleaseAudit.Proofs.Verdict.FileOrder
import ReleaseAudit.Verdict.Release

/-!
# Identifiers in `using` headers

The search for a local in `using` headers goes by spelling. Besides uses of the
local it meets labels of arguments, members behind a dot and names that are
declared in the middle of an expression. None of these is passed to anything,
so each of them counts as a release.
-/

namespace ReleaseAudit.Source

set_option autoImplicit false

def Kind.declaresName : Kind → Bool
  | variableDeclarator | parameter | parameterList | localFunctionStatement => true
  | other spelling =>
      ["declaration_expression", "declaration_pattern", "recursive_pattern", "tuple_pattern",
        "from_clause", "join_clause", "let_clause", "catch_declaration"].contains spelling
  | _ => false

namespace Node

/-- The name of a declaration, or the variable of a `foreach`. -/
def isNameDeclared (identifier : Node) : Bool :=
  identifier.parent?.any fun parent =>
    (parent.kind.declaresName &&
        (identifier.field == some .name || parent.declarationName?.any identifier.same)) ||
      (parent.kind == .foreachStatement && (parent.child? .left).any identifier.same)

/-- The label of a named argument: what an argument holds beside its value. -/
def isArgumentLabel (identifier : Node) : Bool :=
  identifier.parent?.any fun parent =>
    parent.kind == .nameColon ||
      (parent.kind == .argument && !parent.argumentValue?.any identifier.same)

/-- The name on the right of a dot, or a name in front of type arguments. -/
def isMemberName (identifier : Node) : Bool :=
  identifier.parent?.any fun parent =>
    ((parent.kind == .memberAccessExpression || parent.kind == .memberBindingExpression ||
        parent.kind == .qualifiedName) && (parent.childOrLast? .name).any identifier.same) ||
      (parent.kind == .genericName && parent.firstPart?.any identifier.same)

/-- The identifier stands where an expression may stand. -/
def isExpressionUse (identifier : Node) : Bool :=
  !identifier.isNameDeclared && !identifier.isArgumentLabel && !identifier.isMemberName

theorem kind_of_is_name_declared {identifier : Node} (declared : identifier.isNameDeclared = true) :
    ∃ parent, identifier.parent? = some parent ∧ isWrapper parent.kind = false ∧
      parent.kind ≠ .argument := by
  obtain ⟨parent, isParent, holds⟩ := (Option.any_eq_true _ _).mp declared
  refine ⟨parent, isParent, ?_⟩
  rcases Bool.or_eq_true_iff.mp holds with named | iterated
  · have declares := (Bool.and_eq_true_iff.mp named).1
    cases kind : parent.kind <;> simp [kind, Kind.declaresName, isWrapper] at declares ⊢
  · have isLoop := eq_of_beq (Bool.and_eq_true_iff.mp iterated).1
    rw [isLoop]
    exact ⟨rfl, nofun⟩

theorem kind_of_is_member_name {identifier : Node} (isMember : identifier.isMemberName = true) :
    ∃ parent, identifier.parent? = some parent ∧ isWrapper parent.kind = false ∧
      parent.kind ≠ .argument := by
  obtain ⟨parent, isParent, holds⟩ := (Option.any_eq_true _ _).mp isMember
  refine ⟨parent, isParent, ?_⟩
  simp only [Bool.or_eq_true, Bool.and_eq_true, beq_iff_eq] at holds
  rcases holds with ⟨(kind | kind) | kind, -⟩ | ⟨kind, -⟩ <;> rw [kind] <;> exact ⟨rfl, nofun⟩

theorem argument_owner_value_root_of_parent {node parent : Node}
    (isParent : node.parent? = some parent)
    (notWrapper : isWrapper parent.kind = false) (notArgument : parent.kind ≠ .argument) :
    node.valueRoot.argumentOwner? = none := by
  rw [value_root_of_not_passes isParent (passes_value_eq_false notWrapper)]
  exact argument_owner_eq_none isParent notArgument

theorem argument_owner_value_root_of_is_argument_label {identifier : Node}
    (isLabel : identifier.isArgumentLabel = true) :
    identifier.valueRoot.argumentOwner? = none := by
  obtain ⟨parent, isParent, holds⟩ := (Option.any_eq_true _ _).mp isLabel
  rcases Bool.or_eq_true_iff.mp holds with isColon | beside
  · have kind := eq_of_beq isColon
    apply argument_owner_value_root_of_parent isParent
    · rw [kind]
      rfl
    · rw [kind]
      nofun
  · obtain ⟨isArgument, notValue⟩ := Bool.and_eq_true_iff.mp beside
    have kind := eq_of_beq isArgument
    have notWrapper : isWrapper parent.kind = false := by
      rw [kind]
      rfl
    rw [value_root_of_not_passes isParent (passes_value_eq_false notWrapper)]
    apply argument_owner_eq_none_of_ne_value isParent
    intro isValue
    rw [isValue, Option.any_some, same_self] at notValue
    cases notValue

theorem argument_owner_value_root_of_not_expression_use {identifier : Node}
    (notUse : identifier.isExpressionUse = false) :
    identifier.valueRoot.argumentOwner? = none := by
  unfold isExpressionUse at notUse
  simp only [Bool.and_eq_false_iff, Bool.not_eq_false'] at notUse
  rcases notUse with (declared | isLabel) | isMember
  · obtain ⟨parent, isParent, notWrapper, notArgument⟩ := kind_of_is_name_declared declared
    exact argument_owner_value_root_of_parent isParent notWrapper notArgument
  · exact argument_owner_value_root_of_is_argument_label isLabel
  · obtain ⟨parent, isParent, notWrapper, notArgument⟩ := kind_of_is_member_name isMember
    exact argument_owner_value_root_of_parent isParent notWrapper notArgument

end Node

end ReleaseAudit.Source

namespace ReleaseAudit.Verdict

set_option autoImplicit false

open Source (Document Node Outline)
open Source.Sample (classWith letter methodWith token unit)
open ReleaseAudit.Types (TypeSymbol)

namespace Region

theorem mem_header_references_iff {region : Region} {name : String} {node : Node} :
    node ∈ region.headerReferences name ↔
      (∃ statement ∈ region.usingStatements, ∃ part ∈ statement.usingHeader,
        node ∈ part.descendants) ∧
      node.kind = .identifier ∧ node.text = name ∧ isDeclaredName node = false := by
  simp only [headerReferences, List.mem_filter, List.mem_flatMap, Bool.and_eq_true, beq_iff_eq,
    Bool.not_eq_true', and_assoc]
  constructor
  · rintro ⟨⟨part, ⟨statement, isStatement, isPart⟩, below⟩, facts⟩
    exact ⟨⟨statement, isStatement, part, isPart, below⟩, facts⟩
  · rintro ⟨⟨statement, isStatement, part, isPart, below⟩, facts⟩
    exact ⟨⟨part, ⟨statement, isStatement, isPart⟩, below⟩, facts⟩

end Region

namespace Audit

variable (audit : Audit)

/-- Looking through wrappers, the reference is an argument of a construction that does not own
it. -/
def OnlyFeeds (reference : Node) : Prop :=
  ∃ owner, reference.valueRoot.argumentOwner? = some owner ∧ owner.kind.isConstruction = true ∧
    audit.isTrackedConstruction owner = false

theorem header_reference_releases_eq_false_iff {reference : Node} :
    audit.headerReferenceReleases reference = false ↔ audit.OnlyFeeds reference := by
  unfold headerReferenceReleases OnlyFeeds
  cases found : reference.valueRoot.argumentOwner? with
  | none => simp
  | some owner => simp

theorem header_reference_releases_of_not_expression_use {reference : Node}
    (notUse : reference.isExpressionUse = false) :
    audit.headerReferenceReleases reference = true := by
  unfold headerReferenceReleases
  rw [Node.argument_owner_value_root_of_not_expression_use notUse]

theorem is_released_locally_of_header {site reference : Node} {region : Region} {name : String}
    (isRegion : audit.regionAt? site = some region)
    (listed : reference ∈ region.headerReferences name)
    (releases : audit.headerReferenceReleases reference = true) (resource : TypeSymbol) :
    audit.isReleasedLocally site name resource = true := by
  have found : (region.headerReferences name).any audit.headerReferenceReleases = true :=
    List.any_eq_true.mpr ⟨reference, listed, releases⟩
  unfold isReleasedLocally
  rw [isRegion]
  simp [found]

end Audit

/-- The references of a region's `using` headers are all identifiers of that spelling but the
names of declarators. The others that are no uses, labels, member names and names declared
otherwise, each count as a release of the local. So, where every use only feeds
constructions that do not own it, the headers still release the local exactly if such an
identifier stands in one of them. -/
theorem header_references_release_iff (audit : Audit) (region : Region) (name : String) :
    (∀ node, node ∈ region.headerReferences name ↔
      (∃ statement ∈ region.usingStatements, ∃ part ∈ statement.usingHeader,
        node ∈ part.descendants) ∧
      node.kind = .identifier ∧ node.text = name ∧ Region.isDeclaredName node = false) ∧
    (∀ node ∈ region.headerReferences name, node.isExpressionUse = false →
      ∀ site, audit.regionAt? site = some region →
        ∀ resource, audit.isReleasedLocally site name resource = true) ∧
    ((∀ node ∈ region.headerReferences name, node.isExpressionUse = true →
        audit.OnlyFeeds node) →
      ((region.headerReferences name).any audit.headerReferenceReleases = true ↔
        ∃ node ∈ region.headerReferences name, node.isExpressionUse = false)) := by
  refine ⟨fun node => Region.mem_header_references_iff, ?_, ?_⟩
  · intro node listed notUse site isRegion resource
    have releases := audit.header_reference_releases_of_not_expression_use notUse
    exact audit.is_released_locally_of_header isRegion listed releases resource
  · intro feeds
    rw [List.any_eq_true]
    constructor
    · rintro ⟨node, listed, releases⟩
      refine ⟨node, listed, ?_⟩
      cases isUse : node.isExpressionUse with
      | false => rfl
      | true =>
          have keeps := audit.header_reference_releases_eq_false_iff.mpr (feeds node listed isUse)
          rw [releases] at keeps
          exact keeps
    · rintro ⟨node, listed, notUse⟩
      exact ⟨node, listed, audit.header_reference_releases_of_not_expression_use notUse⟩

/-- `class A { void M() { using (new A(s: s)) { } } }`: the label counts as a use. -/
def labelledText : String := "class A \x7b void M() \x7b using (new A(s: s)) \x7b \x7d \x7d \x7d"

def labelledCreation : Outline :=
  .node .objectCreationExpression true none 28 39
    [token "new" 28, letter (some .type) 32,
      .node .argumentList true (some .arguments) 33 39
        [token "(" 33,
          .node .argument true none 34 38
            [letter (some .name) 34, token ":" 35, letter none 37],
          token ")" 38]]

def labelledOutline : Outline :=
  unit 48 [classWith 0 48
    [methodWith 10 46
      [.node .usingStatement true none 21 44
        [token "using" 21, token "(" 27, labelledCreation, token ")" 39,
          .node .block true (some .body) 41 44 [token "\x7b" 41, token "\x7d" 43]]]]]

def labelledDocument : Document := .ofOutline "labelled.cs" labelledText labelledOutline

/-- No expression has a known type, so no construction owns its arguments. -/
def untypedAudit : Audit where
  model := { typeOf _ := none, symbolOf _ := none }
  rules := partsRules

theorem header_references_release_iff_labelled :
    ∃ region : Region, region.root = labelledDocument.root ∧
      (∀ node ∈ region.headerReferences "s", node.isExpressionUse = true →
        untypedAudit.OnlyFeeds node) ∧
      (region.headerReferences "s").map (fun node => (node.start, node.isArgumentLabel)) =
        [(34, true), (37, false)] ∧
      (region.headerReferences "s").any untypedAudit.headerReferenceReleases = true := by
  have roles : ((⟨labelledDocument.root⟩ : Region).headerReferences "s").map
      (fun node => (node.start, node.isArgumentLabel)) = [(34, true), (37, false)] := by
    decide +kernel
  have feeds : ((⟨labelledDocument.root⟩ : Region).headerReferences "s").all (fun node =>
      !node.isExpressionUse || !untypedAudit.headerReferenceReleases node) = true := by
    decide +kernel
  have notUse : ((⟨labelledDocument.root⟩ : Region).headerReferences "s").any
      (fun node => !node.isExpressionUse) = true := by
    decide +kernel
  have onlyFeeds : ∀ node ∈ (⟨labelledDocument.root⟩ : Region).headerReferences "s",
      node.isExpressionUse = true → untypedAudit.OnlyFeeds node := by
    intro node listed isUse
    apply untypedAudit.header_reference_releases_eq_false_iff.mp
    simpa [isUse] using List.all_eq_true.mp feeds node listed
  refine ⟨⟨labelledDocument.root⟩, rfl, onlyFeeds, roles, ?_⟩
  obtain ⟨label, isLabel, notUse⟩ := List.any_eq_true.mp notUse
  apply ((header_references_release_iff untypedAudit ⟨labelledDocument.root⟩ "s").2.2 onlyFeeds).mpr
  exact ⟨label, isLabel, by simpa using notUse⟩

end ReleaseAudit.Verdict
