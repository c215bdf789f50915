import ReleaseAudit.Proofs.Source.Sample
import ReleaseAudit.Proofs.Verdict.FileOrder
import ReleaseAudit.Proofs.Verdict.TwinPlacement

/-!
# Judging the two spellings of a getter

What a getter creates is judged alike whether the getter is written
`get => value;` or `get { return value; }`, with two exceptions. A `new()` that
is the value has a type in the long form only. And an indexer returns its value
in the long form only, so what the short form hands on is anonymous there, or
an argument of the call that is handed on.
-/

namespace ReleaseAudit.Inference

set_option autoImplicit false

open Declarations (Index)
open Source (Kind Node Respelling Tree)

/-- The model that does not know the type of a `new()` whose value is `value`. -/
def Model.forgetting (model : Model) (value : Node) : Model :=
  { model with
    typeOf := fun node =>
      if node.kind == .implicitObjectCreationExpression && node.valueRoot.same value then none
      else model.typeOf node }

variable {before after : Tree} {spelling : Respelling before after} {left right : Node}
  {value otherValue : Node}

/-- Creations and awaited results have a type of their own, but for a `new()` that the getter
hands on. -/
theorem type_of_eq_of_twin (index : Index) (twins : spelling.Twin left right)
    (kinds : left.kind.isCreation = true ∨ left.kind = .awaitExpression)
    (unhanded : left.kind = .implicitObjectCreationExpression → ¬Handed spelling left) :
    typeOf? index left = typeOf? index right := by
  apply type_at_eq_of_twin index maxDepth twins
  by_cases implicit : left.kind = .implicitObjectCreationExpression
  · exact Or.inr (unhanded implicit)
  · left
    rcases kinds with creates | isAwait
    · unfold Kind.isCreation at creates
      split at creates
      · next kind => rw [kind]; rfl
      · next kind => exact absurd kind implicit
      · next kind => rw [kind]; rfl
      · cases creates
    · rw [isAwait]
      rfl

theorem handed_iff (values : spelling.Twin value otherValue) (isValue : spelling.IsValue value)
    (twins : spelling.Twin left right) : Handed spelling left ↔ left.valueRoot = value := by
  constructor
  · intro handed
    apply Node.eq_of_place (twins.value_root.left_top.trans values.left_top.symm)
    rw [handed, isValue]
  · intro same
    rw [Handed, same]
    exact isValue

end ReleaseAudit.Inference

namespace ReleaseAudit.Verdict

set_option autoImplicit false

open Declarations (Index)
open Inference (Model)
open Rules (Ruleset)
open Source (Document Kind Node Outline Respelling Tree)
open Source.Node (ClimbsTo rel_cases)
open Source.Respelling (Between InMember Twin)
open Source.Sample (classWith letter token unit)

def Diagnostic.movedTo (diagnostic : Diagnostic) (location : Location) : Diagnostic :=
  { diagnostic with location := location }

variable {before after : Tree} {spelling : Respelling before after} {left right : Node}

theorem twin_created_value (twins : spelling.Twin left right) :
    spelling.Twin left.createdValue right.createdValue := by
  unfold Node.createdValue
  rw [← twins.kind_eq]
  split
  · rcases rel_cases twins.awaited_by with ⟨absent, absent'⟩ | ⟨await, other, found, found', awaits⟩
    · rw [absent, absent']
      exact twins
    · rw [found, found']
      exact awaits
  · exact twins

theorem in_value_created_value (twins : spelling.Twin left right) (inside : spelling.InValue left) :
    spelling.InValue left.createdValue := by
  unfold Node.createdValue
  split
  · cases found : left.awaitedBy? with
    | none => exact inside
    | some await => exact inside.awaited_by twins found
  · exact inside

theorem kind_of_await_among {enclosing : List Node} {await : Node}
    (found : Node.awaitAmong? enclosing = some await) : await.kind = .awaitExpression := by
  fun_induction Node.awaitAmong? enclosing with
  | case1 => cases found
  | case2 parent enclosing isWrapper ih => exact ih found
  | case3 parent enclosing isAwait =>
      cases found
      exact isAwait
  | case4 => cases found

theorem kind_created_value {node : Node} (creates : node.kind.isCreation = true) :
    node.createdValue.kind.isCreation = true ∨ node.createdValue.kind = .awaitExpression := by
  unfold Node.createdValue
  split
  · cases found : node.awaitedBy? with
    | none => exact Or.inl creates
    | some await => exact Or.inr (kind_of_await_among found)
  · exact Or.inl creates

theorem type_of_of_handed {value otherValue clause getter statement block otherGetter list otherList
    owner otherOwner : Node} (index : Index) (values : spelling.Twin value otherValue)
    (between : spelling.Between value otherValue clause getter statement block otherGetter)
    (inMember : spelling.InMember getter otherGetter list otherList owner otherOwner)
    (twins : spelling.Twin left right) (kind : left.kind = .implicitObjectCreationExpression)
    (isRoot : left.valueRoot = value) :
    Inference.typeOf? index left = none ∧
      Inference.typeOf? index right = Inference.declaredAt? index owner := by
  have roots := twins.value_root
  rw [isRoot] at roots
  have here : spelling.Between left.valueRoot right.valueRoot clause getter statement block
      otherGetter := by
    rw [isRoot, roots.unique values]
    exact between
  exact Inference.type_at_of_handed here inMember index (Inference.maxDepth - 1) twins kind

section Agreeing

variable {value otherValue : Node} (index : Index) (rules : Ruleset)

/-- Where no `new()` is handed on, one model answers alike about both spellings. -/
theorem agrees_of_unhanded (values : spelling.Twin value otherValue)
    (isValue : spelling.IsValue value)
    (unhanded : ∀ created : Node, created.kind = .implicitObjectCreationExpression →
      created.valueRoot ≠ value) :
    Agrees spelling ⟨Model.ofIndex index, rules⟩ ⟨Model.ofIndex index, rules⟩ where
  rules := rfl
  typeOf := by
    intro left right twins kinds
    apply Inference.type_of_eq_of_twin index twins kinds
    intro implicit handed
    exact unhanded left implicit ((Inference.handed_iff values isValue twins).mp handed)
  symbolOf twins kinds := Inference.symbol_of_eq_of_twin index twins kinds
  scope := rfl
  otherScope := rfl

/-- The spellings differ in nothing but the type of a `new()` that is handed on. -/
theorem agrees_forgetting {clause getter statement block otherGetter list otherList owner
    otherOwner : Node} (values : spelling.Twin value otherValue)
    (between : spelling.Between value otherValue clause getter statement block otherGetter)
    (inMember : spelling.InMember getter otherGetter list otherList owner otherOwner) :
    Agrees spelling ⟨Model.ofIndex index, rules⟩
      ⟨(Model.ofIndex index).forgetting otherValue, rules⟩ where
  rules := rfl
  typeOf := by
    intro left right twins kinds
    have isHanded := Inference.handed_iff values between.place twins
    have sameRoot : left.valueRoot.same value = true ↔ left.valueRoot = value :=
      Node.place_injective (twins.value_root.left_top.trans values.left_top.symm)
    dsimp only [Model.forgetting]
    rw [← twins.kind_eq, ← twins.value_root.same_eq values]
    split
    · next forgotten =>
        obtain ⟨implicit, same⟩ := Bool.and_eq_true_iff.mp forgotten
        have root := sameRoot.mp same
        exact (type_of_of_handed index values between inMember twins (eq_of_beq implicit) root).1
    · next kept =>
        apply Inference.type_of_eq_of_twin index twins kinds
        intro implicit handed
        apply kept
        rw [implicit, sameRoot.mpr (isHanded.mp handed)]
        rfl
  symbolOf twins kinds := Inference.symbol_of_eq_of_twin index twins kinds
  scope := rfl
  otherScope := rfl

end Agreeing

section Judging

variable {audit other : Audit} (agrees : Agrees spelling audit other)

include agrees

theorem origin_of_eq_of_twin (twins : spelling.Twin left right) :
    audit.originOf? left = other.originOf? right := by
  unfold Audit.originOf?
  rw [← twins.kind_eq, is_ignored_factory_eq_of_twin agrees twins,
    tracks_ownership_eq_of_twin agrees twins]

omit agrees in
theorem is_creation_of_origin_of {node : Node} {origin : Origin}
    (found : audit.originOf? node = some origin) : node.kind.isCreation = true := by
  unfold Audit.originOf? at found
  split at found
  · next constructs => exact is_creation_of_is_construction constructs
  · split at found
    · next isCall =>
        rw [eq_of_beq isCall]
        rfl
    · cases found

theorem resource_of_twin (twins : spelling.Twin left right) :
    (audit.resourceOf? left).map
        (fun created => (created.1, other.placeValue right.createdValue.valueRoot, created.2.2)) =
      other.resourceOf? right := by
  rw [Audit.resource_of_eq, Audit.resource_of_eq, ← origin_of_eq_of_twin agrees twins]
  cases isOrigin : audit.originOf? left with
  | none => rfl
  | some origin =>
      have creates := is_creation_of_origin_of isOrigin
      have types := agrees.typeOf (twin_created_value twins) (kind_created_value creates)
      rw [Option.bind_some, Option.bind_some, types]
      cases other.model.typeOf right.createdValue with
      | none => rfl
      | some type =>
          rw [Option.bind_some, Option.bind_some, agrees.rules]
          split <;> rfl

theorem diagnose_eq_of_alike (original changed : Document) (twins : spelling.Twin left right)
    (alike : DecidedAlike spelling audit other (audit.placeValue left.createdValue.valueRoot)
      (other.placeValue right.createdValue.valueRoot)) :
    (audit.diagnose? original left).map (Option.map (·.movedTo (Location.ofNode changed right))) =
      other.diagnose? changed right := by
  unfold Audit.diagnose?
  rw [← resource_of_twin agrees twins]
  cases created : audit.resourceOf? left with
  | none => rfl
  | some resource =>
      obtain ⟨origin, placement, type⟩ := resource
      obtain ⟨-, -, -, rfl⟩ := audit.resource_of_eq_some_iff.mp created
      simp only [Option.map_some]
      rw [alike.decide_eq twins type, Option.map_map]
      congr 1
      funext decision
      cases decision with
      | released => rfl
      | unreleased holder name =>
          simp only [Function.comp_apply, Audit.report, Option.map_some, Diagnostic.movedTo,
            agrees.rules]

end Judging

theorem around_value {value otherValue clause getter list owner : Node}
    (values : spelling.Twin value otherValue) (isValue : spelling.IsValue value)
    (around : value.ancestors = clause :: getter :: list :: owner :: owner.ancestors) :
    ∃ statement block otherGetter otherList otherOwner,
      spelling.Between value otherValue clause getter statement block otherGetter ∧
        spelling.InMember getter otherGetter list otherList owner otherOwner := by
  obtain ⟨arrow, accessor, statement, block, otherGetter, between⟩ := values.between isValue
  obtain ⟨accessors, otherList, member, otherOwner, inMember⟩ :=
    between.getters.in_member between.getterPlace
  rw [Node.ancestors_of_parent between.isArrow, Node.ancestors_of_parent between.isGetter,
    Node.ancestors_of_parent inMember.isList, Node.ancestors_of_parent inMember.isOwner] at around
  cases around
  exact ⟨statement, block, otherGetter, otherList, otherOwner, between, inMember⟩

theorem in_value_of_within {node value : Node} (isValue : spelling.IsValue value)
    (within : node.Within value) : spelling.InValue node := by
  obtain ⟨-, rest, there⟩ := Node.Within.iff_place.mp within
  refine ⟨rest, ?_⟩
  rw [← there, isValue]
  simp

/-- The two spellings of one getter, compiled with the same other documents. -/
theorem diagnose_getter_spelling (rules : Ruleset) (front back : List Document)
    {original changed : Document} (spelling : Respelling original.tree changed.tree)
    {value otherValue clause getter list owner node other : Node}
    (values : spelling.Twin value otherValue) (isValue : spelling.IsValue value)
    (around : value.ancestors = clause :: getter :: list :: owner :: owner.ancestors)
    (twins : spelling.Twin node other) (within : node.Within value) :
    let index := Inference.indexOf rules.catalog (front ++ original :: back)
    let short : Audit := ⟨.ofDocuments rules.catalog (front ++ original :: back), rules⟩
    let long : Audit := ⟨.ofDocuments rules.catalog (front ++ changed :: back), rules⟩
    let untyped : Audit := ⟨long.model.forgetting otherValue, rules⟩
    let moved := (short.diagnose? original node).map
      (Option.map (·.movedTo (Location.ofNode changed other)))
    -- a `new()` that is handed on takes the type of the member in the long form only
    (node.kind = .implicitObjectCreationExpression → node.valueRoot = value →
      short.model.typeOf node = none ∧ short.diagnose? original node = some none ∧
        long.model.typeOf other = Inference.declaredAt? index owner) ∧
    -- but for that type, all is judged alike that an indexer does not return
    (owner.kind = .propertyDeclaration ∨ ¬ClimbsTo clause node.createdValue →
      moved = untyped.diagnose? changed other ∧
        ((∀ created : Node, created.kind = .implicitObjectCreationExpression →
          created.valueRoot ≠ value) → moved = long.diagnose? changed other)) ∧
    -- what an indexer returns is released in the long form, and not seen as returned in the short
    (owner.kind = .indexerDeclaration → ClimbsTo clause node.createdValue →
      long.diagnose? changed other = some none ∧
        short.placeValue node.createdValue.valueRoot =
          (node.createdValue.valueRoot.argumentOwner?.map argumentPlacement).getD .anonymous) := by
  intro index short long untyped moved
  obtain ⟨statement, block, otherGetter, otherList, otherOwner, between, inMember⟩ :=
    around_value values isValue around
  have sameIndex := Inference.index_of_eq_of_respelling rules.catalog front back spelling
  have isShort : short = ⟨Model.ofIndex index, rules⟩ := rfl
  have isLong : long = ⟨Model.ofIndex index, rules⟩ := by
    simp only [long, index, Model.ofDocuments, sameIndex]
  have isUntyped : untyped = ⟨(Model.ofIndex index).forgetting otherValue, rules⟩ := by
    simp only [untyped, isLong]
  have created := twin_created_value twins
  refine ⟨?_, ?_, ?_⟩
  · intro implicit isRoot
    obtain ⟨untypedShort, typedLong⟩ :=
      type_of_of_handed index values between inMember twins implicit isRoot
    have itself : node.createdValue = node := by simp [Node.createdValue, implicit]
    refine ⟨untypedShort, ?_, ?_⟩
    · apply short.diagnose_of_decide original
      intro type typed
      rw [itself] at typed
      cases untypedShort.symm.trans typed
    · rw [isLong]
      exact typedLong
  · intro settled
    have inside := in_value_created_value twins (in_value_of_within isValue within)
    have climbs : owner.kind = .propertyDeclaration ∨
        ¬ClimbsTo clause node.createdValue.valueRoot :=
      settled.imp_right fun clear upward =>
        clear (upward.of_value_root (Node.value_root_value_root _).symm)
    have judged : ∀ {audit : Audit}, Agrees spelling short audit →
        moved = audit.diagnose? changed other := by
      intro audit agrees
      apply diagnose_eq_of_alike agrees original changed twins
      exact alike_place_value values between inMember agrees created.value_root
        (inside.value_root created) climbs
    constructor
    · apply judged
      rw [isShort, isUntyped]
      exact agrees_forgetting index rules values between inMember
    · intro unhanded
      apply judged
      rw [isShort, isLong]
      apply agrees_of_unhanded index rules values isValue unhanded
  · intro isIndexer climbs
    have notProperty : owner.kind ≠ .propertyDeclaration := by
      rw [isIndexer]
      decide
    constructor
    · apply long.diagnose_of_decide changed
      intro type _
      rw [place_value_long values between inMember long notProperty created climbs]
      rfl
    · exact place_value_short values between inMember short notProperty created climbs

/-- `new A()` -/
def creationAt (start : UInt32) : Outline :=
  .node .objectCreationExpression true none start (start + 7)
    [token "new" start, letter (some .type) (start + 4),
      .node .argumentList true (some .arguments) (start + 5) (start + 7)
        [token "(" (start + 5), token ")" (start + 6)]]

/-- A class with an indexer, whose getter has the given body. -/
def indexerWith (stop : UInt32) (body : List Outline) : Outline :=
  unit (stop + 4) [classWith 0 (stop + 4)
    [.node .indexerDeclaration true none 10 (stop + 2)
      [letter (some .type) 10, token "this" 12,
        .node (.other "bracketed_parameter_list") true (some .parameters) 16 21
          [token "[" 16,
            .node .parameter true none 17 20 [letter (some .type) 17, letter (some .name) 19],
            token "]" 20],
        .node .accessorList true none 22 (stop + 2)
          [token "\x7b" 22,
            .node .accessorDeclaration true none 24 stop
              (.node (.other "get") false (some .name) 24 27 [] :: body),
            token "\x7d" (stop + 1)]]]]

def shortIndexer : Document :=
  .ofOutline "short.cs" "class A \x7b A this[A i] \x7b get => new A(); \x7d \x7d"
    (indexerWith 39
      [.node .arrowExpressionClause true (some .body) 28 38 [token "=>" 28, creationAt 31],
        token ";" 38])

def longIndexer : Document :=
  .ofOutline "long.cs" "class A \x7b A this[A i] \x7b get \x7b return new A(); \x7d \x7d \x7d"
    (indexerWith 47
      [.node .block true (some .body) 28 47
        [token "\x7b" 28,
          .node .returnStatement true none 30 45
            [token "return" 30, creationAt 37, token ";" 44],
          token "\x7d" 46]])

/-- The value moves behind `return `, and the rest behind the closing brace of the block. -/
def indexerMove (offset : Nat) : Nat :=
  if offset ≤ 30 then offset else if offset ≤ 38 then offset + 6 else offset + 8

def indexerSpelling : Respelling shortIndexer.tree longIndexer.tree where
  move := indexerMove
  hole := [0, 2, 1, 3, 1]
  slot := 1
  inMember := by decide
  respelled := by decide +kernel
  ordered := by
    intro offset _ other _ before
    unfold indexerMove
    split <;> split <;> (try split) <;> (try split) <;> omega

def indexerRules : Ruleset := { partsRules with disposalContracts := ["A"] }

theorem diagnose_getter_spelling_indexer :
    ∃ value otherValue : Node, indexerSpelling.Twin value otherValue ∧
      indexerSpelling.IsValue value ∧
      ((⟨.ofDocuments indexerRules.catalog [shortIndexer], indexerRules⟩ : Audit).diagnose?
        shortIndexer value).join.isSome = true ∧
      (⟨.ofDocuments indexerRules.catalog [longIndexer], indexerRules⟩ : Audit).diagnose?
        longIndexer otherValue = some none := by
  have short : ((shortIndexer.root.descendantsOf .objectCreationExpression).any fun node =>
      node.place == [0, 2, 1, 3, 1, 1, 1] &&
        node.ancestors.map Node.kind ==
          [.arrowExpressionClause, .accessorDeclaration, .accessorList, .indexerDeclaration,
            .declarationList, .classDeclaration, .compilationUnit] &&
        ((⟨.ofDocuments indexerRules.catalog [shortIndexer], indexerRules⟩ : Audit).diagnose?
          shortIndexer node).join.isSome) = true := by
    decide +kernel
  have long : ((longIndexer.root.descendantsOf .objectCreationExpression).any fun node =>
      node.place == [0, 2, 1, 3, 1, 1, 1, 1]) = true := by
    decide +kernel
  obtain ⟨value, listed, shape⟩ := List.any_eq_true.mp short
  obtain ⟨otherValue, otherListed, otherPlace⟩ := List.any_eq_true.mp long
  simp only [Bool.and_eq_true, beq_iff_eq] at shape
  obtain ⟨⟨place, kinds⟩, reported⟩ := shape
  obtain ⟨inShort, creates⟩ := List.mem_filter.mp listed
  have inLong := (List.mem_filter.mp otherListed).1
  have isValue : indexerSpelling.IsValue value := place
  have values : indexerSpelling.Twin value otherValue :=
    .inside [] (Node.top_of_mem_descendants inShort) (Node.top_of_mem_descendants inLong) place
      (eq_of_beq otherPlace)
  obtain ⟨clause, getter, _, _, _, between⟩ := values.between isValue
  obtain ⟨list, _, owner, _, inMember⟩ := between.getters.in_member between.getterPlace
  have around : value.ancestors = clause :: getter :: list :: owner :: owner.ancestors := by
    rw [Node.ancestors_of_parent between.isArrow, Node.ancestors_of_parent between.isGetter,
      Node.ancestors_of_parent inMember.isList, Node.ancestors_of_parent inMember.isOwner]
  have isIndexer : owner.kind = .indexerDeclaration := by
    rw [around] at kinds
    simp only [List.map_cons, List.cons.injEq] at kinds
    exact kinds.2.2.2.1
  have itself : value.createdValue = value := by simp [Node.createdValue, eq_of_beq creates]
  have climbs : ClimbsTo clause value.createdValue := by
    rw [itself]
    exact climbs_to_of_parent between between.isArrow
  obtain ⟨-, -, returned⟩ := diagnose_getter_spelling indexerRules [] [] indexerSpelling values
    isValue around values (Node.Within.self value)
  exact ⟨value, otherValue, values, isValue, reported, (returned isIndexer climbs).1⟩

end ReleaseAudit.Verdict
