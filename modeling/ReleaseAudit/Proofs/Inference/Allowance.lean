import Mathlib.Data.List.TakeWhile
import ReleaseAudit.Inference.Model
import ReleaseAudit.Proofs.Source.Sample

/-!
# Types under a larger allowance

A step of inference asks for the types of its operands one after the other, and
the first known one decides. What is known stays known under a larger allowance,
unless the step passed over an operand that only the bound made unknown and
answered from elsewhere.
-/

namespace ReleaseAudit.Inference

set_option autoImplicit false

open Declarations (Catalog Index)
open Source (Document Node Outline)
open Source.Sample (body classWith letter token unit)
open ReleaseAudit.Types (TypeRef TypeSymbol)

def initialOf? (declarator site : Node) : Option Node := do
  let declaration ← declarator.parent?
  let typeNode ← declaration.declaredType?
  let written ← TypeRef.parse? typeNode.text
  if written.isImplicit then
    let initial ← declarator.declaratorValue?
    if initial.start ≤ site.start && site.start < initial.stop then none else some initial
  else none

def assignedTo? (node : Node) : Option Node :=
  if node.valueRoot.declaratorOf?.isSome then none
  else do
    let parent ← node.valueRoot.parent?
    if parent.kind = .assignmentExpression then
      let _ ← (parent.child? .right).filter node.valueRoot.same
      parent.child? .left
    else none

section Operands

variable (index : Index)

def collectionOf? (statement : Node) : Option Node :=
  if ((statement.child? .type).bind (writtenAt? index)).isSome then none
  else statement.child? .right

def bindingOperand? (binding : Binding) (site : Node) : Option Node :=
  match binding with
  | .localVariable declarator => initialOf? declarator site
  | .iteration statement => collectionOf? index statement
  | .parameter _ | .untyped | .member _ _ => none

/-- The expression whose type decides that of the node; a `?:` has two. -/
def operandOf? (node : Node) : Option Node :=
  match node.kind with
  | .implicitObjectCreationExpression => assignedTo? node
  | .invocationExpression => node.callTarget?.bind Source.CallTarget.receiver
  | .awaitExpression | .parenthesizedExpression => node.operand?
  | .binaryExpression =>
      if node.binaryOperator? == some "??" then node.childOrFirst? .left else none
  | .postfixUnaryExpression => if node.assertsPresence then node.operand? else none
  | .identifier =>
      (lookup? index node node.text).bind fun binding => bindingOperand? index binding node
  | .memberAccessExpression => node.child? .expression
  | _ => none

/-- The expressions whose types a step asks for, in order. -/
def operands (node : Node) : List Node :=
  if node.kind = .conditionalExpression then
    (node.child? .consequence).toList ++ (node.child? .alternative).toList
  else (operandOf? index node).toList

end Operands

section Step

variable (index : Index) {left right : Node → Option TypeSymbol}

theorem local_type_eq_of_initial {declarator site : Node}
    (same : ∀ initial ∈ initialOf? declarator site, left initial = right initial) :
    localType? index left declarator site = localType? index right declarator site := by
  unfold localType?
  refine Option.bind_congr fun declaration isDeclaration => ?_
  refine Option.bind_congr fun typeNode isTypeNode => ?_
  refine Option.bind_congr fun written isWritten => ?_
  split
  next implicit =>
    refine Option.bind_congr fun initial isInitial => ?_
    split
    · rfl
    next outside =>
      apply same
      simp only [initialOf?, isDeclaration, isTypeNode, isWritten, isInitial, implicit, outside,
        Option.bind_eq_bind, Option.bind_some, if_true, Option.mem_def]
      rfl
  · rfl

theorem local_type_unknown {declarator site initial : Node}
    (isInitial : initialOf? declarator site = some initial) :
    localType? index (fun _ => none) declarator site = none := by
  obtain ⟨declaration, isDeclaration, isInitial⟩ := Option.bind_eq_some_iff.mp isInitial
  obtain ⟨typeNode, isTypeNode, isInitial⟩ := Option.bind_eq_some_iff.mp isInitial
  obtain ⟨written, isWritten, isInitial⟩ := Option.bind_eq_some_iff.mp isInitial
  split at isInitial
  next implicit => simp [localType?, isDeclaration, isTypeNode, isWritten, implicit]
  next => cases isInitial

theorem iteration_type_eq_of_collection {statement : Node}
    (same : ∀ collection ∈ collectionOf? index statement, left collection = right collection) :
    iterationType? index left statement = iterationType? index right statement := by
  unfold iterationType?
  cases isWritten : (statement.child? .type).bind (writtenAt? index) with
  | some type => rfl
  | none =>
      have operands :
          (statement.child? .right).bind left = (statement.child? .right).bind right := by
        refine Option.bind_congr fun collection isCollection => same collection ?_
        simp [collectionOf?, isWritten, isCollection]
      rw [operands]

theorem iteration_type_unknown {statement collection : Node}
    (isCollection : collectionOf? index statement = some collection) :
    iterationType? index (fun _ => none) statement = none := by
  unfold collectionOf? at isCollection
  split at isCollection
  next => cases isCollection
  next unwritten =>
    rw [iterationType?, Option.not_isSome_iff_eq_none.mp unwritten, isCollection]
    rfl

theorem binding_type_eq_of_operand {binding : Binding} {site : Node}
    (same : ∀ operand ∈ bindingOperand? index binding site, left operand = right operand) :
    bindingType? index left binding site = bindingType? index right binding site := by
  cases binding with
  | localVariable declarator => exact local_type_eq_of_initial index same
  | iteration statement => exact iteration_type_eq_of_collection index same
  | parameter declaration => rfl
  | untyped => rfl
  | member decl member => rfl

theorem binding_type_unknown {binding : Binding} {site operand : Node}
    (isOperand : bindingOperand? index binding site = some operand) :
    bindingType? index (fun _ => none) binding site = none := by
  cases binding with
  | localVariable declarator => exact local_type_unknown index isOperand
  | iteration statement => exact iteration_type_unknown index isOperand
  | parameter declaration => cases isOperand
  | untyped => cases isOperand
  | member decl member => cases isOperand

theorem target_type_eq_of_assigned {node : Node}
    (same : ∀ target ∈ assignedTo? node, left target = right target) :
    targetType? index left node = targetType? index right node := by
  unfold targetType?
  dsimp only
  cases undeclared : node.valueRoot.declaratorOf? with
  | some declarator => rfl
  | none =>
      refine Option.bind_congr fun parent isParent => ?_
      split
      next assigned =>
        refine Option.bind_congr fun value isValue => ?_
        refine Option.bind_congr fun target isTarget => same target ?_
        simp [assignedTo?, undeclared, isParent, assigned, isValue, isTarget]
      all_goals rfl

theorem target_type_unknown {node target : Node} (isTarget : assignedTo? node = some target) :
    targetType? index (fun _ => none) node = none := by
  unfold assignedTo? at isTarget
  split at isTarget
  next => cases isTarget
  next undeclared =>
    obtain ⟨parent, isParent, isTarget⟩ := Option.bind_eq_some_iff.mp isTarget
    split at isTarget
    next assigned =>
      simp [targetType?, Option.not_isSome_iff_eq_none.mp undeclared, isParent, assigned]
    next => cases isTarget

theorem call_on_eq_of_receiver {receiver : Node} (same : left receiver = right receiver)
    (name : String) (count : Nat) (typeArguments : List TypeSymbol) :
    callOn? index left receiver name count typeArguments =
      callOn? index right receiver name count typeArguments := by
  rw [callOn?, same, callOn?]

theorem resolve_call_eq_of_receiver {invocation : Node}
    (same : ∀ receiver ∈ invocation.callTarget?.bind Source.CallTarget.receiver,
      left receiver = right receiver) :
    resolveCall? index left invocation = resolveCall? index right invocation := by
  unfold resolveCall?
  refine Option.bind_congr fun target isTarget => ?_
  dsimp only
  cases isReceiver : target.receiver with
  | none => rfl
  | some receiver =>
      apply call_on_eq_of_receiver
      apply same
      simp [isTarget, isReceiver]

theorem member_access_type_eq_of_receiver {access : Node}
    (same : ∀ receiver ∈ access.child? .expression, left receiver = right receiver) :
    memberAccessType? index left access = memberAccessType? index right access := by
  have owners : (access.child? .expression).bind (receiverType? index left) =
      (access.child? .expression).bind (receiverType? index right) := by
    refine Option.bind_congr fun receiver isReceiver => ?_
    rw [receiverType?, same receiver isReceiver, receiverType?]
  rw [memberAccessType?, memberAccessType?, accessedMember?, accessedMember?, owners]

theorem type_step_eq_of_operand {node : Node} (plain : node.kind ≠ .conditionalExpression)
    (same : ∀ operand ∈ operandOf? index node, left operand = right operand) :
    typeStep? index left node = typeStep? index right node := by
  unfold operandOf? at same
  unfold typeStep?
  split
  next => rfl
  next => rfl
  next kind =>
    rw [kind] at same
    exact target_type_eq_of_assigned index same
  next kind =>
    rw [kind] at same
    rw [resolve_call_eq_of_receiver index same]
  next kind =>
    rw [kind] at same
    rw [Option.bind_congr same]
  next kind =>
    rw [kind] at same
    exact Option.bind_congr same
  next => rfl
  next kind =>
    rw [kind] at same
    split
    next coalesces =>
      simp only [coalesces, if_true] at same
      exact Option.bind_congr same
    next => rfl
  next kind => exact absurd kind plain
  next kind =>
    rw [kind] at same
    split
    next asserts =>
      simp only [asserts, if_true] at same
      exact Option.bind_congr same
    next => rfl
  next kind =>
    rw [kind] at same
    refine Option.bind_congr fun binding isBinding => binding_type_eq_of_operand index ?_
    simp only [isBinding, Option.bind_some] at same
    exact same
  next kind =>
    rw [kind] at same
    exact member_access_type_eq_of_receiver index same
  next => rfl

theorem find_some_to_list (infer : Node → Option TypeSymbol) (operand : Option Node) :
    operand.toList.findSome? infer = operand.bind infer := by
  cases operand <;> simp

/-- The first known type among the operands decides. -/
theorem type_step_eq_of_operands {node : Node}
    (same : (operands index node).findSome? left = (operands index node).findSome? right) :
    typeStep? index left node = typeStep? index right node := by
  unfold operands at same
  split at same
  next kind =>
    rw [typeStep?, kind, typeStep?, kind]
    simpa [List.findSome?_append, find_some_to_list] using same
  next plain =>
    refine type_step_eq_of_operand index plain fun operand isOperand => ?_
    rw [Option.mem_def.mp isOperand] at same
    simpa using same

/-- Kinds of expressions whose type may come from elsewhere when that of an operand is unknown:
from the other branch, or from the type that a receiver names. -/
def hasSecondSource : Source.Kind → Bool
  | .conditionalExpression | .invocationExpression | .memberAccessExpression => true
  | _ => false

/-- All other expressions have no type while that of their operand is unknown. -/
theorem type_step_unknown {node operand : Node} (single : hasSecondSource node.kind = false)
    (isOperand : operandOf? index node = some operand) :
    typeStep? index (fun _ => none) node = none := by
  unfold operandOf? at isOperand
  split at isOperand
  next kind =>
    rw [typeStep?, kind]
    exact target_type_unknown index isOperand
  next kind => cases kind ▸ single
  next kind =>
    rw [typeStep?, kind]
    simp
  next kind =>
    rw [typeStep?, kind]
    simp
  next kind =>
    split at isOperand
    next coalesces =>
      rw [typeStep?, kind]
      simp [coalesces]
    next => cases isOperand
  next kind =>
    rw [typeStep?, kind]
    simp
  next kind =>
    rw [typeStep?, kind]
    obtain ⟨binding, isBinding, isOperand⟩ := Option.bind_eq_some_iff.mp isOperand
    dsimp only
    rw [isBinding, Option.bind_some, binding_type_unknown index isOperand]
  next kind => cases kind ▸ single
  next => cases isOperand

end Step

section Allowance

variable (index : Index)

/-- Only the bound keeps the type unknown: a larger allowance gives one. -/
def CutOff (depth : Nat) (node : Node) : Prop :=
  typeAt? index depth node = none ∧ ∃ deeper, depth ≤ deeper ∧ typeAt? index deeper node ≠ none

def passedOver (depth : Nat) (node : Node) : List Node :=
  (operands index node).takeWhile fun operand => (typeAt? index depth operand).isNone

def taken? (depth : Nat) (node : Node) : Option Node :=
  (operands index node).find? fun operand => (typeAt? index depth operand).isSome

/-- Some step on the way to the type passes over an operand that only the bound makes unknown. -/
inductive Guesses : Nat → Node → Prop where
  | here {depth : Nat} {node operand : Node} (second : hasSecondSource node.kind = true)
      (passed : operand ∈ passedOver index depth node) (cut : CutOff index depth operand) :
      Guesses (depth + 1) node
  | inside {depth : Nat} {node operand : Node} (taken : taken? index depth node = some operand)
      (guesses : Guesses depth operand) : Guesses (depth + 1) node

end Allowance

/-- What comes first among the known answers stays first while the unknown ones before it stay
unknown. -/
theorem find_some_eq_of_first {Item Answer : Type} {before after : Item → Option Answer}
    {items : List Item}
    (passed : ∀ item ∈ items.takeWhile (fun item => (before item).isNone), after item = none)
    (taken : ∀ item ∈ items.find? (fun item => (before item).isSome), after item = before item) :
    items.findSome? after = items.findSome? before := by
  induction items with
  | nil => rfl
  | cons item rest ih =>
      cases answer : before item with
      | some known =>
          have kept := taken item (by simp [answer])
          simp [kept, answer]
      | none =>
          have unknown := passed item (by simp [answer])
          have later := ih (fun other member => passed other (by simp [answer, member]))
            (fun other member => taken other (by simpa [answer] using member))
          simp [unknown, answer, later]

variable {index : Index}

theorem passed_over_eq_nil {depth : Nat} {node : Node} (single : hasSecondSource node.kind = false)
    (typed : typeAt? index (depth + 1) node ≠ none) : passedOver index depth node = [] := by
  have plain : node.kind ≠ .conditionalExpression := by
    intro kind
    rw [kind] at single
    cases single
  unfold passedOver operands
  rw [if_neg plain]
  cases isOperand : operandOf? index node with
  | none => rfl
  | some operand =>
      cases answer : typeAt? index depth operand with
      | some type => simp [answer]
      | none =>
          have unknown : typeStep? index (typeAt? index depth) node =
              typeStep? index (fun _ => none) node := by
            refine type_step_eq_of_operand index plain fun other isOther => ?_
            cases isOperand.symm.trans isOther
            exact answer
          exact absurd (unknown.trans (type_step_unknown index single isOperand)) typed

/-- What is passed over on the way to a type that is no guess stays unknown. -/
theorem type_at_eq_none_of_mem_passed_over {depth deeper : Nat} {node operand : Node}
    (deep : depth ≤ deeper) (typed : typeAt? index (depth + 1) node ≠ none)
    (unguessed : ¬ Guesses index (depth + 1) node)
    (passed : operand ∈ passedOver index depth node) : typeAt? index deeper operand = none := by
  cases second : hasSecondSource node.kind with
  | false =>
      rw [passed_over_eq_nil second typed] at passed
      cases passed
  | true =>
      have unknown : typeAt? index depth operand = none := by
        simpa using List.mem_takeWhile_imp passed
      cases answer : typeAt? index deeper operand with
      | none => rfl
      | some later =>
          have cut : CutOff index depth operand := ⟨unknown, deeper, deep, by simp [answer]⟩
          exact absurd (.here second passed cut) unguessed

/-- One step answers alike under both allowances if the operand that decides does. -/
theorem type_at_eq_of_taken {depth deeper : Nat} {node : Node} (deep : depth ≤ deeper)
    (typed : typeAt? index (depth + 1) node ≠ none) (unguessed : ¬ Guesses index (depth + 1) node)
    (keeps : ∀ operand ∈ taken? index depth node,
      typeAt? index deeper operand = typeAt? index depth operand) :
    typeAt? index (deeper + 1) node = typeAt? index (depth + 1) node := by
  have stays : ∀ operand ∈ passedOver index depth node, typeAt? index deeper operand = none :=
    fun _ passed => type_at_eq_none_of_mem_passed_over deep typed unguessed passed
  exact type_step_eq_of_operands index (find_some_eq_of_first stays keeps)

theorem type_at_of_not_guesses {node : Node} {type : TypeSymbol} {small large : Nat}
    (le : small ≤ large) (typed : typeAt? index small node = some type)
    (unguessed : ¬ Guesses index small node) : typeAt? index large node = some type := by
  induction small generalizing large node type with
  | zero => cases typed
  | succ depth ih =>
      obtain ⟨deeper, rfl⟩ : ∃ deeper, large = deeper + 1 := ⟨large - 1, by omega⟩
      have deep : depth ≤ deeper := Nat.le_of_succ_le_succ le
      rw [type_at_eq_of_taken deep (by simp [typed]) unguessed ?_, typed]
      intro operand taken
      obtain ⟨known, isKnown⟩ := Option.isSome_iff_exists.mp (List.find?_some taken :)
      rw [isKnown]
      exact ih deep isKnown fun guesses => unguessed (.inside taken guesses)

/-- Some larger allowance gives a `?:` the type of its first branch where only the bound kept that
unknown. -/
theorem exists_type_at_conditional {depth : Nat} {node consequence : Node}
    (kind : node.kind = .conditionalExpression)
    (isConsequence : node.child? .consequence = some consequence)
    (cut : CutOff index depth consequence) :
    ∃ deeper ≥ depth, typeAt? index deeper consequence ≠ none ∧
      typeAt? index (deeper + 1) node = typeAt? index deeper consequence := by
  obtain ⟨-, deeper, deep, known⟩ := cut
  refine ⟨deeper, deep, known, ?_⟩
  obtain ⟨type, isType⟩ := Option.ne_none_iff_exists'.mp known
  rw [typeAt?, typeStep?, kind]
  simp [isConsequence, isType]

/-- What is known stays known under every larger allowance, unless it was guessed: only the bound
made a branch of a `?:` or a receiver unknown, and the type was taken from the other branch or from
the type that the receiver names. A guess at a `?:` gives way to the type of its first branch. -/
theorem type_at_of_larger_allowance (index : Index) (node : Node) (type : TypeSymbol) (depth : Nat)
    (typed : typeAt? index (depth + 1) node = some type) :
    (¬ Guesses index (depth + 1) node →
      ∀ large ≥ depth + 1, typeAt? index large node = some type) ∧
    (node.kind = .conditionalExpression →
      ∀ consequence ∈ node.child? .consequence, CutOff index depth consequence →
        ∃ deeper ≥ depth, typeAt? index deeper consequence ≠ none ∧
          typeAt? index (deeper + 1) node = typeAt? index deeper consequence) :=
  ⟨fun unguessed _ le => type_at_of_not_guesses le typed unguessed,
    fun kind _ isConsequence cut => exists_type_at_conditional kind isConsequence cut⟩

/-- `class A { } class B { object M() => c ? ((new B())) : c ? null : new A(); }`: with three steps
the outer `?:` is an `A`, with four a `B`. The first branch of the inner one never has a type. -/
def branchText : String :=
  "class A \x7b \x7d class B \x7b object M() => c ? ((new B())) : c ? null : new A(); \x7d"

def branchCreation (field : Option Source.Field) (start : UInt32) : Outline :=
  .node .objectCreationExpression true field start (start + 7)
    [token "new" start, letter (some .type) (start + 4),
      .node .argumentList true (some .arguments) (start + 5) (start + 7)
        [token "(" (start + 5), token ")" (start + 6)]]

def innerBranches : Outline :=
  .node .conditionalExpression true (some .alternative) 54 72
    [letter (some .condition) 54, token "?" 56,
      .node (.other "null_literal") true (some .consequence) 58 62 [], token ":" 63,
      branchCreation (some .alternative) 65]

def outerBranches : Outline :=
  .node .conditionalExpression true none 36 72
    [letter (some .condition) 36, token "?" 38,
      .node .parenthesizedExpression true (some .consequence) 40 51
        [token "(" 40,
          .node .parenthesizedExpression true none 41 50
            [token "(" 41, branchCreation none 42, token ")" 49],
          token ")" 50],
      token ":" 52, innerBranches]

def branchOutline : Outline :=
  unit 75
    [classWith 0 11 [],
      classWith 12 75
        [.node .methodDeclaration true none 22 73
          [.node .predefinedType true (some .returns) 22 28 [], letter (some .name) 29,
            .node .parameterList true (some .parameters) 30 32 [token "(" 30, token ")" 31],
            .node .arrowExpressionClause true (some .body) 33 72 [token "=>" 33, outerBranches],
            token ";" 72]]]

def branchDocument : Document := .ofOutline "branches.cs" branchText branchOutline

def branchIndex : Index := indexOf (Catalog.ofSettings {}) [branchDocument]

def conditionalFrom? (start : Nat) : Option Node :=
  branchDocument.root.descendants.find? fun node =>
    node.kind == .conditionalExpression && node.start == start

def nameAt? (allowance : Nat) (node : Node) : Option String :=
  (typeAt? branchIndex allowance node).map TypeSymbol.fullName

theorem type_at_null {node : Node} (kind : node.kind = .other "null_literal") (allowance : Nat) :
    typeAt? branchIndex allowance node = none := by
  cases allowance with
  | zero => rfl
  | succ depth =>
      rw [typeAt?, typeStep?, kind]
      exact if_neg (by decide)

theorem type_at_of_larger_allowance_branches :
    (∃ outer, nameAt? 3 outer = some "A" ∧ nameAt? 4 outer = some "B" ∧
      ∃ consequence, CutOff branchIndex 2 consequence ∧ ∃ deeper ≥ 2,
        typeAt? branchIndex deeper consequence ≠ none ∧
        typeAt? branchIndex (deeper + 1) outer = typeAt? branchIndex deeper consequence) ∧
    ∃ inner type, type.fullName = "A" ∧ passedOver branchIndex 1 inner ≠ [] ∧
      ¬ Guesses branchIndex 2 inner ∧ ∀ large ≥ 2, typeAt? branchIndex large inner = some type := by
  have outerFacts : (conditionalFrom? 36).map (fun outer =>
      (nameAt? 3 outer, nameAt? 4 outer,
        (outer.child? .consequence).map fun branch => (nameAt? 2 branch, nameAt? 3 branch))) =
      some (some "A", some "B", some (none, some "B")) := by
    decide +kernel
  have innerFacts : (conditionalFrom? 54).map (fun inner =>
      (nameAt? 2 inner, (passedOver branchIndex 1 inner).map Node.kind,
        (taken? branchIndex 1 inner).map Node.kind)) =
      some (some "A", [.other "null_literal"], some .objectCreationExpression) := by
    decide +kernel
  obtain ⟨outer, isOuter, outerFacts⟩ := Option.map_eq_some_iff.mp outerFacts
  obtain ⟨inner, -, innerFacts⟩ := Option.map_eq_some_iff.mp innerFacts
  simp only [Prod.mk.injEq] at outerFacts innerFacts
  obtain ⟨shallow, deep, branchFacts⟩ := outerFacts
  obtain ⟨innerName, passedKinds, takenKind⟩ := innerFacts
  constructor
  · have kind := eq_of_beq (Bool.and_eq_true_iff.mp (List.find?_some isOuter :)).1
    obtain ⟨consequence, isConsequence, branchFacts⟩ := Option.map_eq_some_iff.mp branchFacts
    simp only [Prod.mk.injEq] at branchFacts
    obtain ⟨unknown, known⟩ := branchFacts
    obtain ⟨type, typed, -⟩ := Option.map_eq_some_iff.mp shallow
    obtain ⟨later, isLater, -⟩ := Option.map_eq_some_iff.mp known
    have cut : CutOff branchIndex 2 consequence :=
      ⟨Option.map_eq_none_iff.mp unknown, 3, by decide, by simp [isLater]⟩
    exact ⟨outer, shallow, deep, consequence, cut,
      (type_at_of_larger_allowance branchIndex outer type 2 typed).2 kind consequence
        isConsequence cut⟩
  · obtain ⟨type, typed, isName⟩ := Option.map_eq_some_iff.mp innerName
    have unguessed : ¬ Guesses branchIndex 2 inner := by
      intro guesses
      cases guesses with
      | here second passed cut =>
          have isNull := List.mem_map_of_mem (f := Node.kind) passed
          rw [passedKinds, List.mem_singleton] at isNull
          obtain ⟨-, deeper, -, known⟩ := cut
          exact known (type_at_null isNull deeper)
      | inside taken guesses =>
          rw [taken] at takenKind
          cases guesses with
          | here second passed cut =>
              rw [Option.some.inj takenKind] at second
              cases second
          | inside taken guesses => cases guesses
    have passes : passedOver branchIndex 1 inner ≠ [] := by
      intro nothing
      rw [nothing] at passedKinds
      cases passedKinds
    exact ⟨inner, type, isName, passes, unguessed,
      (type_at_of_larger_allowance branchIndex inner type 1 typed).1 unguessed⟩

end ReleaseAudit.Inference
