import Mathlib.Data.List.Pairwise
import Mathlib.Logic.Relation
import ReleaseAudit.Proofs.Source.Receiver
import ReleaseAudit.Proofs.Source.Sample
import ReleaseAudit.Verdict.Basic

/-!
# Walking along a chain of calls

The search for the link of a chain that takes ownership is stated here as it
goes, link by link and without a bound. Every step that moves at all moves
outward, or to a call beside the last value, where the chain ends. A step does
not move where a call ends in an access that is not called itself: there the
search never ends, unless it has ended before. So a search that is bounded by
the depth of its first link has an answer exactly if the one without a bound
ends.
-/

namespace ReleaseAudit.Source.Node

set_option autoImplicit false

theorem value_root_of_ends_in_access {call : Node} (ends : call.EndsInAccess) :
    call.valueRoot = call := by
  obtain ⟨-, access, isAccess, -, -⟩ := ends
  obtain ⟨isParent, kind⟩ := parent_of_eq_some_iff.mp isAccess
  exact value_root_of_not_passes isParent (passes_value_eq_false (by rw [kind]; rfl))

theorem invocation_on_receiver_of_ends_in_access {call : Node} (ends : call.EndsInAccess) :
    call.invocationOnReceiver? = some call := by
  obtain ⟨isCall, access, isAccess, isFirst, notCalled⟩ := ends
  obtain ⟨isParent, kind⟩ := parent_of_eq_some_iff.mp isAccess
  have first := part_of_of_first_part isFirst
  rw [isCall] at first
  have kept : (some call).filter call.same = some call := by simp [same_self]
  simp [invocationOnReceiver?, isParent, kind, isFirst, kept, notCalled, first]

theorem value_root_eq_of_is_call {node : Node}
    (isCall : node.valueRoot.kind = .invocationExpression) : node.valueRoot = node := by
  rcases node.value_root_eq_or_passes with stays | ⟨child, passes⟩
  · exact stays
  · rw [passes_value_eq_false (by rw [isCall]; rfl)] at passes
    cases passes

end ReleaseAudit.Source.Node

namespace ReleaseAudit.Verdict.Audit

set_option autoImplicit false

open Relation (ReflTransGen)
open Source (Node)

theorem next_link_of_not_first {link access value : Node} (isParent : link.parent? = some access)
    (kind : access.kind = .conditionalAccessExpression) (isFirst : access.firstPart? = some value)
    (other : link ≠ value) : nextLink? link = none := by
  have stays : link.valueRoot = link :=
    Node.value_root_of_not_passes isParent (Node.passes_value_eq_false (by rw [kind]; rfl))
  cases found : nextLink? link with
  | none => rfl
  | some next =>
      rw [nextLink?, stays] at found
      obtain ⟨around, isAround, ⟨member, -⟩ | ⟨-, first⟩⟩ :=
        (Node.called_on_of_invocation_on_receiver found).exists_access
      · cases isParent.symm.trans isAround
        rw [kind] at member
        cases member
      · cases isParent.symm.trans isAround
        cases isFirst.symm.trans first
        exact absurd rfl other

/-- A step stays where it is, goes outward, or goes to the end of the chain. -/
theorem next_link_cases {link next : Node} (found : nextLink? link = some next) :
    next = link ∧ link.EndsInAccess ∨ next.depth < link.depth ∨
      next.depth ≤ link.depth ∧ nextLink? next = none := by
  have called := Node.called_on_of_invocation_on_receiver found
  have climbed := link.depth_value_root_le
  rcases called.depth_or_beside with outward | ⟨access, isParent, kind, isFirst, -, part⟩
  · exact Or.inr (Or.inl (by omega))
  · have beside := Node.parent_of_part_of part
    by_cases same : next = link.valueRoot
    · subst same
      have stays : link.valueRoot = link := Node.value_root_eq_of_is_call called.invokes
      rw [stays] at called ⊢
      exact Or.inl ⟨rfl, called.eq_value_iff.mp rfl⟩
    · have first := Node.depth_of_parent isParent
      have second := Node.depth_of_parent beside
      exact Or.inr (Or.inr ⟨by omega, next_link_of_not_first beside kind isFirst same⟩)

theorem next_link_of_ends_in_access {link : Node} (ends : link.EndsInAccess) :
    nextLink? link = some link := by
  rw [nextLink?, Node.value_root_of_ends_in_access ends,
    Node.invocation_on_receiver_of_ends_in_access ends]

/-- Bounds the links that follow: one for each enclosing node, and one beside. -/
def linksAhead (link : Node) : Nat :=
  link.depth + if (nextLink? link).isSome then 1 else 0

theorem links_ahead_lt {link next : Node} (found : nextLink? link = some next)
    (moves : ¬link.EndsInAccess) : linksAhead next < linksAhead link := by
  unfold linksAhead
  rw [found]
  rcases next_link_cases found with ⟨-, ends⟩ | outward | ⟨beside, last⟩
  · exact absurd ends moves
  · simp only [Option.isSome_some, if_true]
    split <;> omega
  · simp only [last, Option.isSome_some, Option.isSome_none, if_true, Bool.false_eq_true, if_false]
    omega

variable (audit : Audit)

/-- The search along a chain ends with `result`, after asking the links `visited` in this order. -/
inductive Search : (link : Node) → (visited : List Node) → (result : ChainEnd) → Prop
  | tracking {link : Node} (tracks : audit.tracksOwnership link = true) :
      Search link [link] (.tracking link)
  | last {link : Node} (passes : audit.tracksOwnership link = false)
      (ends : nextLink? link = none) : Search link [link] (.last link)
  | next {link further : Node} {visited : List Node} {result : ChainEnd}
      (passes : audit.tracksOwnership link = false) (isNext : nextLink? link = some further)
      (rest : Search further visited result) : Search link (link :: visited) result

def Passes (link next : Node) : Prop :=
  audit.tracksOwnership link = false ∧ nextLink? link = some next

variable {audit}

/-- No search ends that does not move. -/
theorem Search.moves {link : Node} {visited : List Node} {result : ChainEnd}
    (search : audit.Search link visited result) (passes : audit.tracksOwnership link = false) :
    ¬link.EndsInAccess := by
  intro ends
  have stays := next_link_of_ends_in_access ends
  induction search with
  | tracking tracks =>
      rw [passes] at tracks
      cases tracks
  | last _ none =>
      rw [none] at stays
      cases stays
  | next _ isNext _ ih =>
      cases stays.symm.trans isNext
      exact ih passes ends stays

theorem Search.step {link next : Node} {visited : List Node} {result : ChainEnd}
    (search : audit.Search link visited result) (passed : audit.Passes link next) :
    ∃ later, audit.Search next later result := by
  obtain ⟨passes, isNext⟩ := passed
  cases search with
  | tracking tracks =>
      rw [passes] at tracks
      cases tracks
  | last _ none =>
      rw [none] at isNext
      cases isNext
  | @next _ _ later _ _ isNext' rest =>
      cases isNext.symm.trans isNext'
      exact ⟨later, rest⟩

theorem Search.of_moving (first : Node)
    (moving : ∀ link, ReflTransGen audit.Passes first link →
      audit.tracksOwnership link = false → ¬link.EndsInAccess) :
    ∃ visited result, audit.Search first visited result := by
  -- Every step that passes leaves fewer links ahead.
  induction bound : linksAhead first using Nat.strongRecOn generalizing first with
  | _ count ih =>
      cases tracks : audit.tracksOwnership first with
      | true => exact ⟨[first], .tracking first, .tracking tracks⟩
      | false =>
          cases isNext : nextLink? first with
          | none => exact ⟨[first], .last first, .last tracks isNext⟩
          | some next =>
              have fewer := links_ahead_lt isNext (moving first .refl tracks)
              obtain ⟨visited, result, rest⟩ := ih (linksAhead next) (bound ▸ fewer) next
                (fun link path => moving link (.head ⟨tracks, isNext⟩ path)) rfl
              exact ⟨first :: visited, result, .next tracks isNext rest⟩

/-- The search ends exactly if it never comes to a link that it cannot leave. -/
theorem Search.ends_iff (first : Node) :
    (∃ visited result, audit.Search first visited result) ↔
      ∀ link, ReflTransGen audit.Passes first link → audit.tracksOwnership link = false →
        ¬link.EndsInAccess := by
  constructor
  · rintro ⟨visited, result, search⟩ link path
    induction path using ReflTransGen.head_induction_on generalizing visited with
    | refl => exact search.moves
    | head passed _ ih =>
        obtain ⟨later, rest⟩ := search.step passed
        exact ih later rest
  · exact Search.of_moving first

/-- The links that were asked leave fewer and fewer ahead. -/
theorem Search.pairwise {first : Node} {visited : List Node} {result : ChainEnd}
    (search : audit.Search first visited result) :
    (visited.Pairwise fun earlier later => linksAhead later < linksAhead earlier) ∧
      ∀ link ∈ visited, linksAhead link ≤ linksAhead first := by
  induction search with
  | tracking | last => simp
  | @next link further visited result passes isNext rest ih =>
      have moves := (Search.next passes isNext rest).moves passes
      have fewer := links_ahead_lt isNext moves
      obtain ⟨falling, below⟩ := ih
      constructor
      · apply List.pairwise_cons.mpr
        refine ⟨fun later member => ?_, falling⟩
        have := below later member
        omega
      · intro later member
        rcases List.mem_cons.mp member with rfl | inRest
        · exact Nat.le_refl _
        · have := below later inRest
          omega

theorem Search.nodup {first : Node} {visited : List Node} {result : ChainEnd}
    (search : audit.Search first visited result) : visited.Nodup := by
  refine search.pairwise.1.imp ?_
  rintro earlier later fewer rfl
  exact Nat.lt_irrefl _ fewer

theorem Search.length_le {first : Node} {visited : List Node} {result : ChainEnd}
    (search : audit.Search first visited result) : visited.length ≤ linksAhead first + 1 := by
  induction search with
  | tracking | last => simp
  | next passes isNext rest ih =>
      have fewer := links_ahead_lt isNext ((Search.next passes isNext rest).moves passes)
      simp only [List.length_cons]
      omega

/-- The links that are asked are the chain outward from the first link. -/
theorem Search.is_chain {first : Node} {visited : List Node} {result : ChainEnd}
    (search : audit.Search first visited result) :
    visited.head? = some first ∧
      visited.IsChain fun link next => nextLink? link = some next := by
  induction search with
  | tracking | last => simp
  | @next link further visited result passes isNext rest ih =>
      obtain ⟨isHead, chain⟩ := ih
      cases visited with
      | nil => cases isHead
      | cons head later =>
          cases isHead
          exact ⟨rfl, .cons_cons isNext chain⟩

theorem Search.invokes {first : Node} {visited : List Node} {result : ChainEnd}
    (search : audit.Search first visited result) :
    ∀ link ∈ visited.tail, link.kind = .invocationExpression := by
  induction search with
  | tracking | last => simp
  | @next link further visited result passes isNext rest ih =>
      have isCall := (Node.called_on_of_invocation_on_receiver isNext).invokes
      obtain ⟨isHead, -⟩ := rest.is_chain
      cases visited with
      | nil => cases isHead
      | cons head later =>
          cases isHead
          intro other member
          rcases List.mem_cons.mp member with rfl | further
          · exact isCall
          · exact ih other further

/-- Only the last link that is asked may take ownership, and then it is the answer. -/
theorem Search.answer {first : Node} {visited : List Node} {result : ChainEnd}
    (search : audit.Search first visited result) :
    ∃ before link, visited = before ++ [link] ∧
      (∀ other ∈ before, audit.tracksOwnership other = false) ∧
      (result = .tracking link ∧ audit.tracksOwnership link = true ∨
        result = .last link ∧ audit.tracksOwnership link = false ∧ nextLink? link = none) := by
  induction search with
  | @tracking link tracks => exact ⟨[], link, rfl, by simp, Or.inl ⟨rfl, tracks⟩⟩
  | @last link passes ends => exact ⟨[], link, rfl, by simp, Or.inr ⟨rfl, passes, ends⟩⟩
  | @next link further visited result passes isNext rest ih =>
      obtain ⟨before, last, rfl, others, answer⟩ := ih
      refine ⟨link :: before, last, rfl, ?_, answer⟩
      intro other member
      rcases List.mem_cons.mp member with rfl | later
      · exact passes
      · exact others other later

theorem search_within_sound {count : Nat} {first : Node} {result : ChainEnd}
    (found : audit.searchWithin count first = some result) :
    ∃ visited, audit.Search first visited result := by
  fun_induction audit.searchWithin count first with
  | case1 count link tracks =>
      cases found
      exact ⟨[link], .tracking tracks⟩
  | case2 count link passes ends =>
      cases found
      exact ⟨[link], .last (eq_false_of_ne_true passes) ends⟩
  | case3 => cases found
  | case4 link passes next count isNext ih =>
      obtain ⟨visited, rest⟩ := ih found
      exact ⟨link :: visited, .next (eq_false_of_ne_true passes) isNext rest⟩

theorem Search.within {first : Node} {visited : List Node} {result : ChainEnd}
    (search : audit.Search first visited result) {count : Nat}
    (enough : visited.length ≤ count + 1) : audit.searchWithin count first = some result := by
  induction search generalizing count with
  | tracking tracks =>
      unfold searchWithin
      rw [if_pos tracks]
  | last passes ends =>
      unfold searchWithin
      rw [passes, ends]
      rfl
  | @next link further visited result passes isNext rest ih =>
      have positive : 0 < visited.length := by
        obtain ⟨before, last, rfl, -⟩ := rest.answer
        simp
      simp only [List.length_cons] at enough
      obtain ⟨count, rfl⟩ : ∃ fewer, count = fewer + 1 := ⟨count - 1, by omega⟩
      unfold searchWithin
      rw [passes, isNext]
      exact ih (by omega)

/-- Any budget from the depth of the first link on gives what the unbounded search does. -/
theorem search_within_eq_some_iff {count : Nat} {first : Node} (enough : first.depth + 1 ≤ count)
    {result : ChainEnd} :
    audit.searchWithin count first = some result ↔
      ∃ visited, audit.Search first visited result := by
  constructor
  · exact search_within_sound
  · rintro ⟨visited, search⟩
    have bound : linksAhead first ≤ first.depth + 1 := by
      unfold linksAhead
      split <;> omega
    have short := search.length_le
    exact search.within (by omega)

theorem find_tracking_link_eq_some_iff {first : Node} {result : ChainEnd} :
    audit.findTrackingLink? first = some result ↔ ∃ visited, audit.Search first visited result :=
  search_within_eq_some_iff (Nat.le_refl _)

theorem search_within_of_le {count : Nat} {first : Node} (enough : first.depth + 1 ≤ count) :
    audit.searchWithin count first = audit.findTrackingLink? first := by
  apply Option.ext
  intro result
  rw [search_within_eq_some_iff enough, find_tracking_link_eq_some_iff]

variable (audit) in
/-- The search from a call comes to a call that it cannot leave. -/
def NeverEnds (first : Node) : Prop :=
  ∃ link, ReflTransGen audit.Passes first link ∧ audit.tracksOwnership link = false ∧
    link.EndsInAccess

theorem never_ends_iff {first : Node} :
    audit.NeverEnds first ↔ ¬∃ visited result, audit.Search first visited result := by
  rw [Search.ends_iff, NeverEnds]
  simp only [not_forall, not_not, exists_prop]

theorem find_tracking_link_eq_none_iff {first : Node} :
    audit.findTrackingLink? first = none ↔ audit.NeverEnds first := by
  rw [Option.eq_none_iff_forall_ne_some, ← not_exists, never_ends_iff]
  simp only [find_tracking_link_eq_some_iff]
  exact not_congr exists_comm

theorem chain_tracks_eq_none_iff {first : Node} :
    audit.chainTracks? first = none ↔ audit.NeverEnds first := by
  rw [chainTracks?, Option.map_eq_none_iff, find_tracking_link_eq_none_iff]

end ReleaseAudit.Verdict.Audit

namespace ReleaseAudit.Verdict

set_option autoImplicit false

open Inference (Model)
open Relation (ReflTransGen)
open Rules (Ruleset)
open Source (Node Tree)
open Source.Sample (branch)

/-- Whether a value finds itself, and whether the call that it finds is made on it. The search
along a chain ends exactly if it does not come to a call that finds itself, and it has an answer
exactly if it ends. It asks no link twice, and its answer is the innermost link that takes
ownership, or else the last one. -/
theorem find_tracking_link_outward (audit : Audit) (value first : Node) :
    (∀ invocation, value.invocationOnReceiver? = some invocation →
      (invocation = value ↔ value.EndsInAccess) ∧
      (invocation.receiver? = some value ↔
        invocation.callTarget?.isSome = true ∧
          (invocation.childOrFirst? .function = value.parent? ∨
            invocation.parent? = value.parent? ∧
              (invocation.childOrFirst? .function).any
                (fun function => function.kind == .memberBindingExpression) = true))) ∧
    ((∃ visited result, audit.Search first visited result) ↔
      ∀ link, ReflTransGen audit.Passes first link → audit.tracksOwnership link = false →
        ¬link.EndsInAccess) ∧
    (audit.findTrackingLink? first = none ↔
      ¬∃ visited result, audit.Search first visited result) ∧
    ∀ visited result, audit.Search first visited result →
      audit.findTrackingLink? first = some result ∧ visited.Nodup ∧ visited.head? = some first ∧
      (visited.IsChain fun link next => Audit.nextLink? link = some next) ∧
      (∀ link ∈ visited.tail, link.kind = .invocationExpression) ∧
      ∃ before link, visited = before ++ [link] ∧
        (∀ other ∈ before, audit.tracksOwnership other = false) ∧
        (result = .tracking link ∧ audit.tracksOwnership link = true ∨
          result = .last link ∧ audit.tracksOwnership link = false ∧
            Audit.nextLink? link = none) := by
  refine ⟨?_, Audit.Search.ends_iff first, ?_, ?_⟩
  · intro invocation found
    have called := Node.called_on_of_invocation_on_receiver found
    exact ⟨called.eq_value_iff, called.receiver_iff⟩
  · rw [Audit.find_tracking_link_eq_none_iff, Audit.never_ends_iff]
  · intro visited result search
    obtain ⟨isHead, chain⟩ := search.is_chain
    exact ⟨Audit.find_tracking_link_eq_some_iff.mpr ⟨visited, search⟩, search.nodup, isHead, chain,
      search.invokes, search.answer⟩

/-- Every expression is a `P` and no call is known. -/
def uniformModel : Model where
  typeOf _ := some (.ofName "P")
  symbolOf _ := none
  enclosingScope _ := none

def partsRules : Ruleset where
  diagnosticId := "DISP001"
  severity := .info
  disposalContracts := ["P"]
  releaseMethods := []
  releaseDesignatedMethods := []
  ignoredTypes := []
  ownershipTransfer := []
  releaseEquivalent := []
  ignoredFactories := []
  trackingTypes := []
  catalog := ⟨[], []⟩

/-- `a?.M` -/
def accessTree : Tree :=
  branch .conditionalAccessExpression (some .function)
    [branch .identifier none [],
      branch .memberBindingExpression none [branch .identifier (some .name) []]]

/-- `a?.M()` -/
def innerTree : Tree :=
  branch .invocationExpression (some .expression)
    [accessTree, branch .argumentList (some .arguments) []]

/-- `a?.M().N` -/
def memberTree : Tree :=
  branch .memberAccessExpression (some .function)
    [innerTree, branch .identifier (some .name) []]

/-- `a?.M().N()` -/
def outerTree : Tree :=
  branch .invocationExpression none [memberTree, branch .argumentList (some .arguments) []]

def innerCall : Node :=
  ⟨innerTree, [⟨memberTree, 0⟩, ⟨outerTree, 0⟩], rfl, rfl, trivial⟩

def innerReceiver : Node :=
  ⟨branch .identifier none [], ⟨accessTree, 0⟩ :: ⟨innerTree, 0⟩ :: innerCall.above,
    rfl, rfl, innerCall.linked⟩

/-- `A()` -/
def readTree : Tree :=
  branch .invocationExpression none
    [branch .identifier (some .function) [], branch .argumentList (some .arguments) []]

def readCall : Node :=
  ⟨readTree,
    [⟨branch .conditionalAccessExpression none
      [readTree, branch .memberBindingExpression none [branch .identifier (some .name) []]], 0⟩],
    rfl, trivial⟩

theorem find_tracking_link_outward_conditional :
    innerReceiver.invocationOnReceiver? = some innerCall ∧ innerCall ≠ innerReceiver ∧
    innerCall.receiver? = some innerReceiver ∧
    Audit.findTrackingLink? ⟨uniformModel, partsRules⟩ innerCall =
      some (.last (.root outerTree)) ∧
    Audit.findTrackingLink? ⟨uniformModel, partsRules⟩ readCall = none ∧
    ¬∃ visited result, Audit.Search ⟨uniformModel, partsRules⟩ readCall visited result := by
  obtain ⟨inverse, -, -, answers⟩ :=
    find_tracking_link_outward ⟨uniformModel, partsRules⟩ innerReceiver innerCall
  obtain ⟨-, ends, unanswered, -⟩ :=
    find_tracking_link_outward ⟨uniformModel, partsRules⟩ readCall readCall
  have found : innerReceiver.invocationOnReceiver? = some innerCall := rfl
  obtain ⟨itself, isReceiver⟩ := inverse innerCall found
  have search : Audit.Search ⟨uniformModel, partsRules⟩ innerCall [innerCall, .root outerTree]
      (.last (.root outerTree)) := .next rfl rfl (.last rfl rfl)
  have endless : ¬∃ visited result,
      Audit.Search ⟨uniformModel, partsRules⟩ readCall visited result := by
    rw [ends]
    intro moving
    exact moving readCall .refl rfl ⟨rfl, _, rfl, rfl, rfl⟩
  refine ⟨found, ?_, isReceiver.mpr ⟨rfl, Or.inl rfl⟩, (answers _ _ search).1,
    unanswered.mpr endless, endless⟩
  · rw [ne_eq, itself]
    rintro ⟨isCall, -⟩
    cases isCall

end ReleaseAudit.Verdict
