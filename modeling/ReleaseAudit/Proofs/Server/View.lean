import ReleaseAudit.Proofs.Verdict.FileOrder
import ReleaseAudit.Server.Session

/-!
# What an editor shows

An editor keeps, for every address, the diagnostics of the last publication it
was sent for it. After every notification about documents this view is current:
an open document shows what compiling all open documents together reports for
it, and any other address shows nothing. Only an audit that does not end keeps
the server from going on.
-/

namespace ReleaseAudit.Server

set_option autoImplicit false

open Declarations (Compatible)
open Inference (Model)
open ReleaseAudit.Lists (lookup_cons_ite lookup_eq_some_iff_mem)
open Report (EditorDiagnostic)
open Rules (Ruleset)
open Source (Document Parser)
open Verdict (Diagnostic diagnoseDocument? reportedFor?)

namespace Event

def uri : Event → String
  | opened uri _ | changed uri _ | saved uri _ | closed uri => uri

/-- Text of the document that an event is about, given its text before. -/
def textAfter (before : Option String) : Event → Option String
  | opened _ text => some text
  | changed _ texts => texts.getLast?.or before
  | saved _ text => text.or before
  | closed _ => none

/-- A change without texts is the one event after which nothing is published. -/
def publishes : Event → Bool
  | changed _ [] => false
  | _ => true

end Event

/-- Text of a document after a sequence of events, as the events about it leave it. -/
def latestText (events : List Event) (uri : String) : Option String :=
  (events.filter fun event => event.uri == uri).foldl Event.textAfter none

theorem lookup_put (uri text key : String) (documents : List (String × String)) :
    (put uri text documents).lookup key =
      if key = uri then some text else documents.lookup key := by
  induction documents with
  | nil => exact lookup_cons_ite key (uri, text) []
  | cons entry rest ih =>
      unfold put
      by_cases same : entry.1 = uri
      · rw [if_pos same, lookup_cons_ite, lookup_cons_ite, same]
        split <;> rfl
      · rw [if_neg same, lookup_cons_ite, lookup_cons_ite, ih]
        by_cases here : key = uri
        · subst here
          rw [if_neg (Ne.symm same), if_pos rfl, if_pos rfl]
        · rw [if_neg here, if_neg here]

theorem lookup_filter_ne (uri key : String) (documents : List (String × String)) :
    (documents.filter fun entry => entry.1 != uri).lookup key =
      if key = uri then none else documents.lookup key := by
  induction documents with
  | nil => simp
  | cons entry rest ih =>
      by_cases removed : entry.1 = uri
      · rw [List.filter_cons_of_neg (by simpa using removed), ih, lookup_cons_ite, removed]
        split <;> rfl
      · rw [List.filter_cons_of_pos (by simpa using removed), lookup_cons_ite, lookup_cons_ite,
          ih]
        by_cases here : key = uri
        · subst here
          rw [if_neg (Ne.symm removed), if_pos rfl, if_pos rfl]
        · rw [if_neg here, if_neg here]

namespace Workspace

theorem after_cases (workspace : Workspace) (event : Event) :
    (∃ text, workspace.after event = workspace.insert event.uri text ∧
      ∀ before, event.textAfter before = some text) ∨
    (workspace.after event = workspace ∧ ∀ before, event.textAfter before = before) ∨
    (workspace.after event = workspace.erase event.uri ∧
      ∀ before, event.textAfter before = none) := by
  cases event with
  | opened uri text => exact Or.inl ⟨text, rfl, fun _ => rfl⟩
  | changed uri texts =>
      cases last : texts.getLast? with
      | none => exact Or.inr (Or.inl (by simp [after, Event.textAfter, last]))
      | some text => exact Or.inl ⟨text, by simp [after, Event.textAfter, Event.uri, last]⟩
  | saved uri text =>
      cases text with
      | none => exact Or.inr (Or.inl ⟨rfl, fun _ => rfl⟩)
      | some text => exact Or.inl ⟨text, rfl, fun _ => rfl⟩
  | closed uri => exact Or.inr (Or.inr ⟨rfl, fun _ => rfl⟩)

theorem text_after (workspace : Workspace) (event : Event) (uri : String) :
    (workspace.after event).text? uri =
      if uri = event.uri then event.textAfter (workspace.text? uri) else workspace.text? uri := by
  obtain ⟨text, entered, own⟩ | ⟨same, own⟩ | ⟨removed, own⟩ := after_cases workspace event
  · rw [entered, own]
    exact lookup_put event.uri text uri workspace.documents
  · rw [same, own, ite_self]
  · rw [removed, own]
    exact lookup_filter_ne event.uri uri workspace.documents

theorem text_after_events (events : List Event) (workspace : Workspace) (uri : String) :
    (events.foldl after workspace).text? uri =
      (events.filter fun event => event.uri == uri).foldl Event.textAfter
        (workspace.text? uri) := by
  induction events generalizing workspace with
  | nil => rfl
  | cons event rest ih =>
      rw [List.foldl_cons, ih, text_after]
      by_cases here : uri = event.uri
      · rw [if_pos here, List.filter_cons_of_pos (by simpa using here.symm), List.foldl_cons]
      · rw [if_neg here, List.filter_cons_of_neg (by simpa using fun same => here same.symm)]

theorem text_eq_some_iff {workspace : Workspace} {uri text : String} :
    workspace.text? uri = some text ↔ (uri, text) ∈ workspace.documents :=
  lookup_eq_some_iff_mem workspace.distinct

theorem after_of_not_publishes {event : Event} (silent : event.publishes = false)
    (workspace : Workspace) : workspace.after event = workspace := by
  unfold Event.publishes at silent
  split at silent
  · rfl
  · cases silent

def Within (known : String → Prop) (workspace : Workspace) : Prop :=
  ∀ entry ∈ workspace.documents, known entry.1

theorem Within.after {known : String → Prop} {workspace : Workspace}
    (within : workspace.Within known) {event : Event} (isKnown : known event.uri) :
    (workspace.after event).Within known := by
  intro entry member
  obtain ⟨text, entered, -⟩ | ⟨same, -⟩ | ⟨removed, -⟩ := after_cases workspace event
  · rw [entered] at member
    rcases mem_put member with rfl | old
    · exact isKnown
    · exact within entry old
  · rw [same] at member
    exact within entry member
  · rw [removed] at member
    exact within entry (List.mem_filter.mp member).1

theorem mem_compile_iff {parser : Parser} {listing : Listing} {workspace : Workspace}
    {document : Document} :
    document ∈ workspace.compile parser listing ↔
      ∃ uri text, workspace.text? uri = some text ∧ Document.parse parser uri text = document := by
  unfold compile
  simp only [List.mem_map, (listing.perm workspace.documents).mem_iff, text_eq_some_iff,
    Prod.exists]

theorem compile_perm (parser : Parser) (listing other : Listing) (workspace : Workspace) :
    (workspace.compile parser listing).Perm (workspace.compile parser other) :=
  ((listing.perm _).trans (other.perm _).symm).map _

end Workspace

/-- Addresses with one path are one address. -/
def PathsApart (known : String → Prop) : Prop :=
  ∀ first, known first → ∀ second, known second → first ≠ second →
    Files.Path.same first second = false

section Paths

variable {known : String → Prop} (apart : PathsApart known)

include apart in
theorem compile_paths_apart {workspace : Workspace} (within : workspace.Within known)
    (parser : Parser) (listing : Listing) :
    (workspace.compile parser listing).Pairwise fun first second =>
      Files.Path.same first.path second.path = false := by
  unfold Workspace.compile
  rw [List.pairwise_map]
  have listed := listing.perm workspace.documents
  have distinct := listed.symm.pairwise workspace.distinct fun {_ _} differ => Ne.symm differ
  refine List.Pairwise.imp_of_mem ?_ distinct
  intro first second inFirst inSecond differ
  exact apart first.1 (within first (listed.mem_iff.mp inFirst)) second.1
    (within second (listed.mem_iff.mp inSecond)) differ

/-- Where paths are distinct, a path has the diagnostics of its document and no others. -/
theorem reported_for_of_mem {rules : Ruleset} {documents : List Document}
    (distinct : documents.Pairwise fun first second =>
      Files.Path.same first.path second.path = false)
    {document : Document} (member : document ∈ documents) {found : List Diagnostic}
    (reported : reportedFor? rules documents document.path = some found) :
    diagnoseDocument? (Model.ofDocuments rules.catalog documents) rules document = some found := by
  obtain ⟨ended, rfl⟩ := Verdict.reported_for_eq_some_iff.mp reported
  obtain ⟨own, isOwn⟩ := Option.isSome_iff_exists.mp (ended document member)
  obtain ⟨before, after, rfl⟩ := List.append_of_mem member
  have others : ∀ other ∈ before ++ after,
      Files.Path.same other.path document.path = false := by
    obtain ⟨-, fromHere, earlierApart⟩ := List.pairwise_append.mp distinct
    intro other inOthers
    rcases List.mem_append.mp inOthers with earlier | later
    · exact earlierApart other earlier document List.mem_cons_self
    · have separate := (List.pairwise_cons.mp fromHere).1 other later
      unfold Files.Path.same at *
      rw [beq_eq_false_iff_ne] at *
      exact separate.symm
  have itself : Files.Path.same document.path document.path = true := beq_self_eq_true _
  have silent : ∀ part : List Document, (∀ other ∈ part, other ∈ before ++ after) →
      ∀ share : Document → List Diagnostic, (part.flatMap fun other =>
        if Files.Path.same other.path document.path then share other else []) = [] := by
    intro part included share
    rw [List.flatMap_eq_nil_iff]
    intro other inPart
    rw [others other (included other inPart)]
    rfl
  rw [List.flatMap_append, List.flatMap_cons, if_pos itself,
    silent before (fun _ => List.mem_append_left after),
    silent after (fun _ => List.mem_append_right before), List.nil_append, List.append_nil, isOwn,
    Option.getD_some]

end Paths

def Reply.publication? : Reply → Option (String × List EditorDiagnostic)
  | published publication => some (publication.uri, publication.diagnostics)
  | _ => none

/-- Diagnostics of the last publication for an address among the replies received. -/
def shown (received : List Reply) (uri : String) : Option (List EditorDiagnostic) :=
  (received.filterMap Reply.publication?).reverse.lookup uri

theorem shown_append (received more : List Reply) (uri : String) :
    shown (received ++ more) uri = (shown more uri).or (shown received uri) := by
  unfold shown
  rw [List.filterMap_append, List.reverse_append, List.lookup_append]

section Current

variable (parser : Parser) (rules : Ruleset)

/-- Every open document shows its diagnostics in the compilation of all of them, listed in some
order. -/
def Shows (listing : Listing) (workspace : Workspace) (received : List Reply) : Prop :=
  ∀ uri text, workspace.text? uri = some text →
    ∃ found, reportedFor? rules (workspace.compile parser listing) uri = some found ∧
      shown received uri = some (found.map (EditorDiagnostic.ofDiagnostic text))

/-- Nothing is left of documents that are not open. -/
def Cleared (workspace : Workspace) (received : List Reply) : Prop :=
  ∀ uri, workspace.text? uri = none → ∀ view, shown received uri = some view → view = []

variable {parser rules} {known : String → Prop} (apart : PathsApart known)

include apart in
/-- After everything is published an open document shows its share, and other addresses show what
they showed before. -/
theorem shown_publications {listing : Listing} {workspace : Workspace}
    (within : workspace.Within known) (received : List Reply) (diagnostics : List Diagnostic)
    (uri : String) :
    shown (received ++ (publications (workspace.compile parser listing) diagnostics).map
        .published) uri =
      ((workspace.text? uri).map fun text =>
        (diagnostics.filter fun diagnostic => Files.Path.same diagnostic.location.path uri).map
          (EditorDiagnostic.ofDiagnostic text)).or (shown received uri) := by
  have paths := compile_paths_apart apart within parser listing
  have listed := listing.perm workspace.documents
  let view : String → String → List EditorDiagnostic := fun uri text =>
    (diagnostics.filter fun diagnostic => Files.Path.same diagnostic.location.path uri).map
      (EditorDiagnostic.ofDiagnostic text)
  have entries : ((publications (workspace.compile parser listing) diagnostics).map
      Reply.published).filterMap Reply.publication? =
        (listing.list workspace.documents).map fun entry => (entry.1, view entry.1 entry.2) := by
    rw [Verdict.publications_eq paths, Workspace.compile, List.map_map, List.map_map,
      List.filterMap_map, ← List.filterMap_eq_map]
    rfl
  have distinct : ((listing.list workspace.documents).map fun entry =>
      (entry.1, view entry.1 entry.2)).reverse.Pairwise fun first second => first.1 ≠ second.1 := by
    rw [List.pairwise_reverse, List.pairwise_map]
    have keys := listed.symm.pairwise workspace.distinct fun {_ _} differ => Ne.symm differ
    exact keys.imp fun differ => Ne.symm differ
  rw [shown_append]
  congr 1
  unfold shown
  rw [entries]
  apply Option.ext
  intro found
  rw [lookup_eq_some_iff_mem distinct, List.mem_reverse, List.mem_map, Option.map_eq_some_iff]
  simp only [listed.mem_iff, Workspace.text_eq_some_iff]
  constructor
  · rintro ⟨⟨_, text⟩, member, same⟩
    cases same
    exact ⟨text, member, rfl⟩
  · rintro ⟨text, member, rfl⟩
    exact ⟨(uri, text), member, rfl⟩

def clearing : Event → List Publication
  | .closed uri => [⟨uri, []⟩]
  | _ => []

theorem publish_of_publishes {event : Event} (publishes : event.publishes = true)
    (listing : Listing) (workspace : Workspace) :
    workspace.publish? parser rules listing event =
      ((workspace.after event).publishAll? parser rules listing).map (clearing event ++ ·) := by
  unfold Workspace.publish?
  split
  · cases publishes
  · rfl
  · next notEmpty notClosed =>
      have nothing : clearing event = [] := by
        unfold clearing
        split
        · next uri => exact absurd rfl (notClosed uri)
        · rfl
      rw [nothing]
      exact Option.map_id'.symm

theorem publish_of_not_publishes {event : Event} (silent : event.publishes = false)
    (listing : Listing) (workspace : Workspace) :
    workspace.publish? parser rules listing event = some [] := by
  unfold Event.publishes at silent
  split at silent
  · rfl
  · cases silent

theorem cleared_clearing {workspace : Workspace} {received : List Reply}
    (cleared : Cleared workspace received) (event : Event) :
    Cleared (workspace.after event) (received ++ (clearing event).map .published) := by
  intro uri missing view found
  have before : event.textAfter (workspace.text? uri) = none → (∀ own, event ≠ .closed own) →
      workspace.text? uri = none := by
    intro textless notClosed
    cases event with
    | opened own text => cases textless
    | changed own texts => exact (Option.or_eq_none_iff.mp textless).2
    | saved own text => exact (Option.or_eq_none_iff.mp textless).2
    | closed own => exact absurd rfl (notClosed own)
  rw [Workspace.text_after] at missing
  rw [shown_append] at found
  cases event with
  | closed own =>
      have shownNow : shown ((clearing (.closed own)).map .published) uri =
          if uri = own then some [] else none :=
        lookup_cons_ite uri (own, ([] : List EditorDiagnostic)) []
      rw [shownNow] at found
      by_cases here : uri = own
      · rw [if_pos here] at found
        exact (Option.some.inj found).symm
      · rw [if_neg here, Option.none_or] at found
        exact cleared uri ((if_neg here).symm.trans missing) view found
  | opened | changed | saved =>
      refine cleared uri ?_ view found
      split at missing
      · exact before missing (by simp)
      · exact missing

variable (parser rules) in
/-- The view is that of one of the listings, unless no document is open. -/
structure Current (listings : List Listing) (workspace : Workspace) (received : List Reply) :
    Prop where
  shows : workspace.documents = [] ∨
    ∃ listing ∈ listings, Shows parser rules listing workspace received
  cleared : Cleared workspace received

include apart in
theorem Current.step {listings : List Listing} {workspace : Workspace} {received : List Reply}
    (current : Current parser rules listings workspace received) {listing : Listing}
    {event : Event} (within : (workspace.after event).Within known) {sent : List Publication}
    (published : workspace.publish? parser rules listing event = some sent) :
    Current parser rules (listings ++ [listing]) (workspace.after event)
      (received ++ sent.map .published) := by
  cases publishes : event.publishes with
  | false =>
      rw [publish_of_not_publishes publishes] at published
      cases published
      rw [Workspace.after_of_not_publishes publishes, List.map_nil, List.append_nil]
      refine ⟨current.shows.imp_right ?_, current.cleared⟩
      rintro ⟨earlier, listed, shows⟩
      exact ⟨earlier, List.mem_append_left _ listed, shows⟩
  | true =>
      rw [publish_of_publishes publishes, Workspace.publishAll?, Option.map_map,
        Option.map_eq_some_iff] at published
      obtain ⟨diagnostics, ended, rfl⟩ := published
      rw [Function.comp_apply, List.map_append, ← List.append_assoc]
      have view := @shown_publications parser known apart listing _ within
        (received ++ (clearing event).map .published) diagnostics
      constructor
      · refine Or.inr ⟨listing, List.mem_append_right _ List.mem_cons_self, ?_⟩
        intro uri text isOpen
        refine ⟨_, congrArg (Option.map _) ended, ?_⟩
        rw [view, isOpen]
        rfl
      · intro uri missing
        rw [view, missing]
        exact cleared_clearing current.cleared event uri missing

end Current

/-- What a message tells about a document, when it is a notification that can be read. -/
def Decoder.event? (decoder : Decoder) (content : Json) : Option Event :=
  match decoder.message? content with
  | some (.notification "exit" _) => none
  | some (.notification method params) =>
      match decoder.notification method params with
      | .event event => some event
      | _ => none
  | _ => none

def Workspace.ofEvents (events : List Event) : Workspace :=
  events.foldl after empty

section Sessions

variable (decoder : Decoder) (parser : Parser) (rules : Ruleset)

def phaseAfter (phase : Phase) (arrivals : List Arrival) : Phase :=
  arrivals.foldl
    (fun phase arrival =>
      (phase.receive decoder parser rules arrival.listing arrival.content).1) phase

/-- The audit of the open documents, listed in some order, does not end. -/
def EndlessAudit (workspace : Workspace) (listing : Listing) : Prop :=
  ∃ document ∈ workspace.compile parser listing, ∃ site ∈ Verdict.creationSites document,
    Verdict.Audit.Endless
      ⟨Model.ofDocuments rules.catalog (workspace.compile parser listing), rules⟩ site

variable {decoder parser rules}

theorem publish_eq_none_iff {workspace : Workspace} {listing : Listing} {event : Event} :
    workspace.publish? parser rules listing event = none ↔
      event.publishes = true ∧ EndlessAudit parser rules (workspace.after event) listing := by
  cases publishes : event.publishes with
  | false => simp [publish_of_not_publishes publishes]
  | true =>
      rw [publish_of_publishes publishes, Option.map_eq_none_iff, Workspace.publishAll?,
        Option.map_eq_none_iff, Verdict.diagnoseAll?, Verdict.diagnose_with_eq_none_iff]
      simp [EndlessAudit]

theorem receive_of_event {workspace : Workspace} {content : Json} {event : Event}
    (told : decoder.event? content = some event) (listing : Listing) :
    (Phase.serving workspace).receive decoder parser rules listing content =
      Phase.serveEvent parser rules listing workspace event := by
  unfold Decoder.event? at told
  split at told
  · cases told
  · next method params notExit isNotification =>
      split at told
      · next isEvent =>
          cases told
          simp only [Phase.receive, isNotification, Phase.serve, isEvent]
      · cases told
  · cases told

theorem phase_after_stuck (arrivals : List Arrival) :
    phaseAfter decoder parser rules .stuck arrivals = .stuck := by
  induction arrivals with
  | nil => rfl
  | cons arrival rest ih => exact ih

theorem sent_converse_cons (phase : Phase) (arrival : Arrival) (rest : List Arrival) :
    (converse decoder parser rules phase (arrival :: rest)).sent =
      (phase.receive decoder parser rules arrival.listing arrival.content).2 ++
        (converse decoder parser rules
          (phase.receive decoder parser rules arrival.listing arrival.content).1 rest).sent :=
  rfl

theorem sent_converse_append (phase : Phase) (first second : List Arrival) :
    (converse decoder parser rules phase (first ++ second)).sent =
      (converse decoder parser rules phase first).sent ++
        (converse decoder parser rules (phaseAfter decoder parser rules phase first)
          second).sent := by
  induction first generalizing phase with
  | nil => rfl
  | cons arrival rest ih =>
      rw [List.cons_append, sent_converse_cons, sent_converse_cons, ih, List.append_assoc]
      rfl

theorem phase_after_eq_stuck_iff {workspace : Workspace} {arrivals : List Arrival}
    {events : List Event}
    (read : arrivals.map (fun arrival => decoder.event? arrival.content) = events.map some) :
    phaseAfter decoder parser rules (.serving workspace) arrivals = .stuck ↔
      ∃ count arrival event, arrivals[count]? = some arrival ∧ events[count]? = some event ∧
        event.publishes = true ∧
        EndlessAudit parser rules ((events.take (count + 1)).foldl Workspace.after workspace)
          arrival.listing := by
  induction arrivals generalizing workspace events with
  | nil => simp [phaseAfter]
  | cons arrival rest ih =>
      cases events with
      | nil => cases read
      | cons event later =>
          obtain ⟨told, readRest⟩ := List.cons.inj read
          have received := @receive_of_event decoder parser rules workspace _ _ told arrival.listing
          unfold phaseAfter
          rw [List.foldl_cons, received, Phase.serveEvent]
          cases published : workspace.publish? parser rules arrival.listing event with
          | none =>
              have hangs := publish_eq_none_iff.mp published
              exact iff_of_true (phase_after_stuck rest)
                ⟨0, arrival, event, rfl, rfl, hangs.1, hangs.2⟩
          | some sent =>
              refine (ih readRest).trans ?_
              constructor
              · rintro ⟨count, found⟩
                exact ⟨count + 1, found⟩
              · rintro ⟨count, found⟩
                cases count with
                | succ count => exact ⟨count, found⟩
                | zero =>
                    obtain ⟨_, _, here, same, publishes, endless⟩ := found
                    cases here
                    cases same
                    have hangs := publish_eq_none_iff.mpr ⟨publishes, endless⟩
                    rw [hangs] at published
                    cases published

theorem Current.run {known : String → Prop} (apart : PathsApart known) {listings : List Listing}
    {workspace : Workspace} {received : List Reply}
    (current : Current parser rules listings workspace received)
    (within : workspace.Within known) {arrivals : List Arrival} {events : List Event}
    (read : arrivals.map (fun arrival => decoder.event? arrival.content) = events.map some)
    (isKnown : ∀ event ∈ events, known event.uri)
    (goes : phaseAfter decoder parser rules (.serving workspace) arrivals ≠ .stuck) :
    phaseAfter decoder parser rules (.serving workspace) arrivals =
        .serving (events.foldl Workspace.after workspace) ∧
      (events.foldl Workspace.after workspace).Within known ∧
      Current parser rules (listings ++ arrivals.map Arrival.listing)
        (events.foldl Workspace.after workspace)
        (received ++ (converse decoder parser rules (.serving workspace) arrivals).sent) := by
  induction arrivals generalizing workspace received events listings with
  | nil =>
      have none : events = [] := by simpa using read.symm
      subst none
      simpa [phaseAfter, converse] using ⟨within, current⟩
  | cons arrival rest ih =>
      cases events with
      | nil => cases read
      | cons event later =>
          obtain ⟨told, readRest⟩ := List.cons.inj read
          have received' := @receive_of_event decoder parser rules workspace _ _ told
            arrival.listing
          unfold phaseAfter at goes ⊢
          rw [List.foldl_cons, received', Phase.serveEvent] at goes
          rw [List.foldl_cons, List.foldl_cons, sent_converse_cons, received', Phase.serveEvent]
          cases published : workspace.publish? parser rules arrival.listing event with
          | none =>
              rw [published] at goes
              exact absurd (phase_after_stuck rest) goes
          | some sent =>
              rw [published] at goes
              have keeps := within.after (isKnown event List.mem_cons_self)
              have next := ih (current.step apart keeps published) keeps readRest
                (fun other member => isKnown other (List.mem_cons_of_mem event member)) goes
              rw [List.append_assoc, List.append_assoc] at next
              exact next

end Sessions

/-- After every sequence of notifications about documents, however the decoder reads them and
however the open documents are listed at each of them, the server serves the texts that the
notifications left, unless it is stuck in an audit that does not end. The editor then shows for each
open document its own diagnostics in the compilation of all of them, listed as at one of the
notifications, and in any order if the documents are compatible. It shows nothing for any other
address. A change without texts sends nothing. -/
theorem converse_shows_current (decoder : Decoder) (parser : Parser) (rules : Ruleset)
    (arrivals : List Arrival) (events : List Event)
    (read : arrivals.map (fun arrival => decoder.event? arrival.content) = events.map some)
    (distinct : ∀ first ∈ events, ∀ second ∈ events, first.uri ≠ second.uri →
      Files.Path.same first.uri second.uri = false) :
    (phaseAfter decoder parser rules (.serving .empty) arrivals = .stuck ↔
      ∃ count arrival event, arrivals[count]? = some arrival ∧ events[count]? = some event ∧
        event.publishes = true ∧
        EndlessAudit parser rules (.ofEvents (events.take (count + 1))) arrival.listing) ∧
    (∀ uri, (Workspace.ofEvents events).text? uri = latestText events uri) ∧
    (phaseAfter decoder parser rules (.serving .empty) arrivals ≠ .stuck →
      phaseAfter decoder parser rules (.serving .empty) arrivals = .serving (.ofEvents events) ∧
      ((Workspace.ofEvents events).documents = [] ∨
        ∃ arrival ∈ arrivals, ∀ uri text, (Workspace.ofEvents events).text? uri = some text →
          ∃ found,
            reportedFor? rules ((Workspace.ofEvents events).compile parser arrival.listing) uri =
              some found ∧
            diagnoseDocument?
              (Model.ofDocuments rules.catalog
                ((Workspace.ofEvents events).compile parser arrival.listing)) rules
              (Document.parse parser uri text) = some found ∧
            shown (converse decoder parser rules (.serving .empty) arrivals).sent uri =
              some (found.map (EditorDiagnostic.ofDiagnostic text))) ∧
      (∀ listing,
        (∀ first ∈ (Workspace.ofEvents events).compile parser listing,
          ∀ second ∈ (Workspace.ofEvents events).compile parser listing,
            Compatible rules.catalog.toIndex first second) →
        ∀ uri text, (Workspace.ofEvents events).text? uri = some text →
          ∃ found,
            reportedFor? rules ((Workspace.ofEvents events).compile parser listing) uri =
              some found ∧
            shown (converse decoder parser rules (.serving .empty) arrivals).sent uri =
              some (found.map (EditorDiagnostic.ofDiagnostic text))) ∧
      ∀ uri, (Workspace.ofEvents events).text? uri = none → ∀ view,
        shown (converse decoder parser rules (.serving .empty) arrivals).sent uri = some view →
          view = []) ∧
    ∀ arrival uri, decoder.event? arrival.content = some (.changed uri []) →
      (converse decoder parser rules (.serving .empty) (arrivals ++ [arrival])).sent =
        (converse decoder parser rules (.serving .empty) arrivals).sent := by
  let known : String → Prop := fun uri => ∃ event ∈ events, event.uri = uri
  have apart : PathsApart known := by
    rintro _ ⟨first, inFirst, rfl⟩ _ ⟨second, inSecond, rfl⟩ differ
    exact distinct first inFirst second inSecond differ
  have fresh : Current parser rules [] .empty [] :=
    ⟨Or.inl rfl, fun _ _ _ found => nomatch found⟩
  have run := @Current.run decoder parser rules known apart [] .empty [] fresh
    (fun _ member => nomatch member) arrivals events read (fun event member => ⟨event, member, rfl⟩)
  refine ⟨phase_after_eq_stuck_iff read, Workspace.text_after_events events .empty, ?_, ?_⟩
  · intro goes
    obtain ⟨serves, within, current⟩ := run goes
    rw [List.nil_append, List.nil_append] at current
    have shows : (Workspace.ofEvents events).documents = [] ∨
        ∃ arrival ∈ arrivals, Shows parser rules arrival.listing (.ofEvents events)
          (converse decoder parser rules (.serving .empty) arrivals).sent := by
      refine current.shows.imp_right ?_
      rintro ⟨_, listed, shows⟩
      obtain ⟨arrival, arrived, rfl⟩ := List.mem_map.mp listed
      exact ⟨arrival, arrived, shows⟩
    refine ⟨serves, shows.imp_right ?_, ?_, current.cleared⟩
    · rintro ⟨arrival, arrived, shows⟩
      refine ⟨arrival, arrived, fun uri text isOpen => ?_⟩
      obtain ⟨found, reported, view⟩ := shows uri text isOpen
      have compiled : Document.parse parser uri text ∈
          (Workspace.ofEvents events).compile parser arrival.listing :=
        Workspace.mem_compile_iff.mpr ⟨uri, text, isOpen, rfl⟩
      have paths := compile_paths_apart apart within parser arrival.listing
      exact ⟨found, reported, reported_for_of_mem paths compiled reported, view⟩
    · intro listing compatible uri text isOpen
      rcases shows with nothing | ⟨arrival, -, shows⟩
      · have member := Workspace.text_eq_some_iff.mp isOpen
        rw [nothing] at member
        cases member
      · obtain ⟨found, reported, view⟩ := shows uri text isOpen
        have paths := compile_paths_apart apart within parser listing
        have perm := Workspace.compile_perm parser listing arrival.listing (.ofEvents events)
        rw [← Verdict.reported_for_perm paths compatible perm] at reported
        exact ⟨found, reported, view⟩
  · intro arrival uri told
    rw [sent_converse_append]
    have silent : (converse decoder parser rules
        (phaseAfter decoder parser rules (.serving .empty) arrivals) [arrival]).sent = [] := by
      by_cases stuck : phaseAfter decoder parser rules (.serving .empty) arrivals = .stuck
      · rw [stuck]
        rfl
      · rw [(run stuck).1, sent_converse_cons, receive_of_event told]
        rfl
    rw [silent, List.append_nil]

/-- Messages that are events, given by their position in a list. -/
def listedDecoder (events : List Event) : Decoder where
  message?
    | .number position => some (.notification "event" (.number position))
    | _ => none
  notification _
    | .number position => ((events[position.toNat]?).map Incoming.event).getD .ignored
    | _ => .ignored
  initializes _ := true

def closingEvents : List Event :=
  [.opened "create.cs" Verdict.creatingText, .opened "derive.cs" Verdict.derivedText,
    .closed "derive.cs"]

/-- The documents are listed in another order every time. -/
def closingArrivals : List Arrival :=
  [⟨⟨id, List.Perm.refl⟩, .number 0⟩, ⟨Verdict.backward, .number 1⟩,
    ⟨⟨id, List.Perm.refl⟩, .number 2⟩]

theorem converse_shows_current_closed :
    closingArrivals.map (fun arrival => (listedDecoder closingEvents).event? arrival.content) =
      closingEvents.map some ∧
    phaseAfter (listedDecoder closingEvents) Verdict.partsParser Verdict.partsRules
      (.serving .empty) closingArrivals = .serving (.ofEvents closingEvents) ∧
    (∃ diagnostics, diagnostics.length = 1 ∧
      shown (converse (listedDecoder closingEvents) Verdict.partsParser Verdict.partsRules
        (.serving .empty) closingArrivals).sent "create.cs" = some diagnostics) ∧
    ∀ view, shown (converse (listedDecoder closingEvents) Verdict.partsParser Verdict.partsRules
      (.serving .empty) closingArrivals).sent "derive.cs" = some view → view = [] := by
  have read : closingArrivals.map
      (fun arrival => (listedDecoder closingEvents).event? arrival.content) =
        closingEvents.map some := by decide +kernel
  have distinct : ∀ first ∈ closingEvents, ∀ second ∈ closingEvents, first.uri ≠ second.uri →
      Files.Path.same first.uri second.uri = false := by decide +kernel
  obtain ⟨-, -, goesOn, -⟩ := converse_shows_current (listedDecoder closingEvents)
    Verdict.partsParser Verdict.partsRules closingArrivals closingEvents read distinct
  have exits : (phaseAfter (listedDecoder closingEvents) Verdict.partsParser Verdict.partsRules
      (.serving .empty) closingArrivals).exitCode? = some 0 := by decide +kernel
  obtain ⟨serves, -, inAnyOrder, cleared⟩ := goesOn (by
    intro stuck
    rw [stuck] at exits
    cases exits)
  have compatible : ∀ first ∈ (Workspace.ofEvents closingEvents).compile Verdict.partsParser
      ⟨id, List.Perm.refl⟩, ∀ second ∈ (Workspace.ofEvents closingEvents).compile
        Verdict.partsParser ⟨id, List.Perm.refl⟩,
        Compatible Verdict.partsRules.catalog.toIndex first second := by decide +kernel
  have left : (Workspace.ofEvents closingEvents).text? "create.cs" =
      some Verdict.creatingText := by decide +kernel
  obtain ⟨found, reported, view⟩ := inAnyOrder _ compatible "create.cs" _ left
  have one : (reportedFor? Verdict.partsRules ((Workspace.ofEvents closingEvents).compile
      Verdict.partsParser ⟨id, List.Perm.refl⟩) "create.cs").map List.length = some 1 := by
    decide +kernel
  rw [reported] at one
  refine ⟨read, serves, ⟨_, ?_, view⟩, cleared "derive.cs" (by decide +kernel)⟩
  rw [List.length_map]
  exact Option.some.inj one

end ReleaseAudit.Server
