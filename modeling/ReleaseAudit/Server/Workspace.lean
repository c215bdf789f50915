import ReleaseAudit.Files.Path
import ReleaseAudit.Report.Editor
import ReleaseAudit.Verdict.Basic

/-!
# Open documents

All open documents are compiled together, so every event can change what is
reported for any of them, and all of them are published again. The documents
are kept in a map, which each audit may list in another order.
-/

namespace ReleaseAudit.Server

set_option autoImplicit false

open Report (EditorDiagnostic)
open Rules (Ruleset)
open Source (Document Parser)
open Verdict (Diagnostic)

inductive Event where
  | opened (uri text : String)
  /-- Each text is the whole document; the last one counts. -/
  | changed (uri : String) (texts : List String)
  | saved (uri : String) (text : Option String)
  | closed (uri : String)
deriving DecidableEq, Repr

structure Publication where
  uri : String
  diagnostics : List EditorDiagnostic
deriving DecidableEq, Repr

/-- An order in which a map lists its entries. -/
structure Listing where
  list : List (String × String) → List (String × String)
  perm : ∀ entries, (list entries).Perm entries

def Listing.byAddress : Listing :=
  ⟨fun entries => entries.mergeSort fun first second => first.1 ≤ second.1,
    fun entries => entries.mergeSort_perm _⟩

def put (uri text : String) : List (String × String) → List (String × String)
  | [] => [(uri, text)]
  | entry :: rest => if entry.1 = uri then (uri, text) :: rest else entry :: put uri text rest

theorem mem_put {uri text : String} {entry : String × String}
    {documents : List (String × String)} (member : entry ∈ put uri text documents) :
    entry = (uri, text) ∨ entry ∈ documents := by
  induction documents with
  | nil => exact Or.inl (List.mem_singleton.mp member)
  | cons head rest ih =>
      unfold put at member
      split at member
      · rcases List.mem_cons.mp member with new | old
        · exact Or.inl new
        · exact Or.inr (List.mem_cons_of_mem head old)
      · rcases List.mem_cons.mp member with here | later
        · exact Or.inr (here ▸ List.mem_cons_self)
        · exact (ih later).imp_right (List.mem_cons_of_mem head)

theorem distinct_put (uri text : String) {documents : List (String × String)}
    (distinct : documents.Pairwise fun first second => first.1 ≠ second.1) :
    (put uri text documents).Pairwise fun first second => first.1 ≠ second.1 := by
  induction documents with
  | nil => exact List.pairwise_singleton _ _
  | cons head rest ih =>
      obtain ⟨apart, restDistinct⟩ := List.pairwise_cons.mp distinct
      unfold put
      split
      · next same => exact List.pairwise_cons.mpr ⟨same ▸ apart, restDistinct⟩
      · next differs =>
          refine List.pairwise_cons.mpr ⟨fun entry member => ?_, ih restDistinct⟩
          rcases mem_put member with rfl | old
          · exact differs
          · exact apart entry old

structure Workspace where
  documents : List (String × String)
  distinct : documents.Pairwise fun first second => first.1 ≠ second.1

namespace Workspace

def empty : Workspace := ⟨[], List.Pairwise.nil⟩

def text? (workspace : Workspace) (uri : String) : Option String :=
  workspace.documents.lookup uri

def insert (workspace : Workspace) (uri text : String) : Workspace :=
  ⟨put uri text workspace.documents, distinct_put uri text workspace.distinct⟩

def erase (workspace : Workspace) (uri : String) : Workspace :=
  ⟨workspace.documents.filter fun entry => entry.1 != uri, workspace.distinct.filter _⟩

def after (workspace : Workspace) : Event → Workspace
  | .opened uri text => workspace.insert uri text
  | .changed uri texts =>
      match texts.getLast? with
      | some text => workspace.insert uri text
      | none => workspace
  | .saved uri (some text) => workspace.insert uri text
  | .saved _ none => workspace
  | .closed uri => workspace.erase uri

def compile (parser : Parser) (listing : Listing) (workspace : Workspace) : List Document :=
  (listing.list workspace.documents).map fun entry => Document.parse parser entry.1 entry.2

end Workspace

/-- The address under which a path is published. Of several addresses with that path it is the one
listed last. -/
def addressOf? (documents : List Document) (path : String) : Option String :=
  (documents.reverse.find? fun document => Files.Path.same document.path path).map Document.path

def publications (documents : List Document) (diagnostics : List Diagnostic) :
    List Publication :=
  documents.filterMap fun document =>
    (addressOf? documents document.path).map fun uri =>
      ⟨uri,
        (diagnostics.filter fun diagnostic =>
          Files.Path.same diagnostic.location.path document.path).map
          (EditorDiagnostic.ofDiagnostic document.text)⟩

namespace Workspace

/-- The current diagnostics of every open document, if their audit ends. -/
def publishAll? (parser : Parser) (rules : Ruleset) (listing : Listing) (workspace : Workspace) :
    Option (List Publication) :=
  let documents := workspace.compile parser listing
  (Verdict.diagnoseAll? rules documents).map (publications documents)

/-- What is published after an event: everything, preceded by nothing for a document that was
closed. A change without texts publishes nothing. -/
def publish? (parser : Parser) (rules : Ruleset) (listing : Listing) (workspace : Workspace)
    (event : Event) : Option (List Publication) :=
  match event with
  | .changed _ [] => some []
  | .closed uri =>
      ((workspace.after event).publishAll? parser rules listing).map (⟨uri, []⟩ :: ·)
  | _ => (workspace.after event).publishAll? parser rules listing

end Workspace

end ReleaseAudit.Server
