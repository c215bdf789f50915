import ReleaseAudit.Proofs.Lists
import ReleaseAudit.Settings.Schema

/-!
# Kinds of known types

A layer can name a type as a class, a struct or an interface and as nothing
else, so no settings that are loaded hold a known type of another kind.
-/

namespace ReleaseAudit.Settings

set_option autoImplicit false

open Toml (Value)

def Declared (settings : Settings) : Prop :=
  ∀ known ∈ settings.knownTypes, known.kind ≠ .undeclared

instance (settings : Settings) : Decidable settings.Declared :=
  inferInstanceAs (Decidable (∀ known ∈ _, _))

namespace Schema

theorem exists_of_mem_list {α : Type} {element? : Value → Option α} {value : Value}
    {elements : List α} (decoded : list? element? value = some elements) {element : α}
    (member : element ∈ elements) : ∃ source, element? source = some element := by
  unfold list? at decoded
  split at decoded
  · have paired := Lists.map_m_eq_some_iff.mp decoded
    obtain ⟨source, -, ofSource⟩ := Lists.exists_left_of_mem paired member
    exact ⟨source, ofSource⟩
  · cases decoded

theorem optional_eq_some {α : Type} {entries : List (String × Value)} {key : String}
    {decode? : Value → Option α} {absent result : α}
    (decoded : optional? entries key decode? absent = some result) :
    result = absent ∨ ∃ value, decode? value = some result := by
  unfold optional? at decoded
  split at decoded
  · exact .inr ⟨_, decoded⟩
  · exact .inl (Option.some.inj decoded).symm

theorem exists_of_word {α : Type} {choices : List (String × α)} {value : Value} {choice : α}
    (decoded : word? choices value = some choice) : ∃ word, (word, choice) ∈ choices := by
  have listed : ∀ word, choices.lookup word = some choice → (word, choice) ∈ choices := by
    intro word found
    obtain ⟨before, after, split, -⟩ := List.lookup_eq_some_iff.mp found
    rw [split]
    exact List.mem_append_right _ List.mem_cons_self
  unfold word? at decoded
  split at decoded
  · exact ⟨_, listed _ decoded⟩
  · exact ⟨_, listed _ decoded⟩
  · exact ⟨_, listed _ decoded⟩
  · cases decoded

theorem type_kind_ne_undeclared {value : Value} {kind : Types.TypeKind}
    (decoded : typeKind? value = some kind) : kind ≠ .undeclared := by
  obtain ⟨word, listed⟩ := exists_of_word decoded
  rintro rfl
  simp at listed

theorem known_type_kind {value : Value} {known : KnownType}
    (decoded : knownType? value = some known) : known.kind ≠ .undeclared := by
  simp only [knownType?, Option.bind_eq_bind, Option.bind_eq_some_iff] at decoded
  obtain ⟨entries, -, name, -, kind, ofKind, bases, -, members, -, made⟩ := decoded
  obtain rfl := Option.some.inj made
  rcases optional_eq_some ofKind with absent | ⟨source, ofSource⟩
  · change kind ≠ .undeclared
    rw [absent]
    decide
  · exact type_kind_ne_undeclared ofSource

theorem declared_settings {value : Value} {settings : Settings}
    (decoded : settings? value = some settings) : settings.Declared := by
  unfold settings? at decoded
  obtain ⟨entries, -, decoded⟩ := Option.bind_eq_some_iff.mp decoded
  -- The twelve fields in front of the known types.
  iterate 12 obtain ⟨_, -, decoded⟩ := Option.bind_eq_some_iff.mp decoded
  obtain ⟨knownTypes, ofKnownTypes, made⟩ := Option.bind_eq_some_iff.mp decoded
  obtain rfl := Option.some.inj made
  intro known member
  rcases optional_eq_some ofKnownTypes with absent | ⟨source, ofSource⟩
  · change known ∈ knownTypes at member
    rw [absent] at member
    cases member
  · obtain ⟨type, ofType⟩ := exists_of_mem_list ofSource member
    exact known_type_kind ofType

end Schema

theorem Declared.extend {lower upper : Settings} (below : lower.Declared)
    (above : upper.Declared) : (lower.extend upper).Declared := by
  unfold Settings.extend
  split
  · exact above
  · intro known member
    rcases List.mem_append.mp member with ofLower | ofUpper
    · exact below known ofLower
    · exact above known ofUpper

theorem declared_layered {text origin : String} {settings : Settings}
    (read : layered text origin = .ok settings) : settings.Declared := by
  have declared : builtin.Declared := by decide +kernel
  unfold layered ofText at read
  split at read
  case h_1 layer decoded =>
    obtain ⟨entries, -, ofEntries⟩ := Option.bind_eq_some_iff.mp decoded
    obtain rfl : builtin.extend layer = settings := Except.ok.inj read
    exact declared.extend (Schema.declared_settings ofEntries)
  case h_2 => cases read

theorem declared_load {folder : Files.Folder} {path : Option String} {settings : Settings}
    (loaded : load folder path = .ok settings) : settings.Declared := by
  cases path with
  | none =>
    obtain rfl : builtin = settings := Except.ok.inj loaded
    decide +kernel
  | some path =>
    change ofFile folder path = .ok settings at loaded
    unfold ofFile at loaded
    split at loaded
    · exact declared_layered loaded
    · cases loaded

end ReleaseAudit.Settings
