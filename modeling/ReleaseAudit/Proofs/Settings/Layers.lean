import Mathlib.Data.List.Basic
import ReleaseAudit.Settings.Basic

/-!
# Layers of settings

A layer either resets what lies below it or is laid on top of it. Layers can be
grouped in any way, the layer that sets nothing changes nothing, and only the
layers from the last reset on have a say in the result.
-/

namespace ReleaseAudit.Settings

set_option autoImplicit false

def Resets (layer : Settings) : Prop :=
  layer.extendDefaults = some false

instance (layer : Settings) : Decidable layer.Resets :=
  inferInstanceAs (Decidable (_ = _))

/-- A base with layers on top, read field by field: lists are concatenated from the base
upward, and of single values the topmost one that is set counts. -/
def stacked (base : Settings) (layers : List Settings) : Settings where
  extendDefaults := base.extendDefaults
  diagnosticId := (base :: layers).reverse.findSome? diagnosticId
  profile := (base :: layers).reverse.findSome? profile
  disposalContracts := (base :: layers).flatMap disposalContracts
  releaseMethods := (base :: layers).flatMap releaseMethods
  releaseDesignatedMethods := (base :: layers).flatMap releaseDesignatedMethods
  ignoredTypes := (base :: layers).flatMap ignoredTypes
  implicitUsings := (base :: layers).flatMap implicitUsings
  ownershipTransfer := (base :: layers).flatMap ownershipTransfer
  releaseEquivalent := (base :: layers).flatMap releaseEquivalent
  ignoredFactories := (base :: layers).flatMap ignoredFactories
  trackingTypes := (base :: layers).flatMap trackingTypes
  knownTypes := (base :: layers).flatMap knownTypes

theorem find_some_pair {α β : Type} (value : α → Option β) (first second : α) :
    [first, second].findSome? value = (value first).or (value second) := by
  cases own : value first <;> cases other : value second <;>
    simp [own, other]

theorem extend_of_resets (lower : Settings) {upper : Settings} (resets : upper.Resets) :
    lower.extend upper = upper :=
  if_pos resets

theorem extend_of_not_resets (lower : Settings) {upper : Settings} (keeps : ¬ upper.Resets) :
    lower.extend upper = stacked lower [upper] := by
  have kept : ¬ upper.extendDefaults = some false := keeps
  rw [extend, if_neg kept]
  simp [stacked, find_some_pair]

theorem resets_extend_iff {lower upper : Settings} (keeps : ¬ upper.Resets) :
    (lower.extend upper).Resets ↔ lower.Resets := by
  rw [extend_of_not_resets lower keeps]
  exact Iff.rfl

theorem extend_empty (settings : Settings) : settings.extend {} = settings := by
  rw [extend_of_not_resets settings (by decide)]
  simp [stacked]

theorem extend_assoc (first second third : Settings) :
    (first.extend second).extend third = first.extend (second.extend third) := by
  by_cases topResets : third.Resets
  · simp only [extend_of_resets _ topResets]
  · by_cases middleResets : second.Resets
    · have resets := (resets_extend_iff topResets).mpr middleResets
      rw [extend_of_resets first middleResets, extend_of_resets first resets]
    · have keeps := mt (resets_extend_iff topResets).mp middleResets
      rw [extend_of_not_resets first keeps, extend_of_not_resets second topResets,
        extend_of_not_resets _ topResets, extend_of_not_resets first middleResets]
      simp [stacked, find_some_pair, Option.or_assoc]

theorem stacked_cons (base layer : Settings) (keeps : ¬ layer.Resets) (layers : List Settings) :
    stacked base (layer :: layers) = stacked (base.extend layer) layers := by
  rw [extend_of_not_resets base keeps]
  simp [stacked]

theorem foldl_extend_eq_stacked (base : Settings) {layers : List Settings}
    (keep : ∀ layer ∈ layers, ¬ layer.Resets) : layers.foldl extend base = stacked base layers := by
  induction layers generalizing base with
  | nil => simp [stacked]
  | cons layer rest ih =>
      have here := keep layer List.mem_cons_self
      have later := ih (base.extend layer) fun other member =>
        keep other (List.mem_cons_of_mem layer member)
      rw [List.foldl_cons, later, stacked_cons base layer here rest]

theorem foldl_extend_reset (base : Settings) (before : List Settings) {reset : Settings}
    (resets : reset.Resets) (after : List Settings) :
    (before ++ reset :: after).foldl extend base = after.foldl extend reset := by
  rw [List.foldl_append, List.foldl_cons, extend_of_resets _ resets]

theorem exists_last_reset {layers : List Settings} (reset : ∃ layer ∈ layers, layer.Resets) :
    ∃ before last after, layers = before ++ last :: after ∧ last.Resets ∧
      ∀ layer ∈ after, ¬ layer.Resets := by
  induction layers with
  | nil => simp at reset
  | cons layer rest ih =>
      by_cases later : ∃ other ∈ rest, other.Resets
      · obtain ⟨before, last, after, rfl, resets, keep⟩ := ih later
        exact ⟨layer :: before, last, after, rfl, resets, keep⟩
      · obtain ⟨first, member, resets⟩ := reset
        have keep : ∀ other ∈ rest, ¬ other.Resets := fun other inRest again =>
          later ⟨other, inRest, again⟩
        rcases List.mem_cons.mp member with rfl | inRest
        · exact ⟨[], first, rest, rfl, resets, keep⟩
        · exact absurd resets (keep first inRest)

/-- Layering is associative, and the layer that sets nothing is neutral on top. Where some
layer resets, neither the base nor any layer below the last reset has a say; where none does,
the result is read off the base and the layers field by field. -/
theorem extend_layers (first second third base : Settings) (layers : List Settings) :
    (first.extend second).extend third = first.extend (second.extend third) ∧
    first.extend {} = first ∧
    ((∃ layer ∈ layers, layer.Resets) →
      ∃ before last after, layers = before ++ last :: after ∧ last.Resets ∧
        (∀ layer ∈ after, ¬ layer.Resets) ∧
        layers.foldl extend base = after.foldl extend last ∧
        after.foldl extend last = stacked last after ∧
        ∀ (otherBase : Settings) (otherBefore : List Settings),
          (otherBefore ++ last :: after).foldl extend otherBase = layers.foldl extend base) ∧
    ((∀ layer ∈ layers, ¬ layer.Resets) → layers.foldl extend base = stacked base layers) := by
  refine ⟨extend_assoc first second third, extend_empty first, ?_, foldl_extend_eq_stacked base⟩
  intro reset
  obtain ⟨before, last, after, rfl, resets, keep⟩ := exists_last_reset reset
  have cut := foldl_extend_reset base before resets after
  refine ⟨before, last, after, rfl, resets, keep, cut, foldl_extend_eq_stacked last keep, ?_⟩
  intro otherBase otherBefore
  exact (foldl_extend_reset otherBase otherBefore resets after).trans cut.symm

/-- A strict layer, one that starts over with `Close`, and one that adds an ignored type. -/
theorem extend_layers_close :
    ([{ profile := some .strict, releaseMethods := ["Dispose"] },
      { extendDefaults := some false, releaseMethods := ["Close"] },
      { ignoredTypes := ["Pool"] }] : List Settings).foldl extend
        { releaseMethods := ["Free"], diagnosticId := some "DL1" } =
      { extendDefaults := some false, releaseMethods := ["Close"], ignoredTypes := ["Pool"] } ∧
    ([{ profile := some .strict, releaseMethods := ["Dispose"] },
      { extendDefaults := some true, profile := some .low }] : List Settings).foldl extend
        { releaseMethods := ["Free"], diagnosticId := some "DL1" } =
      { releaseMethods := ["Free", "Dispose"], diagnosticId := some "DL1",
        profile := some .low } := by
  constructor
  · obtain ⟨before, last, after, split, resets, -, -, cut, same⟩ :=
      (extend_layers {} {} {} { releaseMethods := ["Free"], diagnosticId := some "DL1" }
        [{ profile := some .strict, releaseMethods := ["Dispose"] },
          { extendDefaults := some false, releaseMethods := ["Close"] },
          { ignoredTypes := ["Pool"] }]).2.2.1 (by decide)
    rw [← same {} before, ← split]
    decide
  · rw [(extend_layers {} {} {} _ _).2.2.2 (by decide)]
    decide

end ReleaseAudit.Settings
