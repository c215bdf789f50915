import ReleaseAudit.Rules.Basic

/-!
# Rule sets that report less

A rule set is quieter than another when it tracks no further types and
recognises every release, transfer, exemption and tracking construction that
the other one recognises. Tracking rules are searched in order, so there the
quieter set may only add rules at the end.

A layer that adds releases makes settings quieter, and a layer that adds
contracts makes them louder. Both facts are read off the compiled tables.
-/

namespace ReleaseAudit

set_option autoImplicit false

namespace Settings

/-- The layer adds ways to release, hand over or exempt a resource, and nothing else. -/
def AddsReleases (layer : Settings) : Prop :=
  layer =
    { releaseMethods := layer.releaseMethods
      releaseDesignatedMethods := layer.releaseDesignatedMethods
      ignoredTypes := layer.ignoredTypes
      ownershipTransfer := layer.ownershipTransfer
      releaseEquivalent := layer.releaseEquivalent
      ignoredFactories := layer.ignoredFactories
      trackingTypes := layer.trackingTypes }

/-- The layer adds disposal contracts, and nothing else. -/
def AddsContracts (layer : Settings) : Prop :=
  layer = { disposalContracts := layer.disposalContracts }

instance (layer : Settings) : Decidable layer.AddsReleases :=
  inferInstanceAs (Decidable (_ = _))

instance (layer : Settings) : Decidable layer.AddsContracts :=
  inferInstanceAs (Decidable (_ = _))

end Settings

namespace Rules.Ruleset

open ReleaseAudit.Types (TypeSymbol)

structure Quieter (quiet loud : Ruleset) : Prop where
  diagnosticId : quiet.diagnosticId = loud.diagnosticId
  severity : quiet.severity = loud.severity
  disposalContracts : quiet.disposalContracts ⊆ loud.disposalContracts
  releaseMethods : loud.releaseMethods ⊆ quiet.releaseMethods
  releaseDesignatedMethods : loud.releaseDesignatedMethods ⊆ quiet.releaseDesignatedMethods
  ignoredTypes : loud.ignoredTypes ⊆ quiet.ignoredTypes
  ownershipTransfer : loud.ownershipTransfer ⊆ quiet.ownershipTransfer
  releaseEquivalent : loud.releaseEquivalent ⊆ quiet.releaseEquivalent
  ignoredFactories : loud.ignoredFactories ⊆ quiet.ignoredFactories
  trackingTypes : ∃ added, quiet.trackingTypes = loud.trackingTypes ++ added
  catalog : quiet.catalog = loud.catalog

namespace Quieter

variable {quiet loud : Ruleset}

theorem is_release_method (quieter : Quieter quiet loud) {name : String}
    (known : loud.isReleaseMethod name = true) : quiet.isReleaseMethod name = true := by
  simp only [Ruleset.isReleaseMethod, List.contains_iff_mem] at known ⊢
  exact quieter.releaseMethods known

theorem is_release_designated (quieter : Quieter quiet loud) {name : String}
    (known : loud.isReleaseDesignated name = true) : quiet.isReleaseDesignated name = true := by
  simp only [Ruleset.isReleaseDesignated, List.contains_iff_mem] at known ⊢
  exact quieter.releaseDesignatedMethods known

theorem is_tracked (quieter : Quieter quiet loud) {type : TypeSymbol}
    (tracked : quiet.isTracked type = true) : loud.isTracked type = true := by
  simp only [Ruleset.isTracked, List.any_eq_true] at tracked ⊢
  obtain ⟨contract, member, implemented⟩ := tracked
  exact ⟨contract, quieter.disposalContracts member, implemented⟩

theorem is_ignored (quieter : Quieter quiet loud) {type : TypeSymbol}
    (ignored : loud.isIgnored type = true) : quiet.isIgnored type = true := by
  simp only [Ruleset.isIgnored, List.any_eq_true] at ignored ⊢
  obtain ⟨exempt, member, implemented⟩ := ignored
  exact ⟨exempt, quieter.ignoredTypes member, implemented⟩

theorem needs_release (quieter : Quieter quiet loud) {type : TypeSymbol}
    (needed : quiet.needsRelease type = true) : loud.needsRelease type = true := by
  simp only [Ruleset.needsRelease, Bool.and_eq_true, Bool.not_eq_true'] at needed ⊢
  refine ⟨quieter.is_tracked needed.1, ?_⟩
  cases ignored : loud.isIgnored type with
  | false => rfl
  | true =>
      have silenced := quieter.is_ignored ignored
      rw [needed.2] at silenced
      cases silenced

/-- Added tracking rules come last, so the first rule for a type stays the first. -/
theorem tracking_rule (quieter : Quieter quiet loud) {type : TypeSymbol} {rule : TrackingRule}
    (found : loud.trackingRule? type = some rule) : quiet.trackingRule? type = some rule := by
  obtain ⟨added, extended⟩ := quieter.trackingTypes
  rw [Ruleset.trackingRule?] at found ⊢
  rw [extended, List.find?_append, found]
  rfl

end Quieter

/-- The rule set of some settings, given their tables of method rules. -/
def withTables (settings : Settings)
    (ownershipTransfer releaseEquivalent ignoredFactories : List TypeRule) : Ruleset where
  diagnosticId := settings.diagnosticId.getD defaultId
  severity := settings.severity
  disposalContracts := settings.disposalContracts
  releaseMethods := settings.releaseMethods
  releaseDesignatedMethods := settings.releaseDesignatedMethods
  ignoredTypes := settings.ignoredTypes
  ownershipTransfer := ownershipTransfer
  releaseEquivalent := releaseEquivalent
  ignoredFactories := ignoredFactories
  trackingTypes := settings.trackingTypes
  catalog := Declarations.Catalog.ofSettings settings

theorem of_settings_eq_ok_iff {settings : Settings} {rules : Ruleset} :
    ofSettings settings = .ok rules ↔
      ∃ ownershipTransfer releaseEquivalent ignoredFactories,
        settings.ownershipTransfer.mapM TypeRule.ofSetting = .ok ownershipTransfer ∧
        settings.releaseEquivalent.mapM TypeRule.ofSetting = .ok releaseEquivalent ∧
        settings.ignoredFactories.mapM TypeRule.ofSetting = .ok ignoredFactories ∧
        withTables settings ownershipTransfer releaseEquivalent ignoredFactories = rules := by
  unfold ofSettings
  cases settings.ownershipTransfer.mapM TypeRule.ofSetting with
  | error cause => simp [bind, Except.bind]
  | ok ownershipTransfer =>
      cases settings.releaseEquivalent.mapM TypeRule.ofSetting with
      | error cause => simp [bind, Except.bind]
      | ok releaseEquivalent =>
          cases settings.ignoredFactories.mapM TypeRule.ofSetting with
          | error cause => simp [bind, Except.bind]
          | ok ignoredFactories => simp [bind, Except.bind, pure, Except.pure, withTables]

theorem map_m_of_setting_append {lower upper : List MethodRule}
    {lowerRules upperRules : List TypeRule}
    (lowerBuilt : lower.mapM TypeRule.ofSetting = .ok lowerRules)
    (upperBuilt : upper.mapM TypeRule.ofSetting = .ok upperRules) :
    (lower ++ upper).mapM TypeRule.ofSetting = .ok (lowerRules ++ upperRules) := by
  rw [List.mapM_append, lowerBuilt, upperBuilt]
  rfl

/-- A layer that keeps the settings below it in force appends its tables to theirs. -/
theorem of_settings_extend {lower layer : Settings} {rules layerRules : Ruleset}
    (built : ofSettings lower = .ok rules) (layerBuilt : ofSettings layer = .ok layerRules)
    (kept : layer.extendDefaults = none) :
    ofSettings (lower.extend layer) =
      .ok (withTables (lower.extend layer)
        (rules.ownershipTransfer ++ layerRules.ownershipTransfer)
        (rules.releaseEquivalent ++ layerRules.releaseEquivalent)
        (rules.ignoredFactories ++ layerRules.ignoredFactories)) := by
  obtain ⟨transfer, equivalent, factories, hasTransfer, hasEquivalent, hasFactories, rfl⟩ :=
    of_settings_eq_ok_iff.mp built
  obtain ⟨transfer', equivalent', factories', hasTransfer', hasEquivalent', hasFactories', rfl⟩ :=
    of_settings_eq_ok_iff.mp layerBuilt
  rw [Settings.extend, if_neg (by simp [kept])]
  exact of_settings_eq_ok_iff.mpr ⟨_, _, _, map_m_of_setting_append hasTransfer hasTransfer',
    map_m_of_setting_append hasEquivalent hasEquivalent',
    map_m_of_setting_append hasFactories hasFactories', rfl⟩

theorem extend_quieter_of_adds_releases {lower layer : Settings} {rules layerRules : Ruleset}
    (built : ofSettings lower = .ok rules) (layerBuilt : ofSettings layer = .ok layerRules)
    (adds : layer.AddsReleases) :
    ∃ extended, ofSettings (lower.extend layer) = .ok extended ∧ extended.Quieter rules := by
  have kept : layer.extendDefaults = none := congrArg Settings.extendDefaults adds
  refine ⟨_, of_settings_extend built layerBuilt kept, ?_⟩
  obtain ⟨transfer, equivalent, factories, -, -, -, rfl⟩ := of_settings_eq_ok_iff.mp built
  have sameId : layer.diagnosticId = none := congrArg Settings.diagnosticId adds
  have sameProfile : layer.profile = none := congrArg Settings.profile adds
  have sameContracts : layer.disposalContracts = [] := congrArg Settings.disposalContracts adds
  have sameUsings : layer.implicitUsings = [] := congrArg Settings.implicitUsings adds
  have sameTypes : layer.knownTypes = [] := congrArg Settings.knownTypes adds
  constructor <;>
    simp [withTables, Settings.extend, Settings.severity, Declarations.Catalog.ofSettings, kept,
      sameId, sameProfile, sameContracts, sameUsings, sameTypes]

theorem quieter_extend_of_adds_contracts {lower layer : Settings} {rules layerRules : Ruleset}
    (built : ofSettings lower = .ok rules) (layerBuilt : ofSettings layer = .ok layerRules)
    (adds : layer.AddsContracts) :
    ∃ extended, ofSettings (lower.extend layer) = .ok extended ∧ rules.Quieter extended := by
  have kept : layer.extendDefaults = none := congrArg Settings.extendDefaults adds
  refine ⟨_, of_settings_extend built layerBuilt kept, ?_⟩
  obtain ⟨transfer, equivalent, factories, -, -, -, rfl⟩ := of_settings_eq_ok_iff.mp built
  -- Every table of the layer but the contracts is empty, and so is its compiled form.
  rw [adds] at layerBuilt ⊢
  obtain ⟨_, _, _, hasTransfer, hasEquivalent, hasFactories, rfl⟩ :=
    of_settings_eq_ok_iff.mp layerBuilt
  cases hasTransfer
  cases hasEquivalent
  cases hasFactories
  constructor <;>
    simp [withTables, Settings.extend, Settings.severity, Declarations.Catalog.ofSettings]

end Rules.Ruleset

end ReleaseAudit
