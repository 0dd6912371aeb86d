import AntNode.ReleaseMonitor
import Mathlib.Data.Prod.Lex

/-!
# Which release is selected

A release describes an upgrade where its tag parses and its assets are there, and the loop offers
what is newer than the current version and fits the channel by its suffix. The selected upgrade is
the first of the highest version among the offers. The pre-release flag of a release is not read, so
the selection is the maximum of the channel exactly where no flagged release stands first there, or
an unflagged one describes the same upgrade.
-/

namespace AntNode.Monitor

variable {V : Type} [LinearOrder V] (semver : Semver V) (platform : Platform) (currentVersion : V)
  (channel : UpgradeChannel)

/-- The upgrade a release describes: its version, its binary for the platform and the signature of
that binary. -/
def describe (release : GitHubRelease) : Option (UpgradeInfo V) := do
  let version ← versionFromTag semver release.tagName
  let binaryAsset ← findPlatformAsset platform release.assets
  let sigAsset ← release.assets.find? fun asset => asset.name == binaryAsset.name ++ ".sig"
  return ⟨version, binaryAsset.browserDownloadUrl, sigAsset.browserDownloadUrl, release.body⟩

/-- Newer than the current version, and without a suffix on the stable channel. -/
def Acceptable (info : UpgradeInfo V) : Prop :=
  currentVersion < info.version ∧ (channel = .stable → semver.preIsEmpty info.version = true)

instance (info : UpgradeInfo V) : Decidable (Acceptable semver currentVersion channel info) :=
  inferInstanceAs (Decidable (_ ∧ _))

/-- The release offers the upgrade to the loop. -/
def Offers (release : GitHubRelease) (info : UpgradeInfo V) : Prop :=
  describe semver platform release = some info ∧ Acceptable semver currentVersion channel info

/-- The release may be selected on the channel: the offer is not one of a pre-release, neither by
suffix nor by flag. -/
def Eligible (release : GitHubRelease) : Prop :=
  ∃ info, Offers semver platform currentVersion channel release info ∧
    (channel = .stable → release.prerelease = false)

/-- Keep the first of the highest version. -/
def keepNewest (best : Option (UpgradeInfo V)) (candidate : UpgradeInfo V) :
    Option (UpgradeInfo V) :=
  if best.all fun b => decide (b.version < candidate.version) then some candidate else best

variable {semver platform currentVersion channel}

theorem considerRelease_of_offers {release : GitHubRelease} {info : UpgradeInfo V}
    (hoffers : Offers semver platform currentVersion channel release info)
    (best : Option (UpgradeInfo V)) :
    considerRelease semver platform currentVersion channel best release = keepNewest best info := by
  obtain ⟨hdescribe, hnewer, hsuffix⟩ := hoffers
  obtain ⟨version, hversion, hdescribe⟩ := Option.bind_eq_some_iff.mp hdescribe
  obtain ⟨binaryAsset, hbinary, hdescribe⟩ := Option.bind_eq_some_iff.mp hdescribe
  obtain ⟨sigAsset, hsig, hdescribe⟩ := Option.bind_eq_some_iff.mp hdescribe
  obtain rfl := Option.some.inj hdescribe
  have hchannel : ¬(channel = .stable && !semver.preIsEmpty version) = true := by
    intro hboth
    obtain ⟨hstable, hpre⟩ := Bool.and_eq_true_iff.mp hboth
    rw [hsuffix (of_decide_eq_true hstable)] at hpre
    cases hpre
  unfold considerRelease
  simp only [hversion, if_neg (not_le.mpr hnewer), if_neg hchannel, hbinary, hsig]
  rfl

theorem considerRelease_of_not_offers {release : GitHubRelease}
    (hnot : ∀ info, ¬Offers semver platform currentVersion channel release info)
    (best : Option (UpgradeInfo V)) :
    considerRelease semver platform currentVersion channel best release = best := by
  unfold considerRelease
  cases hversion : versionFromTag semver release.tagName with
  | none => rfl
  | some version =>
      dsimp only
      by_cases hnewer : version ≤ currentVersion
      · exact if_pos hnewer
      rw [if_neg hnewer]
      by_cases hchannel : (channel = .stable && !semver.preIsEmpty version) = true
      · exact if_pos hchannel
      rw [if_neg hchannel]
      cases hbinary : findPlatformAsset platform release.assets with
      | none => rfl
      | some binaryAsset =>
          dsimp only
          cases hsig : release.assets.find? fun asset =>
              asset.name == binaryAsset.name ++ ".sig" with
          | none => rfl
          | some sigAsset =>
              have hdescribe : describe semver platform release = some ⟨version,
                  binaryAsset.browserDownloadUrl, sigAsset.browserDownloadUrl, release.body⟩ := by
                simp only [describe, hversion, hbinary, hsig, Option.bind_eq_bind, Option.bind_some,
                  Option.pure_def]
              refine absurd ⟨hdescribe, not_le.mp hnewer, fun hstable => ?_⟩ (hnot _)
              by_contra hpre
              exact hchannel (by simp [hstable, hpre])

omit [LinearOrder V] in
theorem versionFromTag_of_describe {release : GitHubRelease} {info : UpgradeInfo V}
    (hdescribe : describe semver platform release = some info) :
    versionFromTag semver release.tagName = some info.version := by
  obtain ⟨version, hversion, hdescribe⟩ := Option.bind_eq_some_iff.mp hdescribe
  obtain ⟨binaryAsset, -, hdescribe⟩ := Option.bind_eq_some_iff.mp hdescribe
  obtain ⟨sigAsset, -, hdescribe⟩ := Option.bind_eq_some_iff.mp hdescribe
  obtain rfl := Option.some.inj hdescribe
  exact hversion

/-! ### The first of the highest version -/

section Newest

variable {releases : List GitHubRelease} {info : UpgradeInfo V}

variable (semver platform currentVersion channel) in
/-- The release stands first among the offers of the highest version. -/
def Leads (releases : List GitHubRelease) (release : GitHubRelease) (info : UpgradeInfo V) : Prop :=
  ∃ before after, releases = before ++ release :: after ∧
    Offers semver platform currentVersion channel release info ∧
    (∀ other ∈ before, ∀ offer, Offers semver platform currentVersion channel other offer →
      offer.version < info.version) ∧
    ∀ other ∈ after, ∀ offer, Offers semver platform currentVersion channel other offer →
      offer.version ≤ info.version

theorem Offers.eq {release : GitHubRelease} {offer : UpgradeInfo V}
    (hinfo : Offers semver platform currentVersion channel release info)
    (hoffer : Offers semver platform currentVersion channel release offer) : offer = info :=
  Option.some.inj (hoffer.1.symm.trans hinfo.1)

namespace Leads

variable {release : GitHubRelease}

theorem mem (hleads : Leads semver platform currentVersion channel releases release info) :
    release ∈ releases := by
  obtain ⟨before, after, rfl, -⟩ := hleads
  simp

theorem offers (hleads : Leads semver platform currentVersion channel releases release info) :
    Offers semver platform currentVersion channel release info := by
  obtain ⟨-, -, -, hoffers, -⟩ := hleads
  exact hoffers

theorem le (hleads : Leads semver platform currentVersion channel releases release info)
    {other : GitHubRelease} (hother : other ∈ releases) {offer : UpgradeInfo V}
    (hoffer : Offers semver platform currentVersion channel other offer) :
    offer.version ≤ info.version := by
  obtain ⟨before, after, rfl, hoffers, hbefore, hafter⟩ := hleads
  rcases List.mem_append.mp hother with hother | hother
  · exact (hbefore other hother offer hoffer).le
  · rcases List.mem_cons.mp hother with rfl | hother
    · rw [hoffers.eq hoffer]
    · exact hafter other hother offer hoffer

theorem concat (hleads : Leads semver platform currentVersion channel releases release info)
    {last : GitHubRelease}
    (hlast : ∀ offer, Offers semver platform currentVersion channel last offer →
      offer.version ≤ info.version) :
    Leads semver platform currentVersion channel (releases ++ [last]) release info := by
  obtain ⟨before, after, rfl, hoffers, hbefore, hafter⟩ := hleads
  refine ⟨before, after ++ [last], by simp, hoffers, hbefore, ?_⟩
  intro other hother offer hoffer
  rcases List.mem_append.mp hother with hother | hother
  · exact hafter other hother offer hoffer
  · obtain rfl := List.mem_singleton.mp hother
    exact hlast offer hoffer

end Leads

theorem select_concat (releases : List GitHubRelease) (release : GitHubRelease) :
    selectUpgradeFromReleases semver platform (releases ++ [release]) currentVersion channel =
      considerRelease semver platform currentVersion channel
        (selectUpgradeFromReleases semver platform releases currentVersion channel) release := by
  rw [selectUpgradeFromReleases, List.foldl_append, List.foldl_cons, List.foldl_nil,
    selectUpgradeFromReleases]

variable (semver platform currentVersion channel) in
/-- Nothing is selected only where nothing is offered; else a leading release is. -/
theorem leads_of_select (releases : List GitHubRelease) :
    (selectUpgradeFromReleases semver platform releases currentVersion channel = none ∧
      ∀ release ∈ releases, ∀ offer,
        ¬Offers semver platform currentVersion channel release offer) ∨
    ∃ release info,
      selectUpgradeFromReleases semver platform releases currentVersion channel = some info ∧
        Leads semver platform currentVersion channel releases release info := by
  induction releases using List.reverseRecOn with
  | nil => exact .inl ⟨rfl, fun _ hmem => absurd hmem List.not_mem_nil⟩
  | append_singleton releases last ih =>
      rw [select_concat]
      by_cases hlast : ∃ offer, Offers semver platform currentVersion channel last offer
      · obtain ⟨offer, hoffer⟩ := hlast
        rw [considerRelease_of_offers hoffer]
        refine .inr ?_
        rcases ih with ⟨hnone, hnot⟩ | ⟨release, info, hsome, hleads⟩
        · refine ⟨last, offer, by rw [hnone]; rfl, releases, [], rfl, hoffer, ?_, by simp⟩
          exact fun other hother other' hother' => absurd hother' (hnot other hother other')
        · rw [hsome]
          by_cases hnewer : info.version < offer.version
          · refine ⟨last, offer, if_pos (by simpa using hnewer), releases, [], rfl, hoffer, ?_,
              by simp⟩
            exact fun other hother _ hother' => (hleads.le hother hother').trans_lt hnewer
          · refine ⟨release, info, if_neg (by simpa using hnewer), hleads.concat ?_⟩
            intro other hother
            rw [hoffer.eq hother]
            exact not_lt.mp hnewer
      · have hnone : ∀ offer, ¬Offers semver platform currentVersion channel last offer :=
          fun offer hoffer => hlast ⟨offer, hoffer⟩
        rw [considerRelease_of_not_offers hnone]
        rcases ih with ⟨hselect, hnot⟩ | ⟨release, info, hsome, hleads⟩
        · refine .inl ⟨hselect, fun release hmem offer => ?_⟩
          rcases List.mem_append.mp hmem with hmem | hmem
          · exact hnot release hmem offer
          · obtain rfl := List.mem_singleton.mp hmem
            exact hnone offer
        · exact .inr ⟨release, info, hsome,
            hleads.concat fun offer hoffer => absurd hoffer (hnone offer)⟩

theorem foldl_considerRelease_eq {later : List GitHubRelease}
    (hlater : ∀ other ∈ later, ∀ offer,
      Offers semver platform currentVersion channel other offer → offer.version ≤ info.version) :
    later.foldl (considerRelease semver platform currentVersion channel) (some info) =
      some info := by
  induction later with
  | nil => rfl
  | cons release later ih =>
      have hkept : considerRelease semver platform currentVersion channel (some info) release =
          some info := by
        by_cases hoffers : ∃ offer, Offers semver platform currentVersion channel release offer
        · obtain ⟨offer, hoffer⟩ := hoffers
          rw [considerRelease_of_offers hoffer]
          exact if_neg (by simpa using hlater release (by simp) offer hoffer)
        · exact considerRelease_of_not_offers (fun offer hoffer => hoffers ⟨offer, hoffer⟩) _
      rw [List.foldl_cons, hkept]
      exact ih fun other hother => hlater other (by simp [hother])

/-- A leading release is the one selected. -/
theorem select_of_leads {release : GitHubRelease}
    (hleads : Leads semver platform currentVersion channel releases release info) :
    selectUpgradeFromReleases semver platform releases currentVersion channel = some info := by
  obtain ⟨before, after, rfl, hoffers, hbefore, hafter⟩ := hleads
  have hround : considerRelease semver platform currentVersion channel
      (selectUpgradeFromReleases semver platform before currentVersion channel) release =
      some info := by
    rw [considerRelease_of_offers hoffers]
    rcases leads_of_select semver platform currentVersion channel before with
      ⟨hnone, -⟩ | ⟨first, earlier, hsome, hfirst⟩
    · rw [hnone]
      rfl
    · rw [hsome]
      exact if_pos (by simpa using hbefore first hfirst.mem earlier hfirst.offers)
  rw [selectUpgradeFromReleases] at hround ⊢
  rw [List.foldl_append, List.foldl_cons, hround]
  exact foldl_considerRelease_eq hafter

/-- The version of the selection does not depend on the order of the list. -/
theorem select_version_perm {shuffled : List GitHubRelease} (hperm : shuffled.Perm releases) :
    (selectUpgradeFromReleases semver platform shuffled currentVersion channel).map
        UpgradeInfo.version =
      (selectUpgradeFromReleases semver platform releases currentVersion channel).map
        UpgradeInfo.version := by
  rcases leads_of_select semver platform currentVersion channel releases with
    ⟨hnone, hnot⟩ | ⟨release, info, hsome, hleads⟩
  · rcases leads_of_select semver platform currentVersion channel shuffled with
      ⟨hnone', -⟩ | ⟨release', info', -, hleads'⟩
    · rw [hnone, hnone']
    · exact absurd hleads'.offers (hnot _ (hperm.mem_iff.mp hleads'.mem) _)
  · rcases leads_of_select semver platform currentVersion channel shuffled with
      ⟨-, hnot'⟩ | ⟨release', info', hsome', hleads'⟩
    · exact absurd hleads.offers (hnot' _ (hperm.mem_iff.mpr hleads.mem) _)
    · rw [hsome, hsome', Option.map_some, Option.map_some, Option.some.injEq]
      exact le_antisymm (hleads.le (hperm.mem_iff.mp hleads'.mem) hleads'.offers)
        (hleads'.le (hperm.mem_iff.mpr hleads.mem) hleads.offers)

end Newest

section Channel

variable (semver platform currentVersion channel)

/-- The selection is the maximum of the channel: an eligible release of the highest version, or none
where none is eligible, with one version for every order of the list. -/
structure ChannelMaximum (releases : List GitHubRelease) : Prop where
  none_iff : selectUpgradeFromReleases semver platform releases currentVersion channel = none ↔
    ∀ release ∈ releases, ¬Eligible semver platform currentVersion channel release
  eligible : ∀ info,
    selectUpgradeFromReleases semver platform releases currentVersion channel = some info →
      ∃ release ∈ releases, Eligible semver platform currentVersion channel release ∧
        describe semver platform release = some info
  maximum : ∀ info,
    selectUpgradeFromReleases semver platform releases currentVersion channel = some info →
      ∀ release ∈ releases, Eligible semver platform currentVersion channel release →
        ∀ version, versionFromTag semver release.tagName = some version → version ≤ info.version
  order_free : ∀ shuffled : List GitHubRelease, shuffled.Perm releases →
    (selectUpgradeFromReleases semver platform shuffled currentVersion channel).map
        UpgradeInfo.version =
      (selectUpgradeFromReleases semver platform releases currentVersion channel).map
        UpgradeInfo.version

/-- **The selection is the maximum of its channel** exactly on the beta channel, and where the
leading release is not flagged as a pre-release or an unflagged release describes the same
upgrade. -/
theorem channelMaximum_iff (releases : List GitHubRelease) :
    ChannelMaximum semver platform currentVersion channel releases ↔
      channel = .beta ∨ ∀ release info,
        Leads semver platform currentVersion channel releases release info →
          release.prerelease = false ∨ ∃ other ∈ releases, other.prerelease = false ∧
            describe semver platform other = describe semver platform release := by
  constructor
  · intro hmaximum
    by_cases hbeta : channel = .beta
    · exact .inl hbeta
    · have hstable : channel = .stable := by
        cases channel with
        | stable => rfl
        | beta => exact absurd rfl hbeta
      refine .inr fun release info hleads => .inr ?_
      obtain ⟨other, hother, ⟨offer, -, hflag⟩, hdescribe⟩ :=
        hmaximum.eligible info (select_of_leads hleads)
      exact ⟨other, hother, hflag hstable, hdescribe.trans hleads.offers.1.symm⟩
  · intro hflag
    have heligible : ∀ release info,
        Leads semver platform currentVersion channel releases release info →
          ∃ other ∈ releases, Eligible semver platform currentVersion channel other ∧
            describe semver platform other = some info := by
      intro release info hleads
      have hoffers := hleads.offers
      rcases hflag with rfl | hflag
      · exact ⟨release, hleads.mem, ⟨info, hoffers, fun hstable => by cases hstable⟩, hoffers.1⟩
      · rcases hflag release info hleads with hunflagged | ⟨other, hother, hunflagged, hsame⟩
        · exact ⟨release, hleads.mem, ⟨info, hoffers, fun _ => hunflagged⟩, hoffers.1⟩
        · have hdescribe : describe semver platform other = some info := hsame.trans hoffers.1
          exact ⟨other, hother, ⟨info, ⟨hdescribe, hoffers.2⟩, fun _ => hunflagged⟩, hdescribe⟩
    rcases leads_of_select semver platform currentVersion channel releases with
      ⟨hnone, hnot⟩ | ⟨release, info, hsome, hleads⟩
    · refine ⟨iff_of_true hnone ?_, ?_, ?_, fun shuffled hperm => select_version_perm hperm⟩
      · rintro release hrelease ⟨offer, hoffer, -⟩
        exact hnot release hrelease offer hoffer
      · intro info hsome
        rw [hnone] at hsome
        cases hsome
      · intro info hsome
        rw [hnone] at hsome
        cases hsome
    · obtain ⟨other, hother, hothers, hdescribe⟩ := heligible release info hleads
      refine ⟨iff_of_false ?_ fun hnot => hnot other hother hothers, ?_, ?_,
        fun shuffled hperm => select_version_perm hperm⟩
      · rw [hsome]
        exact Option.some_ne_none info
      · intro info' hsome'
        obtain rfl := Option.some.inj (hsome.symm.trans hsome')
        exact ⟨other, hother, hothers, hdescribe⟩
      · rintro info' hsome' rival hrival ⟨offer, hoffer, -⟩ version hversion
        obtain rfl := Option.some.inj (hsome.symm.trans hsome')
        obtain rfl := Option.some.inj
          (hversion.symm.trans (versionFromTag_of_describe hoffer.1))
        exact hleads.le hrival hoffer

end Channel

/-! ### A pre-release under a plain tag -/

def digits (text : List Char) : Option Nat :=
  if text ≠ [] ∧ text.all Char.isDigit then
    some (text.foldl (fun n c => 10 * n + (c.toNat - '0'.toNat)) 0)
  else none

/-- The versions `MAJOR.MINOR.PATCH`, compared number by number. -/
def plainSemver : Semver (ℕ ×ₗ ℕ ×ₗ ℕ) where
  parse := fun text =>
    match text.toList.splitOn '.' with
    | [major, minor, patch] => do
        return toLex (← digits major, toLex (← digits minor, ← digits patch))
    | _ => none
  preIsEmpty := fun _ => true

def linuxBinary : Asset := ⟨"ant-node-x86_64-linux", "https://example.com/beta"⟩

def linuxSignature : Asset := ⟨"ant-node-x86_64-linux.sig", "https://example.com/beta.sig"⟩

/-- A release with the plain tag of version 1.1.0 that is flagged as a pre-release. -/
def flaggedRelease : GitHubRelease := ⟨"v1.1.0", "beta", true, [linuxBinary, linuxSignature]⟩

/-- It is installed on the stable channel. -/
theorem flaggedRelease_selected :
    (selectUpgradeFromReleases plainSemver ⟨"x86_64", "linux"⟩ [flaggedRelease]
      (toLex (1, toLex (0, 0))) .stable).isSome ∧
    ¬ChannelMaximum plainSemver ⟨"x86_64", "linux"⟩ (toLex (1, toLex (0, 0))) .stable
      [flaggedRelease] := by
  have hselected : (selectUpgradeFromReleases plainSemver ⟨"x86_64", "linux"⟩ [flaggedRelease]
      (toLex (1, toLex (0, 0))) .stable).isSome := by
    decide +kernel
  refine ⟨hselected, fun hmaximum => ?_⟩
  obtain ⟨info, hinfo⟩ := Option.isSome_iff_exists.mp hselected
  obtain ⟨release, hrelease, ⟨-, -, hflag⟩, -⟩ := hmaximum.eligible info hinfo
  obtain rfl := List.mem_singleton.mp hrelease
  exact absurd (hflag rfl) (by decide)

end AntNode.Monitor
