import AntNode.ApplyUpgrade
import AntNode.Proof.ArchiveSource

/-!
# What nodes that share one binary install

A replacement installs what its call extracted from an archive that had passed verification. A
signature does not say of which version the archive is, and a node compares the new version with its
own and not with the one on disk. So what is installed is the version the call was for, and the
version on disk does not fall, as long as every archive is of the version it is taken for and no
call puts a binary over a newer one.
-/

namespace AntNode

open Runs

variable {V P : Type} [LinearOrder V] [DecidableEq P]

def ApplyPhase.underway : ApplyPhase V → Bool
  | .starting => false
  | .done _ => false
  | _ => true

def ApplyPhase.binary? : ApplyPhase V → Option Bytes
  | .resolved extractedBinary => some extractedBinary
  | .checked extractedBinary => some extractedBinary
  | .backedUp extractedBinary => some extractedBinary
  | _ => none

namespace UpgradeSetting

variable {setting : UpgradeSetting V P} {host host' : UpgradeHost V P} {Q : P → Bytes → Prop}

/-- The archive is of version `v`. -/
def IsRelease (setting : UpgradeSetting V P) (v : V) (archive : Bytes) : Prop :=
  ∀ entry, setting.tools.binaryIn archive = .ok entry → setting.reported entry.data = some v

/-- The bytes are the binary of an archive that verifies. -/
def IsVerified (setting : UpgradeSetting V P) (bytes : Bytes) : Prop :=
  ∃ archive entry, (∃ sig, setting.tools.verifyWithContext archive sig = .ok ()) ∧
    setting.tools.binaryIn archive = .ok entry ∧ entry.data = bytes

/-- The calls underway are upgrades, and what they extracted is as `Q` says. -/
structure Stages (setting : UpgradeSetting V P) (Q : P → Bytes → Prop) (host : UpgradeHost V P) :
    Prop where
  newer : ∀ p, (host.phase p).underway = true →
    (setting.calls p).currentVersion < (setting.calls p).info.version
  binaries : ∀ p bytes, (host.phase p).binary? = some bytes → Q p bytes

/-! ### Steps -/

theorem Stages.setPhase (hstages : Stages setting Q host) {p : P} {phase : ApplyPhase V}
    (hnewer : phase.underway = true →
      (setting.calls p).currentVersion < (setting.calls p).info.version)
    (hbinary : ∀ bytes, phase.binary? = some bytes → Q p bytes) (disk : Bytes)
    (backup : Option Bytes) :
    Stages setting Q
      { UpgradeSetting.setPhase host p phase with disk := disk, backup := backup } := by
  constructor
  · intro q hunderway
    by_cases hq : q = p
    · subst hq
      exact hnewer (by simpa [UpgradeSetting.setPhase] using hunderway)
    · exact hstages.newer q (by simpa [UpgradeSetting.setPhase, hq] using hunderway)
  · intro q bytes hbytes
    by_cases hq : q = p
    · subst hq
      exact hbinary bytes (by simpa [UpgradeSetting.setPhase] using hbytes)
    · exact hstages.binaries q bytes (by simpa [UpgradeSetting.setPhase, hq] using hbytes)

theorem Stages.finish (hstages : Stages setting Q host) (p : P) (result : UpgradeResult V)
    (disk : Bytes) (backup : Option Bytes) :
    Stages setting Q
      { UpgradeSetting.setPhase host p (.done result) with disk := disk, backup := backup } :=
  hstages.setPhase (fun hunderway => by cases hunderway) (fun _ hbytes => by cases hbytes) disk
    backup

/-- A call goes on with the binary it has. -/
theorem Stages.carry (hstages : Stages setting Q host) {p : P} {phase : ApplyPhase V}
    (hunderway : (host.phase p).underway = true)
    (hbinary : ∀ bytes, phase.binary? = some bytes → (host.phase p).binary? = some bytes)
    (disk : Bytes) (backup : Option Bytes) :
    Stages setting Q
      { UpgradeSetting.setPhase host p phase with disk := disk, backup := backup } :=
  hstages.setPhase (fun _ => hstages.newer p hunderway)
    (fun bytes hbytes => hstages.binaries p bytes (hbinary bytes hbytes)) disk backup

/-- What a resolve step yields of its call. -/
def Yields (setting : UpgradeSetting V P) (Q : P → Bytes → Prop) : ApplyEvent P → Prop
  | .resolve p world => ∀ path s content, setting.resolveRun p world = (.ok path, s) →
      s.staged path = some content → Q p content.bytes
  | _ => True

omit [LinearOrder V] in
theorem binary_resolvedPhase {outcome : Except UpgradeError StagedFile × Session} {bytes : Bytes}
    (hbytes : (resolvedPhase outcome : ApplyPhase V).binary? = some bytes) :
    ∃ path s content, outcome = (.ok path, s) ∧ s.staged path = some content ∧
      content.bytes = bytes := by
  obtain ⟨e | path, s⟩ := outcome
  · cases hbytes
  · rw [resolvedPhase] at hbytes
    cases hcontent : s.staged path with
    | none =>
        rw [hcontent] at hbytes
        cases hbytes
    | some content =>
        rw [hcontent] at hbytes
        exact ⟨path, s, content, rfl, hcontent, Option.some.inj hbytes⟩

theorem stages_step {event : ApplyEvent P} (hstages : Stages setting Q host)
    (hyields : setting.Yields Q event) (hstep : setting.step host event = some host') :
    Stages setting Q host' := by
  cases event with
  | validate p fault =>
      simp only [step] at hstep
      split at hstep
      · split_ifs at hstep with hle
        · obtain rfl := Option.some.inj hstep
          exact hstages.finish p _ _ _
        · obtain rfl := Option.some.inj hstep
          cases fault with
          | none => exact hstages.setPhase (fun _ => not_le.mp hle) (fun _ h => by cases h) _ _
          | some e => exact hstages.finish p _ _ _
      · cases hstep
  | resolve p world =>
      simp only [step] at hstep
      split at hstep
      · rename_i hphase
        obtain rfl := Option.some.inj hstep
        refine hstages.setPhase (fun _ => hstages.newer p (by rw [hphase]; rfl)) ?_ _ _
        intro bytes hbytes
        obtain ⟨path, s, content, hrun, hcontent, rfl⟩ := binary_resolvedPhase hbytes
        exact hyields path s content hrun hcontent
      · cases hstep
  | onDiskVersion p answered =>
      simp only [step] at hstep
      split at hstep
      · rename_i extractedBinary hphase
        generalize (if answered = true then setting.reported host.disk else none) = found at hstep
        split at hstep
        · obtain rfl := Option.some.inj hstep
          exact hstages.finish p _ _ _
        · obtain rfl := Option.some.inj hstep
          exact hstages.carry (by rw [hphase]; rfl) (by rw [hphase]; exact fun _ h => h) _ _
      · cases hstep
  | createBackup p fault =>
      simp only [step] at hstep
      split at hstep
      · rename_i extractedBinary hphase
        obtain rfl := Option.some.inj hstep
        exact hstages.carry (by rw [hphase]; rfl) (by rw [hphase]; exact fun _ h => h) _ _
      · obtain rfl := Option.some.inj hstep
        exact hstages.finish p _ _ _
      · cases hstep
  | replaceBinary p fault =>
      simp only [step] at hstep
      split at hstep
      · obtain rfl := Option.some.inj hstep
        exact hstages.finish p _ _ _
      · rename_i hphase
        obtain rfl := Option.some.inj hstep
        exact hstages.carry (by rw [hphase]; rfl) (fun _ h => by cases h) _ _
      · cases hstep
  | rollback p fault =>
      simp only [step] at hstep
      split at hstep
      · obtain rfl := Option.some.inj hstep
        exact hstages.finish p _ _ _
      · obtain rfl := Option.some.inj hstep
        exact hstages.finish p _ _ _
      · cases hstep

/-- Where the file on disk comes from after a step. -/
def Leaves (host host' : UpgradeHost V P) : ApplyEvent P → Prop
  | .replaceBinary p none => host.phase p = .backedUp host'.disk
  | .rollback _ none => host.backup = some host'.disk
  | _ => host'.disk = host.disk

theorem leaves_step {event : ApplyEvent P} (hstep : setting.step host event = some host') :
    Leaves host host' event := by
  have hkept : ∀ {p phase}, some (setPhase host p phase) = some host' → host'.disk = host.disk := by
    intro p phase hsome
    rw [← Option.some.inj hsome]
    rfl
  cases event with
  | validate p fault =>
      simp only [step] at hstep
      split at hstep
      · split_ifs at hstep <;> exact hkept hstep
      · cases hstep
  | resolve p world =>
      simp only [step] at hstep
      split at hstep
      · exact hkept hstep
      · cases hstep
  | onDiskVersion p answered =>
      simp only [step] at hstep
      split at hstep
      · split_ifs at hstep <;> exact hkept hstep
      · cases hstep
  | createBackup p fault =>
      simp only [step] at hstep
      split at hstep
      · obtain rfl := Option.some.inj hstep
        rfl
      · exact hkept hstep
      · cases hstep
  | replaceBinary p fault =>
      simp only [step] at hstep
      split at hstep
      · rename_i extractedBinary hphase
        obtain rfl := Option.some.inj hstep
        exact hphase
      · exact hkept hstep
      · cases hstep
  | rollback p fault =>
      simp only [step] at hstep
      split at hstep
      · rename_i backup hphase hbackup
        obtain rfl := Option.some.inj hstep
        exact hbackup
      · exact hkept hstep
      · cases hstep

/-! ### What a call extracts -/

/-- The cache holds files and no links. -/
def PlainCache (setting : UpgradeSetting V P) : ApplyEvent P → Prop
  | .resolve p world => (setting.env p world).Plain
  | _ => True

/-- Every signed archive that stands in the cache under the version of the call, or that is
downloaded for it, is of that version. -/
def Genuine (setting : UpgradeSetting V P) : ApplyEvent P → Prop
  | .resolve p world => ∀ archive sig,
      (setting.env p world).Offers (setting.calls p).info.source archive →
      setting.tools.verifyWithContext archive sig = .ok () →
      setting.IsRelease (setting.calls p).info.version archive
  | _ => True

omit [LinearOrder V] [DecidableEq P] in
theorem yields_verified {event : ApplyEvent P} (hplain : setting.PlainCache event) :
    setting.Yields (fun _ => setting.IsVerified) event := by
  cases event with
  | resolve p world =>
      intro path s content hrun hcontent
      obtain ⟨archive, entry, -, hvalid, hentry, hdata⟩ :=
        UpgradeEnv.binary_of_resolveUpgradeBinary hplain UpgradeEnv.sourced_fresh hrun hcontent
      exact ⟨archive, entry, hvalid, hentry, hdata.symm⟩
  | _ => trivial

omit [LinearOrder V] [DecidableEq P] in
theorem yields_genuine {event : ApplyEvent P} (hplain : setting.PlainCache event)
    (hgenuine : setting.Genuine event) :
    setting.Yields (fun p bytes => setting.reported bytes = some (setting.calls p).info.version)
      event := by
  cases event with
  | resolve p world =>
      intro path s content hrun hcontent
      obtain ⟨archive, entry, hoffers, ⟨sig, hvalid⟩, hentry, hdata⟩ :=
        UpgradeEnv.binary_of_resolveUpgradeBinary hplain UpgradeEnv.sourced_fresh hrun hcontent
      rw [hdata]
      exact hgenuine archive sig hoffers hvalid entry hentry
  | _ => trivial

/-! ### Runs -/

theorem stages_run {disk : Bytes} {events : List (ApplyEvent P)}
    (hyields : ∀ event ∈ events, setting.Yields Q event)
    (hrun : run setting.step (start disk) events = some host) : Stages setting Q host := by
  have hstart : Stages setting Q (start disk) :=
    ⟨fun _ h => (by cases h), fun _ _ h => (by cases h)⟩
  exact invariant_of_run (fun _ _ _ hstages hyields hstep => stages_step hstages hyields hstep)
    hstart (along_of_forall fun event hevent _ => hyields event hevent) hrun

/-- Every replacement in the run puts a binary on disk of which `Q` holds. -/
def Replaces (setting : UpgradeSetting V P) (disk : Bytes) (events : List (ApplyEvent P))
    (Q : P → Bytes → Prop) : Prop :=
  ∀ before p after mid mid', events = before ++ .replaceBinary p none :: after →
    run setting.step (start disk) before = some mid →
    setting.step mid (.replaceBinary p none) = some mid' → Q p mid'.disk

theorem replaces_of_yields {disk : Bytes} {events : List (ApplyEvent P)}
    (hyields : ∀ event ∈ events, setting.Yields Q event) :
    setting.Replaces disk events fun p bytes =>
      (setting.calls p).currentVersion < (setting.calls p).info.version ∧ Q p bytes := by
  rintro before p after mid mid' rfl hbefore hstep
  have hstages : Stages setting Q mid :=
    stages_run (fun event hevent => hyields event (by simp [hevent])) hbefore
  have hphase : mid.phase p = .backedUp mid'.disk := leaves_step hstep
  exact ⟨hstages.newer p (by rw [hphase]; rfl), hstages.binaries p _ (by rw [hphase]; rfl)⟩

/-- The second binary is of no older version. -/
def NotOlder (setting : UpgradeSetting V P) (first second : Bytes) : Prop :=
  ∀ v, setting.reported first = some v → ∃ w, setting.reported second = some w ∧ v ≤ w

/-- No binary is put over a newer one. -/
def Orderly (setting : UpgradeSetting V P) (host : UpgradeHost V P) : ApplyEvent P → Prop
  | .replaceBinary p none =>
      ∀ v, setting.reported host.disk = some v → v ≤ (setting.calls p).info.version
  | .rollback _ none => ∀ backup, host.backup = some backup → setting.NotOlder host.disk backup
  | _ => True

instance (first second : Bytes) : Decidable (setting.NotOlder first second) :=
  inferInstanceAs (Decidable (∀ v ∈ setting.reported first,
    ∃ w, w ∈ setting.reported second ∧ v ≤ w))

instance (event : ApplyEvent P) : Decidable (setting.Orderly host event) :=
  match event with
  | .validate _ _ => .isTrue trivial
  | .resolve _ _ => .isTrue trivial
  | .onDiskVersion _ _ => .isTrue trivial
  | .createBackup _ _ => .isTrue trivial
  | .replaceBinary _ (some _) => .isTrue trivial
  | .replaceBinary p none => inferInstanceAs (Decidable (∀ v ∈ setting.reported host.disk,
      v ≤ (setting.calls p).info.version))
  | .rollback _ (some _) => .isTrue trivial
  | .rollback _ none => inferInstanceAs (Decidable (∀ backup ∈ host.backup,
      setting.NotOlder host.disk backup))

omit [DecidableEq P] in
theorem NotOlder.refl (bytes : Bytes) : setting.NotOlder bytes bytes :=
  fun v hv => ⟨v, hv, le_rfl⟩

omit [DecidableEq P] in
theorem NotOlder.trans {first second third : Bytes} (hfirst : setting.NotOlder first second)
    (hsecond : setting.NotOlder second third) : setting.NotOlder first third := by
  intro v hv
  obtain ⟨w, hw, hle⟩ := hfirst v hv
  obtain ⟨x, hx, hle'⟩ := hsecond w hw
  exact ⟨x, hx, hle.trans hle'⟩

theorem notOlder_step {event : ApplyEvent P}
    (hstages : Stages setting
      (fun p bytes => setting.reported bytes = some (setting.calls p).info.version) host)
    (horderly : setting.Orderly host event) (hstep : setting.step host event = some host') :
    setting.NotOlder host.disk host'.disk := by
  have hleaves := leaves_step hstep
  have hkept : host'.disk = host.disk → setting.NotOlder host.disk host'.disk := by
    intro hdisk
    rw [hdisk]
    exact NotOlder.refl _
  cases event with
  | validate p fault => exact hkept hleaves
  | resolve p world => exact hkept hleaves
  | onDiskVersion p answered => exact hkept hleaves
  | createBackup p fault => exact hkept hleaves
  | replaceBinary p fault =>
      cases fault with
      | some e => exact hkept hleaves
      | none =>
          have hphase : host.phase p = .backedUp host'.disk := hleaves
          intro v hv
          exact ⟨_, hstages.binaries p _ (by rw [hphase]; rfl), horderly v hv⟩
  | rollback p fault =>
      cases fault with
      | some e => exact hkept hleaves
      | none => exact horderly _ hleaves

theorem notOlder_run {events : List (ApplyEvent P)}
    (hstages : Stages setting
      (fun p bytes => setting.reported bytes = some (setting.calls p).info.version) host)
    (hyields : ∀ event ∈ events, setting.Yields
      (fun p bytes => setting.reported bytes = some (setting.calls p).info.version) event)
    (horderly : Along setting.step setting.Orderly host events)
    (hrun : run setting.step host events = some host') :
    setting.NotOlder host.disk host'.disk := by
  induction events generalizing host with
  | nil =>
      obtain rfl : host = host' := Option.some.inj hrun
      exact NotOlder.refl _
  | cons event events ih =>
      obtain ⟨mid, hmid, hrun⟩ := run_cons_eq_some.mp hrun
      have hnext := stages_step hstages (hyields event (by simp)) hmid
      have hrest := ih hnext (fun e he => hyields e (by simp [he])) (horderly.2 mid hmid) hrun
      exact (notOlder_step hstages horderly.1 hmid).trans hrest

def release (version : UInt8) : Bytes := [0x1f, 0x8b, version]

/-- Two nodes of version 11 that upgrade to 20. A binary is its version, and the releases 10 and 20
are signed. -/
def twoNodes : UpgradeSetting Nat Bool where
  calls _ := ⟨11, ⟨20, ⟨"archive", "signature"⟩⟩, true⟩
  tools :=
    { verifyWithContext := fun archive _ =>
        if archive = release 10 ∨ archive = release 20 then .ok ()
        else .error "Signature verification failed"
      sha256 := fun archive => toString archive.length
      metaFromStr := fun _ => some ⟨"20", "3", 0⟩
      metaToString := fun _ => .ok []
      entries := fun _ archive => .ok [.ok ⟨some "ant-node", archive.drop 2, none⟩] }
  versionString := toString
  reported binary := binary.head?.map UInt8.toNat

/-- The cache is empty, and the release that is downloaded is 20. -/
def emptyCache (_ : Nat) : Moment where
  entry _ := none
  opened := []
  fault := none
  response url :=
    if url = "archive" then .body (release 20) else .body (List.replicate signatureSize 0)
  sinceEpoch := .ok 0

/-- The cache holds the release 10 under the version 20. -/
def replayedCache (now : Nat) : Moment where
  entry _ := some .regular
  opened :=
    if now = 6 ∨ now = 11 then release 10
    else if now = 9 ∨ now = 13 then List.replicate signatureSize 0 else [0]
  fault := none
  response _ := .unsent "offline"
  sinceEpoch := .ok 0

def upgrade (p : Bool) (world : Nat → Moment) : List (ApplyEvent Bool) :=
  [.validate p none, .resolve p world, .onDiskVersion p true, .createBackup p none,
    .replaceBinary p none]

theorem genuine_emptyCache (p : Bool) : twoNodes.Genuine (.resolve p emptyCache) := by
  rintro archive sig ⟨now, hoffers⟩ hvalid entry hentry
  have hsigned : archive = release 10 ∨ archive = release 20 := by
    by_contra hunsigned
    simp [twoNodes, hunsigned] at hvalid
  have hprefix : archive <+: release 20 := by
    rcases hoffers with hempty | ⟨body, hbody, hprefix⟩
    · exact hempty.trans List.nil_prefix
    · exact HttpResponse.body.inj hbody ▸ hprefix
  rcases hsigned with rfl | rfl
  · exact absurd hprefix (by decide)
  · obtain rfl := Except.ok.inj hentry
    rfl

end UpgradeSetting

end AntNode
