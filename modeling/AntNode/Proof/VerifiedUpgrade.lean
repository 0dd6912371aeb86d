import AntNode.Proof.UpgradeEffects

/-!
# Where the binary of an upgrade comes from

Whatever others do to the shared directory, the archive that is extracted is one in the process's
own directory, and its bytes passed verification right before. What is done after that reads nothing
from the shared directory, but a download is stored there, and a store that writes through a link to
the extracted binary takes its place.
-/

namespace AntNode

open Script

/-- A write of `store_archive`. -/
def Act.isStore : Act → Bool
  | .wroteCached _ file => file.isTemporary
  | _ => false

def Act.isRead : Act → Bool
  | .readCached _ => true
  | _ => false

namespace Session

/-- The acts added are all of a kind. -/
def Adds (kind : Act → Bool) (s s' : Session) : Prop :=
  ∃ acts, s'.acts = acts ++ s.acts ∧ ∀ act ∈ acts, kind act = true

instance (kind : Act → Bool) : Untimed (Adds kind) where
  refl _ := ⟨[], rfl, by simp⟩
  trans := by
    rintro s mid s' ⟨first, hfirst, hkind⟩ ⟨second, hsecond, hkind'⟩
    refine ⟨second ++ first, by rw [hsecond, hfirst, List.append_assoc], fun act hact => ?_⟩
    rcases List.mem_append.mp hact with hact | hact
    · exact hkind' act hact
    · exact hkind act hact
  of_idles hidles := ⟨[], hidles.1, by simp⟩

theorem adds_logs {kind : Act → Bool} {act : Act} (hact : kind act = true) : Logs (Adds kind) act :=
  fun _ => ⟨[act], rfl, by simp [hact]⟩

theorem adds_puts {kind : Act → Bool} {file : StagedFile} {content : StagedContent} :
    Puts (Adds kind) file content :=
  fun _ => ⟨[], rfl, by simp⟩

theorem adds_drops {kind : Act → Bool} (file : StagedFile) : Drops (Adds kind) file :=
  fun _ => ⟨[], rfl, by simp⟩

end Session

namespace UpgradeEnv

open Session

variable {env : UpgradeEnv} {source : UpgradeSource} {ε : Type} {s s' : Session}

/-! ### Up to the extraction nothing is stored -/

theorem adds_getVerifiedArchive : Goes (Adds fun act => !act.isStore) env.getVerifiedArchive :=
  goes_getVerifiedArchive (fun _ => adds_logs rfl) (fun _ => adds_logs rfl) adds_drops
    (fun _ _ _ _ _ _ => adds_puts) fun _ => adds_puts

theorem adds_acquireDownloadLock : Goes (Adds fun act => !act.isStore) env.acquireDownloadLock := by
  refine goes_acquireDownloadLock (goes_writeCached (fun _ => adds_logs rfl) ?_)
  intro _ target bytes _
  cases target with
  | staged file => exact adds_puts
  | cache file => exact Goes.pure ()
  | elsewhere path => exact Goes.pure ()

theorem adds_extractBinary (archivePath : StagedFile) :
    Goes (Adds fun act => !act.isStore) (env.extractBinary archivePath) := by
  refine goes_extractBinary (fun f hf => ?_) fun _ => adds_puts
  exact ((goes_readStaged archivePath).mapError _).bind fun bytes => hf bytes (adds_logs rfl)

theorem adds_download (url : String) (dest : StagedFile) :
    Goes (Adds fun act => !act.isStore) (env.download url dest) :=
  goes_download fun _ _ _ _ _ => adds_puts

/-! ### What a success tells -/

theorem staged_of_readStaged {file : StagedFile} {bytes : Bytes}
    (hrun : env.readStaged file s = (.ok bytes, s')) :
    (s.staged file).map StagedContent.bytes = some bytes := by
  obtain ⟨_, mid, hsyscall, hrun⟩ := bind_eq_ok.mp hrun
  rw [look_bind] at hrun
  rw [← ((goes_syscall (R := Idles)).of_eq hsyscall).2]
  cases hstaged : mid.staged file with
  | none =>
      rw [hstaged] at hrun
      exact absurd hrun fail_ne_ok
  | some content =>
      rw [hstaged] at hrun
      rw [Option.map_some, (pure_eq_ok.mp hrun).1]

theorem staged_of_writeStaged {file : StagedFile} {bytes : Bytes} {extractedFrom : Option Bytes}
    {u : Unit} (hrun : env.writeStaged file bytes extractedFrom s = (.ok u, s')) :
    s'.staged file = some ⟨bytes, extractedFrom⟩ ∧ s'.acts = s.acts := by
  rw [writeStaged, moment_bind] at hrun
  cases hfault : (env.world s.now).fault with
  | none =>
      rw [hfault] at hrun
      obtain rfl := update_eq_ok.mp hrun
      exact ⟨Function.update_self .., rfl⟩
  | some fault =>
      rw [hfault] at hrun
      cases fault with
      | before e => exact absurd hrun fail_ne_ok
      | midway e written =>
          obtain ⟨_, _, -, hfail⟩ := bind_eq_ok.mp hrun
          exact absurd hfail fail_ne_ok

theorem verified_of_verifyFromFile {archivePath signaturePath : StagedFile} {u : Unit}
    (hrun : env.verifyFromFile archivePath signaturePath s = (.ok u, s')) :
    ∃ archive, (s.staged archivePath).map StagedContent.bytes = some archive ∧
      s'.staged = s.staged ∧ s'.acts = .verified archivePath archive :: s.acts ∧
      ∃ sig, env.tools.verifyWithContext archive sig = .ok () := by
  obtain ⟨sig, mid, hsig, hrun⟩ := bind_eq_ok.mp hrun
  obtain ⟨archive, mid', harchive, hrun⟩ := bind_eq_ok.mp hrun
  rw [mapError_eq_ok] at hsig harchive
  obtain ⟨hacts, hstaged⟩ := (goes_readStaged (R := Idles) signaturePath).of_eq hsig
  obtain ⟨hacts', hstaged'⟩ := (goes_readStaged (R := Idles) archivePath).of_eq harchive
  have hbytes := staged_of_readStaged harchive
  rw [hstaged] at hbytes
  split at hrun
  · exact absurd hrun fail_ne_ok
  · obtain ⟨⟨⟩, last, hverify, hrun⟩ := bind_eq_ok.mp hrun
    obtain ⟨hvalid, rfl⟩ := ofExcept_eq_ok.mp (mapError_eq_ok.mp hverify)
    obtain rfl := update_eq_ok.mp hrun
    exact ⟨archive, hbytes, hstaged'.trans hstaged, by rw [hacts', hacts], sig, hvalid⟩

theorem verified_of_orCleanup {archivePath signaturePath : StagedFile} {u : Unit}
    (hrun : env.orCleanup (env.verifyFromFile archivePath signaturePath) s = (.ok u, s')) :
    env.verifyFromFile archivePath signaturePath s = (.ok u, s') := by
  obtain ⟨result, mid, hattempt, hrun⟩ := bind_eq_ok.mp hrun
  have hresult := attempt_eq_ok.mp hattempt
  cases result with
  | ok a =>
      obtain ⟨rfl, rfl⟩ := pure_eq_ok.mp hrun
      exact hresult
  | error e =>
      obtain ⟨_, _, -, hfail⟩ := bind_eq_ok.mp hrun
      exact absurd hfail fail_ne_ok

theorem verified_of_getVerifiedArchive {archivePath : StagedFile}
    (hrun : env.getVerifiedArchive s = (.ok archivePath, s')) :
    archivePath = .cachedArchive ∧ ∃ archive earlier,
      (s'.staged archivePath).map StagedContent.bytes = some archive ∧
      s'.acts = .verified archivePath archive :: earlier ∧
      ∃ sig, env.tools.verifyWithContext archive sig = .ok () := by
  obtain ⟨⟨metaFile, _⟩, _, -, hrun⟩ := bind_eq_ok.mp hrun
  obtain ⟨metaData, _, -, hrun⟩ := bind_eq_ok.mp hrun
  cases hmeta : env.tools.metaFromStr metaData with
  | none =>
      rw [hmeta] at hrun
      exact absurd hrun fail_ne_ok
  | some cached =>
      rw [hmeta] at hrun
      dsimp only at hrun
      split at hrun
      · exact absurd hrun fail_ne_ok
      obtain ⟨⟨archiveFile, archiveLen⟩, _, -, hrun⟩ := bind_eq_ok.mp hrun
      obtain ⟨⟨sigFile, sigLen⟩, _, -, hrun⟩ := bind_eq_ok.mp hrun
      dsimp only at hrun
      split at hrun
      · exact absurd hrun fail_ne_ok
      obtain ⟨_, _, -, hrun⟩ := bind_eq_ok.mp hrun
      obtain ⟨_, _, -, hrun⟩ := bind_eq_ok.mp hrun
      obtain ⟨actualHash, mid, -, hrun⟩ := bind_eq_ok.mp hrun
      split at hrun
      · obtain ⟨_, _, -, hfail⟩ := bind_eq_ok.mp hrun
        exact absurd hfail fail_ne_ok
      obtain ⟨_, last, hverify, hrun⟩ := bind_eq_ok.mp hrun
      obtain ⟨rfl, rfl⟩ := pure_eq_ok.mp hrun
      obtain ⟨archive, hbytes, hstaged, hacts, hvalid⟩ :=
        verified_of_verifyFromFile (verified_of_orCleanup hverify)
      rw [← hstaged] at hbytes
      exact ⟨rfl, archive, mid.acts, hbytes, hacts, hvalid⟩

theorem extracted_of_extractBinary {archivePath path : StagedFile}
    (hrun : env.extractBinary archivePath s = (.ok path, s')) :
    path = .binary ∧ ∃ archive entry,
      (s.staged archivePath).map StagedContent.bytes = some archive ∧
      env.tools.binaryIn archive = .ok entry ∧
      s'.staged .binary = some ⟨entry.data, some archive⟩ ∧
      s'.acts = .extracted archivePath archive :: s.acts := by
  obtain ⟨archive, mid, hread, hrun⟩ := bind_eq_ok.mp hrun
  obtain ⟨entry, mid', hentry, hrun⟩ := bind_eq_ok.mp hrun
  obtain ⟨hfound, rfl⟩ := ofExcept_eq_ok.mp hentry
  rw [mapError_eq_ok] at hread
  obtain ⟨hacts, -⟩ := (goes_readStaged (R := Idles) archivePath).of_eq hread
  cases hfailure : entry.failure with
  | some e =>
      rw [hfailure] at hrun
      obtain ⟨_, _, -, hfail⟩ := bind_eq_ok.mp hrun
      exact absurd hfail fail_ne_ok
  | none =>
      rw [hfailure] at hrun
      obtain ⟨_, written, hwrite, hrun⟩ := bind_eq_ok.mp hrun
      obtain ⟨_, permitted, hpermissions, hrun⟩ := bind_eq_ok.mp hrun
      obtain ⟨_, logged, hlog, hrun⟩ := bind_eq_ok.mp hrun
      obtain ⟨rfl, rfl⟩ := pure_eq_ok.mp hrun
      obtain rfl := update_eq_ok.mp hlog
      rw [mapError_eq_ok] at hwrite hpermissions
      obtain ⟨hcontent, hwritten⟩ := staged_of_writeStaged hwrite
      obtain ⟨hidle, hkept⟩ := (goes_syscall (R := Idles)).of_eq hpermissions
      refine ⟨rfl, archive, entry, staged_of_readStaged hread, hfound, ?_, ?_⟩
      · exact (congrFun hkept _).trans hcontent
      · rw [hidle, hwritten, hacts]

/-! ### Storing the archive -/

/-- No write of `store_archive` went through a link to the extracted binary. -/
def Missed (env : UpgradeEnv) (acts : List Act) : Prop :=
  ∀ now file, .wroteCached now file ∈ acts → file.isTemporary = true →
    follow (env.world now).entry maxSymlinks (.cache file) ≠ some (.staged .binary)

/-- What storing does: it reads nothing from the shared directory, and it leaves the binary unless
one of its writes reaches it. -/
def Stores (env : UpgradeEnv) (s s' : Session) : Prop :=
  ∃ acts, s'.acts = acts ++ s.acts ∧ (∀ act ∈ acts, act.isRead = false) ∧
    (env.Missed acts ∧ s'.staged .binary = s.staged .binary ∨
      ¬ env.Missed acts ∧ ∀ content, s'.staged .binary = some content →
        content.extractedFrom = none)

theorem missed_append {first second : List Act} :
    env.Missed (first ++ second) ↔ env.Missed first ∧ env.Missed second := by
  simp only [Missed, List.mem_append, or_imp, forall_and]

instance : Untimed env.Stores where
  refl _ := ⟨[], rfl, by simp, .inl ⟨by simp [Missed], rfl⟩⟩
  trans := by
    rintro s mid s' ⟨first, hfirst, hreads, hbinary⟩ ⟨second, hsecond, hreads', hbinary'⟩
    refine ⟨second ++ first, by rw [hsecond, hfirst, List.append_assoc], ?_, ?_⟩
    · intro act hact
      rcases List.mem_append.mp hact with hact | hact
      · exact hreads' act hact
      · exact hreads act hact
    · rw [missed_append]
      rcases hbinary' with ⟨hmissed', hkept'⟩ | ⟨hhit', hlost'⟩
      · rcases hbinary with ⟨hmissed, hkept⟩ | ⟨hhit, hlost⟩
        · exact .inl ⟨⟨hmissed', hmissed⟩, hkept'.trans hkept⟩
        · refine .inr ⟨fun hboth => hhit hboth.2, fun content hcontent => ?_⟩
          exact hlost content (hkept' ▸ hcontent)
      · exact .inr ⟨fun hboth => hhit' hboth.1, hlost'⟩
  of_idles hidles := ⟨[], hidles.1, by simp, .inl ⟨by simp [Missed], congrFun hidles.2 _⟩⟩

theorem stores_verified (file : StagedFile) (bytes : Bytes) :
    Logs env.Stores (.verified file bytes) :=
  fun _ => ⟨[_], rfl, by simp [Act.isRead], .inl ⟨by simp [Missed], rfl⟩⟩

/-- A write leaves its act, and the binary is lost if that is where it leads. -/
theorem stores_wrote {file : CacheFile} (htemporary : file.isTemporary = true) {target : Place}
    (htarget : follow (env.world s.now).entry maxSymlinks (.cache file) = some target)
    (bytes : Bytes) (now : Nat) :
    env.Stores s ((writeThrough target bytes : Script Session ε Unit)
      ⟨now, s.staged, .wroteCached s.now file :: s.acts⟩).2 := by
  have hmissed : env.Missed [.wroteCached s.now file] ↔ target ≠ .staged .binary := by
    simp [Missed, htemporary, htarget]
  have hread : ∀ act ∈ [Act.wroteCached s.now file], act.isRead = false := by simp [Act.isRead]
  cases target with
  | cache other => exact ⟨[_], rfl, hread, .inl ⟨hmissed.mpr (by simp), rfl⟩⟩
  | elsewhere path => exact ⟨[_], rfl, hread, .inl ⟨hmissed.mpr (by simp), rfl⟩⟩
  | staged staged =>
      by_cases hbinary : staged = .binary
      · refine ⟨[_], rfl, hread, .inr ⟨by simp [hmissed, hbinary], fun content hcontent => ?_⟩⟩
        have hwritten : Function.update s.staged staged (some ⟨bytes, none⟩) .binary
            = some content := hcontent
        rw [hbinary, Function.update_self] at hwritten
        rw [← Option.some.inj hwritten]
      · refine ⟨[_], rfl, hread, .inl ⟨hmissed.mpr (by simp [hbinary]), ?_⟩⟩
        exact Function.update_of_ne (Ne.symm hbinary) _ _

theorem writeThrough_bind {α : Type} (target : Place) (bytes : Bytes) (x : Script Session ε α) :
    (writeThrough target bytes >>= fun _ => x) s
      = x ((writeThrough target bytes : Script Session ε Unit) s).2 := by
  cases target <;> rfl

theorem stores_writeCached {file : CacheFile} (htemporary : file.isTemporary = true)
    (bytes : Place → Bytes) : Goes env.Stores (env.writeCached file bytes) := by
  intro s
  have htick : env.Stores s { s with now := s.now + 1 } := Untimed.of_idles ⟨rfl, rfl⟩
  have hwrote : ∀ (fault : Option Fault) (target : Place),
      follow (env.world s.now).entry maxSymlinks (.cache file) = some target →
      env.Stores s ((do
        log (.wroteCached s.now file)
        writeThrough target (writtenBytes (bytes target) fault)
        outcome fault : Script Session String Unit) { s with now := s.now + 1 }).2 := by
    intro fault target htarget
    have hwrote := stores_wrote (ε := String) htemporary htarget
      (writtenBytes (bytes target) fault) (s.now + 1)
    rw [log, update_bind, writeThrough_bind]
    exact IsTrans.trans _ _ _ hwrote (goes_outcome fault _)
  rw [writeCached, look_bind, moment_bind]
  cases htarget : follow (env.world s.now).entry maxSymlinks (.cache file) with
  | none =>
      cases hfault : (env.world s.now).fault with
      | none => exact htick
      | some fault => cases fault <;> exact htick
  | some target =>
      cases hfault : (env.world s.now).fault with
      | none => exact hwrote none target htarget
      | some fault =>
          cases fault with
          | before e => exact htick
          | midway e written => exact hwrote (some (.midway e written)) target htarget

theorem stores_storeArchive (archivePath signaturePath : StagedFile) :
    Goes env.Stores (env.storeArchive archivePath signaturePath) :=
  goes_storeArchive (fun _ bytes htemporary => stores_writeCached htemporary bytes)
    (stores_verified archivePath) signaturePath

/-! ### The binary -/

/-- The last two acts verified an archive in the process's own directory and extracted it. -/
def Extracted (env : UpgradeEnv) (s : Session) : Prop :=
  ∃ archivePath archive entry earlier,
    s.acts = .extracted archivePath archive :: .verified archivePath archive :: earlier ∧
    (∃ sig, env.tools.verifyWithContext archive sig = .ok ()) ∧
    env.tools.binaryIn archive = .ok entry ∧
    s.staged .binary = some ⟨entry.data, some archive⟩

/-- The binary was extracted from an archive in the process's own directory that had passed
verification, is as it was extracted, and nothing was read from the shared directory since. -/
def FromVerified (env : UpgradeEnv) (path : StagedFile) (s : Session) : Prop :=
  ∃ later archivePath archive entry earlier,
    s.acts = later ++ .extracted archivePath archive :: .verified archivePath archive :: earlier ∧
    (∀ act ∈ later, act.isRead = false) ∧
    (∃ sig, env.tools.verifyWithContext archive sig = .ok ()) ∧
    env.tools.binaryIn archive = .ok entry ∧
    s.staged path = some ⟨entry.data, some archive⟩

theorem extracted_of_verified {archivePath path : StagedFile} {archive : Bytes}
    {earlier : List Act} (hacts : s.acts = .verified archivePath archive :: earlier)
    (hstaged : (s.staged archivePath).map StagedContent.bytes = some archive)
    (hvalid : ∃ sig, env.tools.verifyWithContext archive sig = .ok ())
    (hrun : env.extractBinary archivePath s = (.ok path, s')) :
    path = .binary ∧ env.Extracted s' := by
  obtain ⟨rfl, archive', entry, hstaged', hentry, hbinary, hacts'⟩ :=
    extracted_of_extractBinary hrun
  obtain rfl := Option.some.inj (hstaged.symm.trans hstaged')
  exact ⟨rfl, archivePath, archive, entry, earlier, by rw [hacts', hacts], hvalid, hentry, hbinary⟩

theorem extracted_of_downloadVerifyExtract {cache : Bool} {path : StagedFile}
    (hrun : env.downloadVerifyExtract source cache s = (.ok path, s')) :
    path = .binary ∧ ∃ mid, Adds (fun act => !act.isStore) s mid ∧ env.Extracted mid ∧
      env.Stores mid s' := by
  obtain ⟨_, first, hdownload, hrun⟩ := bind_eq_ok.mp hrun
  obtain ⟨_, second, hsignature, hrun⟩ := bind_eq_ok.mp hrun
  obtain ⟨_, checked, hverify, hrun⟩ := bind_eq_ok.mp hrun
  obtain ⟨extractedBinary, mid, hextract, hrun⟩ := bind_eq_ok.mp hrun
  have hquiet : Adds (fun act => !act.isStore) s mid := calc
    Adds (fun act => !act.isStore) s first := (adds_download _ _).of_eq hdownload
    Adds (fun act => !act.isStore) _ second := (adds_download _ _).of_eq hsignature
    Adds (fun act => !act.isStore) _ checked :=
      (goes_verifyFromFile (fun _ => adds_logs rfl) _).of_eq hverify
    Adds (fun act => !act.isStore) _ mid := (adds_extractBinary _).of_eq hextract
  obtain ⟨archive, hbytes, hstaged, hacts, hvalid⟩ := verified_of_verifyFromFile hverify
  rw [← hstaged] at hbytes
  obtain ⟨rfl, hextracted⟩ := extracted_of_verified hacts hbytes hvalid hextract
  cases cache with
  | false =>
      obtain ⟨rfl, rfl⟩ := pure_eq_ok.mp hrun
      exact ⟨rfl, mid, hquiet, hextracted, refl mid⟩
  | true =>
      obtain ⟨result, stored, hstore, hrun⟩ := bind_eq_ok.mp hrun
      obtain ⟨rfl, rfl⟩ := pure_eq_ok.mp hrun
      exact ⟨rfl, mid, hquiet, hextracted, (stores_storeArchive _ _).attempt.of_eq hstore⟩

/-- A cached archive that verifies is extracted, or a download takes its place. -/
theorem extracted_of_cached {archivePath path : StagedFile} {mid : Session}
    (hcached : env.getVerifiedArchive s = (.ok archivePath, mid))
    (hrun : (do
      match ← attempt (env.extractBinary archivePath) with
      | .ok extracted => pure extracted
      | .error _ => env.downloadVerifyExtract source true : Script Session UpgradeError StagedFile)
      mid = (.ok path, s')) :
    path = .binary ∧ ∃ last, Adds (fun act => !act.isStore) s last ∧ env.Extracted last ∧
      env.Stores last s' := by
  have hquiet := adds_getVerifiedArchive.of_eq hcached
  obtain ⟨-, archive, earlier, hbytes, hacts, hvalid⟩ := verified_of_getVerifiedArchive hcached
  obtain ⟨result, last, hattempt, hrun⟩ := bind_eq_ok.mp hrun
  have hextract := attempt_eq_ok.mp hattempt
  have hquiet' := IsTrans.trans _ _ _ hquiet ((adds_extractBinary archivePath).of_eq hextract)
  cases result with
  | ok extracted =>
      obtain ⟨rfl, rfl⟩ := pure_eq_ok.mp hrun
      obtain ⟨rfl, hextracted⟩ := extracted_of_verified hacts hbytes hvalid hextract
      exact ⟨rfl, last, hquiet', hextracted, refl last⟩
  | error e =>
      obtain ⟨rfl, final, hadds, hextracted, hstores⟩ := extracted_of_downloadVerifyExtract hrun
      exact ⟨rfl, final, IsTrans.trans _ _ _ hquiet' hadds, hextracted, hstores⟩

/-- On each of its paths the call extracts what it has just verified, and stores at most. -/
theorem extracted_of_resolveUpgradeBinary {cache : Bool} {path : StagedFile}
    (hrun : env.resolveUpgradeBinary source cache s = (.ok path, s')) :
    path = .binary ∧ ∃ mid, Adds (fun act => !act.isStore) s mid ∧ env.Extracted mid ∧
      env.Stores mid s' := by
  cases cache with
  | false => exact extracted_of_downloadVerifyExtract hrun
  | true =>
      obtain ⟨result, first, hattempt, hrun⟩ := bind_eq_ok.mp hrun
      have hcached := attempt_eq_ok.mp hattempt
      cases result with
      | ok archivePath => exact extracted_of_cached hcached hrun
      | error _ =>
          obtain ⟨_, joined, htask, hrun⟩ := bind_eq_ok.mp hrun
          obtain ⟨_, locked, hlock, hrun⟩ := bind_eq_ok.mp hrun
          obtain ⟨result, second, hattempt, hrun⟩ := bind_eq_ok.mp hrun
          have hagain := attempt_eq_ok.mp hattempt
          have hquiet : Adds (fun act => !act.isStore) s locked := calc
            Adds (fun act => !act.isStore) s first :=
              adds_getVerifiedArchive.of_eq hcached
            Adds (fun act => !act.isStore) _ joined :=
              (goes_syscall.mapError _).of_eq htask
            Adds (fun act => !act.isStore) _ locked :=
              adds_acquireDownloadLock.of_eq hlock
          cases result with
          | ok archivePath =>
              obtain ⟨rfl, mid, hadds, hextracted, hstores⟩ := extracted_of_cached hagain hrun
              exact ⟨rfl, mid, IsTrans.trans _ _ _ hquiet hadds, hextracted, hstores⟩
          | error _ =>
              obtain ⟨rfl, mid, hadds, hextracted, hstores⟩ :=
                extracted_of_downloadVerifyExtract hrun
              have hmissed := adds_getVerifiedArchive.of_eq hagain
              exact ⟨rfl, mid, IsTrans.trans _ _ _ (IsTrans.trans _ _ _ hquiet hmissed) hadds,
                hextracted, hstores⟩

theorem missed_of_adds (hadds : Adds (fun act => !act.isStore) s s') (hnone : s.acts = []) :
    env.Missed s'.acts := by
  obtain ⟨acts, hacts, hkind⟩ := hadds
  rw [hacts, hnone, List.append_nil]
  intro now file hwrote htemporary
  have hstore := hkind _ hwrote
  simp [Act.isStore, htemporary] at hstore

theorem fromVerified_of_missed {cache : Bool} {path : StagedFile}
    (hrun : env.resolveUpgradeBinary source cache s = (.ok path, s'))
    (hmissed : env.Missed s'.acts) :
    env.FromVerified path s' := by
  obtain ⟨rfl, mid, hadds, hextracted, acts, hacts, hreads, hbinary⟩ :=
    extracted_of_resolveUpgradeBinary hrun
  obtain ⟨archivePath, archive, entry, earlier, hmid, hvalid, hentry, hstaged⟩ := hextracted
  rw [hacts, missed_append] at hmissed
  rcases hbinary with ⟨-, hkept⟩ | ⟨hhit, -⟩
  · exact ⟨acts, archivePath, archive, entry, earlier, by rw [hacts, hmid], hreads, hvalid, hentry,
      hkept.trans hstaged⟩
  · exact absurd hmissed.1 hhit

/-- **The binary of an upgrade comes from bytes that passed verification** in the same call, on
every path and against any changes to the shared directory, exactly when no write of
`store_archive` goes through a link to it. -/
theorem resolveUpgradeBinary_fromVerified_iff {cache : Bool} {path : StagedFile}
    (hstart : s.acts = []) (hrun : env.resolveUpgradeBinary source cache s = (.ok path, s')) :
    env.FromVerified path s' ↔ env.Missed s'.acts := by
  refine ⟨?_, fromVerified_of_missed hrun⟩
  rintro ⟨-, -, archive, entry, -, -, -, -, -, hkept⟩
  obtain ⟨rfl, mid, hadds, -, acts, hacts, -, hbinary⟩ := extracted_of_resolveUpgradeBinary hrun
  rw [hacts, missed_append]
  rcases hbinary with ⟨hmissed, -⟩ | ⟨-, hlost⟩
  · exact ⟨hmissed, missed_of_adds hadds hstart⟩
  · cases hlost _ hkept

/-! ### A link in the shared directory -/

def smallArchive : Bytes := [0x1f, 0x8b, 7]

def smallTools : ReleaseTools where
  verifyWithContext archive _ :=
    if archive = smallArchive then .ok () else .error "Signature verification failed"
  sha256 archive := toString archive.length
  metaFromStr _ := none
  metaToString _ := .ok []
  entries _ archive := .ok [.ok ⟨some "ant-node", archive.drop 2, none⟩]

/-- A call that finds nothing in the cache and downloads, with the same names in the shared
directory at every step. -/
def smallEnv (entry : Place → Option Entry) : UpgradeEnv where
  tools := smallTools
  world _ :=
    { entry := entry
      opened := []
      fault := none
      response := fun url =>
        if url = "archive" then .body smallArchive else .body (List.replicate signatureSize 0)
      sinceEpoch := .ok 0 }
  version := "2.0.0"

def freshSession : Session := ⟨0, fun _ => none, []⟩

theorem resolveUpgradeBinary_fromVerified_iff_emptyCache :
    let env := smallEnv fun _ => none
    ∃ s', env.resolveUpgradeBinary ⟨"archive", "signature"⟩ true freshSession = (.ok .binary, s') ∧
      env.FromVerified .binary s' := by
  intro env
  have hok : (env.resolveUpgradeBinary ⟨"archive", "signature"⟩ true freshSession).1
      = .ok .binary := by decide +kernel
  have hmissed : ∀ acts, env.Missed acts := by
    intro acts now file _ _
    change follow (fun _ => none) maxSymlinks (.cache file) ≠ some (.staged .binary)
    simp [follow, maxSymlinks]
  obtain ⟨s', hrun, -⟩ := exists_run hok
  exact ⟨s', hrun, (resolveUpgradeBinary_fromVerified_iff rfl hrun).mpr (hmissed _)⟩

/-- **A planted link replaces the binary.** While the download runs, another principal plants a link
to the process's own `ant-node` under the name of the temporary archive. The store writes the
archive through it, and the call returns a path that no longer holds what was extracted. -/
theorem resolveUpgradeBinary_throughLink :
    let env := smallEnv fun place =>
      if place = .cache .archiveTmp then some (.symlink (.staged .binary)) else none
    ∃ s', env.resolveUpgradeBinary ⟨"archive", "signature"⟩ true freshSession = (.ok .binary, s') ∧
      s'.staged .binary = some ⟨smallArchive, none⟩ ∧ ¬ env.FromVerified .binary s' := by
  intro env
  have hok : (env.resolveUpgradeBinary ⟨"archive", "signature"⟩ true freshSession).1
      = .ok .binary := by decide +kernel
  have hbinary : (env.resolveUpgradeBinary ⟨"archive", "signature"⟩ true freshSession).2.staged
      .binary = some ⟨smallArchive, none⟩ := by decide +kernel
  obtain ⟨s', hrun, hstate⟩ := exists_run hok
  rw [hstate] at hbinary
  refine ⟨s', hrun, hbinary, ?_⟩
  rintro ⟨-, -, archive, entry, -, -, -, -, -, hkept⟩
  have hcontent := Option.some.inj (hbinary.symm.trans hkept)
  cases congrArg StagedContent.extractedFrom hcontent

end UpgradeEnv

end AntNode
