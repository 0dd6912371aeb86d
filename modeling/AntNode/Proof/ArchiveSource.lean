import AntNode.Proof.VerifiedUpgrade

/-!
# Where the archive of an upgrade comes from

As long as the shared directory holds no links, whatever a call extracts is a file that stood there
under the name of its version when it was read, or the body of its download, or a part of one of
the two from the front.
-/

namespace AntNode

open Script

namespace UpgradeEnv

open Session

variable {env : UpgradeEnv} {source : UpgradeSource} {s s' : Session}

/-- No name outside the process's own directory is a link. -/
def Plain (env : UpgradeEnv) : Prop :=
  ∀ now place target, (env.world now).entry place ≠ some (.symlink target)

/-- What the shared directory and the download hold at some moment, as far as it was read. -/
def Offers (env : UpgradeEnv) (source : UpgradeSource) (bytes : Bytes) : Prop :=
  ∃ now, bytes <+: (env.world now).opened ∨
    ∃ body, (env.world now).response source.downloadUrl = .body body ∧ bytes <+: body

/-- The archives in the process's own directory were offered, and so was what it extracted. -/
structure Sourced (env : UpgradeEnv) (source : UpgradeSource) (s : Session) : Prop where
  staged : ∀ file content, file = .archive ∨ file = .cachedArchive → s.staged file = some content →
    env.Offers source content.bytes
  extracted : ∀ file archive, .extracted file archive ∈ s.acts → env.Offers source archive

instance : Untimed (Keeps (env.Sourced source)) where
  of_idles hidles hsourced := by
    constructor
    · rw [hidles.2]
      exact hsourced.staged
    · rw [hidles.1]
      exact hsourced.extracted

theorem sourced_fresh : env.Sourced source ⟨0, fun _ => none, []⟩ :=
  ⟨fun _ _ _ h => (by cases h), fun _ _ h => (by cases h)⟩

theorem follow_of_plain (hplain : env.Plain) (now : Nat) (file : CacheFile) :
    follow (env.world now).entry maxSymlinks (.cache file) = some (.cache file) := by
  rw [maxSymlinks, follow]
  · split
    · rename_i target htarget
      exact absurd htarget (hplain now _ target)
    · rfl
  · exact fun _ h => by cases h

/-! ### Steps -/

theorem sourced_logs {act : Act}
    (hact : ∀ file archive, act = .extracted file archive → env.Offers source archive) :
    Logs (Keeps (env.Sourced source)) act := by
  intro s hsourced
  refine ⟨hsourced.staged, fun file archive hmem => ?_⟩
  rcases List.mem_cons.mp hmem with heq | hmem
  · exact hact file archive heq.symm
  · exact hsourced.extracted file archive hmem

theorem sourced_puts {file : StagedFile} {content : StagedContent}
    (hoffers : file = .archive ∨ file = .cachedArchive → env.Offers source content.bytes) :
    Puts (Keeps (env.Sourced source)) file content := by
  intro s hsourced
  refine ⟨fun other held harchive hheld => ?_, hsourced.extracted⟩
  by_cases heq : other = file
  · subst heq
    have hheld : Function.update s.staged other (some content) other = some held := hheld
    rw [Function.update_self] at hheld
    obtain rfl := Option.some.inj hheld
    exact hoffers harchive
  · have hheld : Function.update s.staged file (some content) other = some held := hheld
    rw [Function.update_of_ne heq] at hheld
    exact hsourced.staged other held harchive hheld

theorem sourced_drops (file : StagedFile) : Drops (Keeps (env.Sourced source)) file := by
  intro s hsourced
  refine ⟨fun other held harchive hheld => ?_, hsourced.extracted⟩
  have hheld : Function.update s.staged file none other = some held := hheld
  by_cases heq : other = file
  · rw [heq, Function.update_self] at hheld
    cases hheld
  · rw [Function.update_of_ne heq] at hheld
    exact hsourced.staged other held harchive hheld

/-- Without links a write to the shared directory stays there. -/
theorem sourced_writeCached (hplain : env.Plain) (file : CacheFile) (bytes : Place → Bytes) :
    Goes (Keeps (env.Sourced source)) (env.writeCached file bytes) := by
  refine goes_writeCached (fun now => sourced_logs fun _ _ h => by cases h) ?_
  intro now target bytes htarget
  rw [follow_of_plain hplain] at htarget
  obtain rfl := Option.some.inj htarget
  exact Goes.pure ()

theorem sourced_getVerifiedArchive (hplain : env.Plain) :
    Goes (Keeps (env.Sourced source)) env.getVerifiedArchive := by
  refine goes_getVerifiedArchive (fun _ => sourced_logs fun _ _ h => by cases h)
    (fun _ => sourced_logs fun _ _ h => by cases h) sourced_drops ?_
    fun _ => sourced_puts fun h => by simp at h
  rintro handle ⟨opening, hleads⟩ now s bytes hbytes
  rw [follow_of_plain hplain] at hleads
  obtain rfl := Option.some.inj hleads
  exact sourced_puts fun _ => ⟨now, .inl hbytes⟩

theorem sourced_download {url : String} {dest : StagedFile}
    (hurl : dest = .archive ∨ dest = .cachedArchive → url = source.downloadUrl) :
    Goes (Keeps (env.Sourced source)) (env.download url dest) := by
  refine goes_download fun now body bytes hbody hbytes => sourced_puts fun hdest => ?_
  rw [hurl hdest] at hbody
  exact ⟨now, .inr ⟨body, hbody, hbytes⟩⟩

theorem sourced_extractBinary {archivePath : StagedFile}
    (harchive : archivePath = .archive ∨ archivePath = .cachedArchive) :
    Goes (Keeps (env.Sourced source)) (env.extractBinary archivePath) := by
  refine goes_extractBinary (fun f hf => ?_) fun _ => sourced_puts fun h => by simp at h
  refine ((goes_readStaged archivePath).mapError _).bind_keeps
    (P := fun bytes => env.Offers source bytes) ?_ fun bytes hoffers => hf bytes ?_
  · intro s s' bytes hsourced hread
    have hstaged := staged_of_readStaged (mapError_eq_ok.mp hread)
    obtain ⟨content, hcontent, rfl⟩ := Option.map_eq_some_iff.mp hstaged
    exact hsourced.staged archivePath content harchive hcontent
  · refine sourced_logs fun _ archive heq => ?_
    obtain ⟨-, rfl⟩ := Act.extracted.inj heq
    exact hoffers

/-! ### The call -/

theorem sourced_downloadVerifyExtract (hplain : env.Plain) (cache : Bool) :
    Goes (Keeps (env.Sourced source)) (env.downloadVerifyExtract source cache) := by
  have hverifies : ∀ bytes, Logs (Keeps (env.Sourced source)) (.verified .archive bytes) :=
    fun _ => sourced_logs fun _ _ h => by cases h
  refine (sourced_download fun _ => rfl).bind fun _ => ?_
  refine (sourced_download fun h => by simp at h).bind fun _ => ?_
  refine (goes_verifyFromFile hverifies _).bind fun _ => ?_
  refine (sourced_extractBinary (.inl rfl)).bind fun extractedBinary => ?_
  cases cache with
  | false => exact Goes.pure _
  | true =>
      refine (goes_storeArchive ?_ hverifies _).attempt.bind fun _ => Goes.pure _
      exact fun file bytes _ => sourced_writeCached hplain file bytes

/-- The cache is asked, and what it does not give is downloaded. -/
theorem sourced_cached (hplain : env.Plain) {missed : Script Session UpgradeError StagedFile}
    (hmissed : Goes (Keeps (env.Sourced source)) missed) :
    Goes (Keeps (env.Sourced source)) (do
      match ← attempt env.getVerifiedArchive with
      | .ok verifiedArchive =>
          match ← attempt (env.extractBinary verifiedArchive) with
          | .ok extracted => pure extracted
          | .error _ => env.downloadVerifyExtract source true
      | .error _ => missed : Script Session UpgradeError StagedFile) := by
  have hcached : ∀ s s' result, (attempt env.getVerifiedArchive : Script Session UpgradeError _) s
      = (.ok result, s') → ∀ archivePath, result = .ok archivePath →
        archivePath = .cachedArchive := by
    rintro s s' result hrun archivePath rfl
    exact (verified_of_getVerifiedArchive (attempt_eq_ok.mp hrun)).1
  refine (sourced_getVerifiedArchive hplain).attempt.bind_of hcached fun result hresult => ?_
  cases result with
  | error _ => exact hmissed
  | ok archivePath =>
      refine (sourced_extractBinary (.inr (hresult _ rfl))).attempt.bind fun outcome => ?_
      cases outcome with
      | ok extracted => exact Goes.pure _
      | error _ => exact sourced_downloadVerifyExtract hplain true

theorem sourced_resolveUpgradeBinary (hplain : env.Plain) (cache : Bool) :
    Goes (Keeps (env.Sourced source)) (env.resolveUpgradeBinary source cache) := by
  cases cache with
  | false => exact sourced_downloadVerifyExtract hplain false
  | true =>
      refine sourced_cached hplain ?_
      refine (goes_syscall.mapError _).bind fun _ => ?_
      refine (goes_acquireDownloadLock (sourced_writeCached hplain _ _)).bind fun _ => ?_
      exact sourced_cached hplain (sourced_downloadVerifyExtract hplain true)

/-- What a call returns is the binary of a verified archive that was offered to it. -/
theorem binary_of_resolveUpgradeBinary (hplain : env.Plain) {cache : Bool} {path : StagedFile}
    {content : StagedContent} (hstart : env.Sourced source s)
    (hrun : env.resolveUpgradeBinary source cache s = (.ok path, s'))
    (hcontent : s'.staged path = some content) :
    ∃ archive entry, env.Offers source archive ∧
      (∃ sig, env.tools.verifyWithContext archive sig = .ok ()) ∧
      env.tools.binaryIn archive = .ok entry ∧ content.bytes = entry.data := by
  have hmissed : env.Missed s'.acts := by
    intro now file _ _
    rw [follow_of_plain hplain]
    simp
  have hsourced : env.Sourced source s' :=
    (sourced_resolveUpgradeBinary hplain cache).of_eq hrun hstart
  obtain ⟨later, archivePath, archive, entry, earlier, hacts, -, hvalid, hentry, hstaged⟩ :=
    fromVerified_of_missed hrun hmissed
  obtain rfl := Option.some.inj (hcontent.symm.trans hstaged)
  exact ⟨archive, entry, hsourced.extracted archivePath archive (by simp [hacts]), hvalid, hentry,
    rfl⟩

end UpgradeEnv

end AntNode
