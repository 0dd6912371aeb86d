import AntNode.AutoApplyUpgrader

/-!
# What the steps of an upgrade can do

Apart from the clock, a step of an upgrade writes or removes a file of the process's own directory
or adds an act to the list. So what each script does to a session follows, along any preorder that
ignores the clock, from what these three do.
-/

namespace AntNode

open Script

def CacheFile.isTemporary : CacheFile → Bool
  | .archiveTmp => true
  | .signatureTmp => true
  | .metadataTmp => true
  | _ => false

namespace Session

/-- Nothing but the clock moved. -/
def Idles (s s' : Session) : Prop := s'.acts = s.acts ∧ s'.staged = s.staged

/-- A preorder on sessions that ignores the clock. -/
class Untimed (R : Session → Session → Prop) : Prop extends Std.Refl R, IsTrans Session R where
  of_idles : ∀ {s s'}, Idles s s' → R s s'

instance : Untimed Idles where
  refl _ := ⟨rfl, rfl⟩
  trans _ _ _ hfirst hsecond := ⟨hsecond.1.trans hfirst.1, hsecond.2.trans hfirst.2⟩
  of_idles := id

def Logs (R : Session → Session → Prop) (act : Act) : Prop :=
  ∀ s : Session, R s { s with acts := act :: s.acts }

def Puts (R : Session → Session → Prop) (file : StagedFile) (content : StagedContent) : Prop :=
  ∀ s : Session, R s (s.put file content)

def Drops (R : Session → Session → Prop) (file : StagedFile) : Prop :=
  ∀ s : Session, R s (s.remove file)

end Session

namespace UpgradeEnv

open Session

variable {env : UpgradeEnv} {source : UpgradeSource} {ε : Type} {s s' : Session}
variable {R : Session → Session → Prop} [Untimed R]

/-! ### Single steps -/

theorem moment_bind {α : Type} (f : Moment → Script Session ε α) (s : Session) :
    (env.moment >>= f) s = f (env.world s.now) { s with now := s.now + 1 } := rfl

theorem goes_moment_bind {α : Type} {f : Moment → Script Session ε α}
    (hf : ∀ now, Goes R (f (env.world now))) : Goes R (env.moment >>= f) := by
  intro s
  have htick : R s { s with now := s.now + 1 } := Untimed.of_idles ⟨rfl, rfl⟩
  rw [moment_bind]
  exact IsTrans.trans _ _ _ htick (hf s.now _)

theorem goes_outcome (fault : Option Fault) : Goes R (outcome fault) := by
  cases fault with
  | none => exact Goes.pure ()
  | some fault => exact Goes.fail _

theorem goes_syscall : Goes R env.syscall :=
  goes_moment_bind fun now => goes_outcome (env.world now).fault

theorem goes_readStaged (file : StagedFile) : Goes R (env.readStaged file) := by
  refine goes_syscall.bind fun _ => Goes.look.bind fun s => ?_
  split
  · exact Goes.fail _
  · exact Goes.pure _

theorem goes_writeStaged {file : StagedFile} {bytes : Bytes} {extractedFrom : Option Bytes}
    (hwhole : Puts R file ⟨bytes, extractedFrom⟩)
    (hpart : ∀ written, Puts R file ⟨bytes.take written, none⟩) :
    Goes R (env.writeStaged file bytes extractedFrom) := by
  refine goes_moment_bind fun now => ?_
  split
  · exact hwhole
  · exact Goes.fail _
  · exact Goes.bind (hpart _) fun _ => Goes.fail _

theorem goes_removeStaged {file : StagedFile} (hdrops : Drops R file) :
    Goes R (env.removeStaged file : Script Session ε Unit) := by
  refine goes_moment_bind fun now => ?_
  split
  · exact hdrops
  · exact Goes.pure ()

theorem goes_writeCached {file : CacheFile} {bytes : Place → Bytes}
    (hlogs : ∀ now, Logs R (.wroteCached now file))
    (hthrough : ∀ now target bytes,
      follow (env.world now).entry maxSymlinks (.cache file) = some target →
      Goes R (writeThrough target bytes : Script Session String Unit)) :
    Goes R (env.writeCached file bytes) := by
  refine Goes.look.bind fun s => goes_moment_bind fun now => ?_
  split
  · exact Goes.fail _
  · exact Goes.fail _
  · rename_i htarget _
    exact Goes.bind (hlogs s.now) fun _ => (hthrough now _ _ htarget).bind fun _ => goes_outcome _

/-! ### Reading the cache -/

theorem goes_stat (m : Moment) (file : CacheFile) : Goes R (stat m file) := by
  refine Goes.look.bind fun s => ?_
  split
  · exact Goes.fail _
  · exact Goes.fail _
  · split
    · exact Goes.fail _
    · exact Goes.pure _

theorem goes_openRegularCapped {file : CacheFile} (hlogs : Logs R (.readCached file))
    (maxLen : Nat) : Goes R (env.openRegularCapped file maxLen) := by
  refine goes_moment_bind fun now => (goes_stat _ file).bind fun ⟨_, regular⟩ => ?_
  dsimp only
  split
  · exact Goes.fail _
  refine goes_moment_bind fun now => (goes_stat _ file).bind fun ⟨handle, regular⟩ => ?_
  refine Goes.bind hlogs fun _ => goes_moment_bind fun now => ?_
  split
  · exact Goes.fail _
  · split
    · exact Goes.fail _
    · refine Goes.look.bind fun s => ?_
      split
      · exact Goes.fail _
      · exact Goes.pure _

theorem goes_readToString {file : CacheFile} (hlogs : Logs R (.readCached file))
    (handle : Place) : Goes R (env.readToString file handle) := by
  refine Goes.bind hlogs fun _ => goes_moment_bind fun now => ?_
  split
  · exact Goes.fail _
  · exact Goes.look.bind fun s => Goes.pure _

theorem goes_stage {file : CacheFile} {handle : Place} {dest : StagedFile}
    (hlogs : Logs R (.readCached file))
    (hputs : ∀ now s bytes, bytes <+: heldBytes (env.world now) s handle →
      Puts R dest ⟨bytes, none⟩) (len : Nat) : Goes R (env.stage file handle len dest) := by
  have hempty : ∀ written, Puts R dest ⟨([] : Bytes).take written, none⟩ := by
    intro written
    exact hputs 0 ⟨0, fun _ => none, []⟩ _ (by simp)
  refine (goes_writeStaged (hempty 0) hempty).bind fun _ => Goes.bind hlogs fun _ => ?_
  refine goes_moment_bind fun now => Goes.look.bind fun s => ?_
  have hpart := List.take_prefix len (heldBytes (env.world now) s handle)
  dsimp only
  split
  · exact hputs now s _ hpart
  · exact Goes.fail _
  · refine Goes.bind (hputs now s _ ?_) fun _ => Goes.fail _
    exact (List.take_prefix _ _).trans hpart

theorem goes_verifyFromFile {archivePath : StagedFile}
    (hlogs : ∀ bytes, Logs R (.verified archivePath bytes)) (signaturePath : StagedFile) :
    Goes R (env.verifyFromFile archivePath signaturePath) := by
  refine ((goes_readStaged signaturePath).mapError _).bind fun sig => ?_
  refine ((goes_readStaged archivePath).mapError _).bind fun bytes => ?_
  split
  · exact Goes.fail _
  · exact ((Goes.ofExcept _).mapError _).bind fun _ => hlogs bytes

theorem goes_sha256File (file : StagedFile) : Goes R (env.sha256File file) :=
  ((goes_readStaged file).mapError _).bind fun _ => (goes_syscall.mapError _).bind fun _ =>
    Goes.pure _

theorem goes_cleanup (hdrops : ∀ file, Drops R file) :
    Goes R (env.cleanup : Script Session ε Unit) :=
  (goes_removeStaged (hdrops _)).bind fun _ => goes_removeStaged (hdrops _)

theorem goes_orCleanup {α : Type} {x : Script Session ε α} (hdrops : ∀ file, Drops R file)
    (hx : Goes R x) : Goes R (env.orCleanup x) := by
  refine hx.attempt.bind fun result => ?_
  cases result with
  | ok a => exact Goes.pure a
  | error e => exact (goes_cleanup hdrops).bind fun _ => Goes.fail ()

/-- The handle is of the file that the name leads to at some moment. -/
def Leads (env : UpgradeEnv) (file : CacheFile) (handle : Place) : Prop :=
  ∃ now, follow (env.world now).entry maxSymlinks (.cache file) = some handle

theorem leads_of_stat {now : Nat} {file : CacheFile} {found : Place × Bool}
    (hrun : stat (env.world now) file s = (.ok found, s')) : env.Leads file found.1 := by
  rw [stat, look_bind] at hrun
  cases hfault : (env.world now).fault with
  | some fault =>
      rw [hfault] at hrun
      exact absurd hrun fail_ne_ok
  | none =>
      rw [hfault] at hrun
      cases hplace : follow (env.world now).entry maxSymlinks (.cache file) with
      | none =>
          rw [hplace] at hrun
          exact absurd hrun fail_ne_ok
      | some place =>
          rw [hplace] at hrun
          dsimp only at hrun
          cases hregular : isRegular (env.world now) s place with
          | none =>
              rw [hregular] at hrun
              exact absurd hrun fail_ne_ok
          | some regular =>
              rw [hregular] at hrun
              obtain ⟨rfl, -⟩ := pure_eq_ok.mp hrun
              exact ⟨now, hplace⟩

theorem leads_of_openRegularCapped {file : CacheFile} {maxLen : Nat} {opened : Place × Nat}
    (hrun : env.openRegularCapped file maxLen s = (.ok opened, s')) : env.Leads file opened.1 := by
  rw [openRegularCapped, moment_bind] at hrun
  obtain ⟨⟨_, regular⟩, mid, -, hrun⟩ := bind_eq_ok.mp hrun
  dsimp only at hrun
  split at hrun
  · exact absurd hrun fail_ne_ok
  rw [moment_bind] at hrun
  obtain ⟨⟨handle, regular⟩, last, hstat, hrun⟩ := bind_eq_ok.mp hrun
  obtain ⟨_, logged, -, hrun⟩ := bind_eq_ok.mp hrun
  rw [moment_bind] at hrun
  cases hfault : (env.world logged.now).fault with
  | some fault =>
      rw [hfault] at hrun
      exact absurd hrun fail_ne_ok
  | none =>
      rw [hfault] at hrun
      dsimp only at hrun
      split at hrun
      · exact absurd hrun fail_ne_ok
      · rw [look_bind] at hrun
        split at hrun
        · exact absurd hrun fail_ne_ok
        · obtain ⟨rfl, -⟩ := pure_eq_ok.mp hrun
          exact leads_of_stat hstat

theorem goes_getVerifiedArchive (hreads : ∀ file, Logs R (.readCached file))
    (hverifies : ∀ bytes, Logs R (.verified .cachedArchive bytes)) (hdrops : ∀ file, Drops R file)
    (harchive : ∀ handle, env.Leads .archive handle → ∀ now s bytes,
      bytes <+: heldBytes (env.world now) s handle → Puts R .cachedArchive ⟨bytes, none⟩)
    (hsignature : ∀ bytes, Puts R .cachedSignature ⟨bytes, none⟩) :
    Goes R env.getVerifiedArchive := by
  refine ((goes_openRegularCapped (hreads _) _).mapError _).bind fun ⟨metaFile, _⟩ => ?_
  refine ((goes_readToString (hreads _) metaFile).mapError _).bind fun metaData => ?_
  split
  · exact Goes.fail ()
  split
  · exact Goes.fail ()
  refine ((goes_openRegularCapped (hreads _) _).mapError _).bind_of
    (fun _ _ opened hrun => leads_of_openRegularCapped (mapError_eq_ok.mp hrun)) ?_
  rintro ⟨archiveFile, archiveLen⟩ hleads
  refine ((goes_openRegularCapped (hreads _) _).mapError _).bind fun ⟨sigFile, sigLen⟩ => ?_
  dsimp only
  split
  · exact Goes.fail ()
  refine (goes_orCleanup hdrops
    (goes_stage (hreads _) (harchive archiveFile hleads) archiveLen)).bind fun _ => ?_
  refine (goes_orCleanup hdrops
    (goes_stage (hreads _) (fun _ _ bytes _ => hsignature bytes) sigLen)).bind fun _ => ?_
  refine (goes_orCleanup hdrops (goes_sha256File _)).bind fun actualHash => ?_
  split
  · exact (goes_cleanup hdrops).bind fun _ => Goes.fail ()
  · exact (goes_orCleanup hdrops (goes_verifyFromFile hverifies _)).bind fun _ => Goes.pure _

/-! ### Downloading, extracting and storing -/

theorem goes_acquireDownloadLock (hwrite : Goes R (env.writeCached .downloadLock fun _ => [])) :
    Goes R env.acquireDownloadLock :=
  (hwrite.mapError _).bind fun _ => goes_syscall.mapError _

theorem goes_download {url : String} {dest : StagedFile}
    (hputs : ∀ now body bytes, (env.world now).response url = .body body → bytes <+: body →
      Puts R dest ⟨bytes, none⟩) : Goes R (env.download url dest) := by
  refine goes_moment_bind fun now => ?_
  split
  · exact Goes.fail _
  · exact Goes.fail _
  · exact Goes.fail _
  · rename_i body hbody
    split
    · exact Goes.fail _
    · refine (goes_writeStaged (hputs now body body hbody List.prefix_rfl) ?_).mapError _
      exact fun written => hputs now body _ hbody (List.take_prefix _ _)

/-- An extraction is allowed where what it reads may be extracted. -/
theorem goes_extractBinary {archivePath : StagedFile}
    (hread : ∀ f : Bytes → Script Session UpgradeError StagedFile,
      (∀ bytes, Logs R (.extracted archivePath bytes) → Goes R (f bytes)) →
      Goes R (mapError .io (env.readStaged archivePath) >>= f))
    (hputs : ∀ content, Puts R .binary content) : Goes R (env.extractBinary archivePath) := by
  refine hread _ fun bytes hlogs => (Goes.ofExcept _).bind fun entry => ?_
  have hwrite : ∀ extractedFrom, Goes R (env.writeStaged .binary entry.data extractedFrom) :=
    fun extractedFrom => goes_writeStaged (hputs _) fun written => hputs _
  split
  · exact ((hwrite none).mapError _).bind fun _ => Goes.fail _
  · exact ((hwrite (some bytes)).mapError _).bind fun _ => (goes_syscall.mapError _).bind fun _ =>
      Goes.bind hlogs fun _ => Goes.pure _

theorem goes_atomicCopy (src : StagedFile) {tmp : CacheFile}
    (hwrite : ∀ bytes, Goes R (env.writeCached tmp bytes)) : Goes R (env.atomicCopy src tmp) :=
  (goes_readStaged src).bind fun _ => (hwrite _).bind fun _ =>
    goes_syscall.attempt.bind fun _ => goes_syscall

theorem goes_stagedLen (file : StagedFile) : Goes R (env.stagedLen file) :=
  (goes_readStaged file).bind fun _ => Goes.pure _

theorem goes_storeArchive {archivePath : StagedFile}
    (hwrite : ∀ file bytes, file.isTemporary = true → Goes R (env.writeCached file bytes))
    (hverifies : ∀ bytes, Logs R (.verified archivePath bytes)) (signaturePath : StagedFile) :
    Goes R (env.storeArchive archivePath signaturePath) := by
  refine ((goes_stagedLen archivePath).mapError _).bind fun archiveLen => ?_
  split
  · exact Goes.fail _
  refine ((goes_stagedLen signaturePath).mapError _).bind fun sigLen => ?_
  split
  · exact Goes.fail _
  refine ((goes_verifyFromFile hverifies signaturePath).mapError _).bind fun _ => ?_
  refine (goes_sha256File archivePath).bind fun archiveHash => ?_
  refine ((goes_atomicCopy archivePath fun bytes => hwrite _ bytes rfl).mapError _).bind fun _ => ?_
  refine ((goes_atomicCopy signaturePath fun bytes => hwrite _ bytes rfl).mapError _).bind
    fun _ => ?_
  refine goes_moment_bind fun now => ((Goes.ofExcept _).mapError _).bind fun now => ?_
  refine ((Goes.ofExcept _).mapError _).bind fun metaJson => ?_
  refine ((hwrite _ (fun _ => metaJson) rfl).mapError _).bind fun _ => ?_
  exact (goes_syscall.mapError _).bind fun _ => goes_syscall.attempt.bind fun _ =>
    goes_syscall.mapError _

end UpgradeEnv

end AntNode
