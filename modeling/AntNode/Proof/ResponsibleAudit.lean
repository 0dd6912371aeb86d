import AntNode.ResponsibleAudit
import AntNode.Transcript

/-!
# Who passes the responsible-chunk audit

The responder accepts a challenge of at most `max_incoming_audit_keys` keys, counted from its own
store, while the auditor's sample grows with the auditor's store. A holder passes exactly when the
challenge is short enough for it, and an auditor whose store is less than about four times as large
as the responder's never asks too much.
-/

namespace AntNode

variable {H : Type} [Digest H]

theorem handleClassifiedAuditFailure_ne_passed {challengedPeer peer : H} {challengeId : UInt64}
    {failedKeys : List (AuditKeyFailure H)} {reason : AuditFailureReason} {count checked : Nat}
    {routing : RoutingTable H} {config : ReplicationConfig} :
    handleClassifiedAuditFailure challengedPeer challengeId failedKeys reason count routing config ≠
      .passed peer checked := by
  unfold handleClassifiedAuditFailure
  simp only
  split_ifs <;> simp

theorem digestFailure_eq_none_iff {challengedPeer : H} {nonce : Nonce} {storage : GetRaw H}
    {key digest : H} :
    digestFailure challengedPeer nonce storage key digest = none ↔
      digest ≠ absentKeyDigest ∧ ∀ localBytes, storage key = .ok (some localBytes) →
        digest = computeAuditDigest nonce challengedPeer key localBytes := by
  unfold digestFailure
  by_cases habsent : digest = absentKeyDigest
  · simp [habsent]
  · rw [if_neg habsent]
    cases hread : storage key with
    | error e => simp [habsent]
    | ok value =>
        cases value with
        | none => simp [habsent]
        | some localBytes => simp [habsent]

theorem verifyDigests_eq_passed_iff {challengedPeer peer : H} {challengeId : UInt64} {nonce : Nonce}
    {keys digests : List H} {storage : GetRaw H} {routing : RoutingTable H}
    {config : ReplicationConfig} {checked : Nat} :
    verifyDigests challengedPeer challengeId nonce keys digests storage routing config =
        .passed peer checked ↔
      (peer = challengedPeer ∧ checked = keys.length) ∧ digests.length = keys.length ∧
        ∀ entry ∈ keys.zip digests,
          digestFailure challengedPeer nonce storage entry.1 entry.2 = none := by
  unfold verifyDigests
  by_cases hlength : digests.length = keys.length
  · rw [if_neg (by simpa using hlength)]
    simp only [List.filterMap_eq_nil_iff]
    by_cases hall : ∀ entry ∈ keys.zip digests,
        digestFailure challengedPeer nonce storage entry.1 entry.2 = none
    · rw [if_pos hall, AuditTickResult.passed.injEq]
      constructor
      · rintro ⟨rfl, rfl⟩
        exact ⟨⟨rfl, rfl⟩, hlength, hall⟩
      · rintro ⟨⟨rfl, rfl⟩, -⟩
        exact ⟨rfl, rfl⟩
    · rw [if_neg hall]
      exact iff_of_false handleClassifiedAuditFailure_ne_passed fun hpassed => hall hpassed.2.2
  · rw [if_pos hlength]
    exact iff_of_false handleClassifiedAuditFailure_ne_passed fun hpassed => hlength hpassed.2.1

/-- What the auditor compares: one digest a key, equal to its own wherever it has the key. -/
theorem verifyDigests_passed_digests {challengedPeer peer : H} {challengeId : UInt64} {nonce : Nonce}
    {keys digests : List H} {storage : GetRaw H} {routing : RoutingTable H}
    {config : ReplicationConfig} {checked : Nat}
    (hpassed : verifyDigests challengedPeer challengeId nonce keys digests storage routing config =
      .passed peer checked) :
    digests.length = keys.length ∧
      ∀ (i : Nat) (key : H) (localBytes : Bytes), keys[i]? = some key →
        storage key = .ok (some localBytes) →
        digests[i]? = some (computeAuditDigest nonce challengedPeer key localBytes) := by
  obtain ⟨-, hlength, hall⟩ := verifyDigests_eq_passed_iff.mp hpassed
  refine ⟨hlength, fun i key localBytes hkey hread => ?_⟩
  have hi : i < digests.length := by
    rw [hlength]
    exact (List.getElem?_eq_some_iff.mp hkey).1
  have hdigest := List.getElem?_eq_getElem hi
  have hentry : (key, digests[i]) ∈ keys.zip digests :=
    List.mem_of_getElem? (List.getElem?_zip_eq_some.mpr ⟨hkey, hdigest⟩)
  rw [hdigest]
  exact congrArg some ((digestFailure_eq_none_iff.mp (hall _ hentry)).2 localBytes hread)

theorem auditSampleCount_le_of_lt {N limit : Nat} (hlt : N < (limit + 1) ^ 2) (hpos : 0 < limit) :
    auditSampleCount N ≤ limit := by
  have hsqrt : Nat.sqrt N < limit + 1 := Nat.sqrt_lt'.mpr hlt
  unfold auditSampleCount
  omega

theorem maxIncomingAuditKeys_pos (storedChunks : Nat) : 0 < maxIncomingAuditKeys storedChunks := by
  unfold maxIncomingAuditKeys
  omega

section Holder

variable {peer : H} {challengeId : UInt64} {nonce : Nonce} {keys : List H}
  {auditor responder : GetRaw H} {m : Nat}

/-- The responder reads every challenged key, with the auditor's bytes where the auditor has them,
and no digest is the sentinel for an absent key. -/
structure Holds (peer : H) (nonce : Nonce) (keys : List H) (auditor responder : GetRaw H) : Prop where
  reads : ∀ key ∈ keys, ∃ bytes, responder key = .ok (some bytes) ∧
    (∀ localBytes, auditor key = .ok (some localBytes) → localBytes = bytes) ∧
    computeAuditDigest nonce peer key bytes ≠ absentKeyDigest

theorem Holds.digestFailure_eq_none (hholds : Holds peer nonce keys auditor responder) {key : H}
    (hkey : key ∈ keys) :
    digestFailure peer nonce auditor key
      (auditDigestFor ⟨challengeId, nonce, peer, keys⟩ responder key) = none := by
  obtain ⟨bytes, hread, hsame, hpresent⟩ := hholds.reads key hkey
  have hdigest : auditDigestFor ⟨challengeId, nonce, peer, keys⟩ responder key =
      computeAuditDigest nonce peer key bytes := by
    rw [auditDigestFor, hread]
  rw [hdigest]
  refine digestFailure_eq_none_iff.mpr ⟨hpresent, fun localBytes hlocal => ?_⟩
  rw [hsame localBytes hlocal]

/-- The responsible-chunk audit passes the holders it asks for no more than they accept. The
responder's limit counts from its own store, so a holder with a much smaller store than the
auditor's rejects. -/
theorem responsibleAudit_passes_iff {N : Nat} (hsample : keys.length ≤ auditSampleCount N)
    (hholds : Holds peer nonce keys auditor responder) (routing : RoutingTable H)
    (config : ReplicationConfig) :
    let response := handleAuditChallenge ⟨challengeId, nonce, peer, keys⟩ responder peer false m
    (keys.length ≤ maxIncomingAuditKeys m → ∃ digests, response = .digests challengeId digests ∧
      verifyDigests peer challengeId nonce keys digests auditor routing config =
        .passed peer keys.length) ∧
    (maxIncomingAuditKeys m < keys.length → (∃ reason, response = .rejected challengeId reason) ∧
      judgeAuditResponse peer challengeId nonce keys response auditor routing config =
        handleAuditFailure peer challengeId keys .rejected routing config) ∧
    (N < (maxIncomingAuditKeys m + 1) ^ 2 → keys.length ≤ maxIncomingAuditKeys m) ∧
    ∀ digests checked, verifyDigests peer challengeId nonce keys digests auditor routing config =
        .passed peer checked →
      digests.length = keys.length ∧
        ∀ (i : Nat) (key : H) (localBytes : Bytes), keys[i]? = some key →
          auditor key = .ok (some localBytes) →
          digests[i]? = some (computeAuditDigest nonce peer key localBytes) := by
  have hresponse : handleAuditChallenge ⟨challengeId, nonce, peer, keys⟩ responder peer false m =
      if keys.length > maxIncomingAuditKeys m then
        .rejected challengeId ("challenge contains " ++ toString keys.length ++
          " keys, limit is " ++ toString (maxIncomingAuditKeys m))
      else .digests challengeId
        (keys.map (auditDigestFor ⟨challengeId, nonce, peer, keys⟩ responder)) := by
    simp [handleAuditChallenge]
  intro response
  refine ⟨fun hfits => ⟨_, hresponse.trans (if_neg (Nat.not_lt.mpr hfits)), ?_⟩,
    fun hover => ⟨⟨_, hresponse.trans (if_pos hover)⟩, ?_⟩, fun hN => ?_,
    fun digests checked => verifyDigests_passed_digests⟩
  · refine verifyDigests_eq_passed_iff.mpr ⟨⟨rfl, rfl⟩, by simp, fun entry hentry => ?_⟩
    rw [← List.map_prod_left_eq_zip] at hentry
    obtain ⟨key, hkey, rfl⟩ := List.mem_map.mp hentry
    exact hholds.digestFailure_eq_none hkey
  · rw [show response = _ from hresponse.trans (if_pos hover), judgeAuditResponse, if_neg (by simp)]
  · exact hsample.trans (auditSampleCount_le_of_lt hN (maxIncomingAuditKeys_pos m))

end Holder

/-! ### A small holder and a large auditor -/

namespace Transcript

/-- A store of the first keys, each with its own byte as content. -/
def smallStore (count : Nat) : GetRaw Transcript := fun key =>
  .ok (if key ∈ (List.range count).map (fun i => (⟨[UInt8.ofNat i]⟩ : Transcript)) then
    some key.bytes else none)

def threeKeys : List Transcript := [⟨[0]⟩, ⟨[1]⟩, ⟨[2]⟩]

theorem smallStore_holds {count : Nat} (auditorCount : Nat)
    (hkeys : ∀ key ∈ threeKeys, smallStore count key = .ok (some key.bytes)) :
    Holds ⟨[9]⟩ (Vector.replicate 32 0) threeKeys (smallStore auditorCount) (smallStore count) where
  reads key hkey := by
    refine ⟨key.bytes, hkeys key hkey, fun localBytes hlocal => ?_, fun hzero => ?_⟩
    · unfold smallStore at hlocal
      split_ifs at hlocal
      · cases hlocal
        rfl
      · cases hlocal
    · have hlength := congrArg (fun t : Transcript => t.bytes.length) hzero
      simp [computeAuditDigest, blake3, absentKeyDigest, Digest.zero] at hlength

/-- An auditor with nine keys samples three, and a peer that stores exactly these three accepts only
two. In the other direction, a passed key whose own copy the auditor cannot read was compared with
nothing: here the digest passed is that of other bytes than the key's. -/
theorem responsibleAudit_rejects_holder :
    (threeKeys.length ≤ auditSampleCount 9 ∧ threeKeys.Nodup ∧
      Holds ⟨[9]⟩ (Vector.replicate 32 0) threeKeys (smallStore 9) (smallStore 3) ∧
      handleAuditChallenge ⟨0, Vector.replicate 32 0, ⟨[9]⟩, threeKeys⟩ (smallStore 3) ⟨[9]⟩ false
        3 = .rejected 0 "challenge contains 3 keys, limit is 2") ∧
    let claimed : Transcript := computeAuditDigest (Vector.replicate 32 0) ⟨[9]⟩ ⟨[0]⟩ [1, 2]
    verifyDigests ⟨[9]⟩ 0 (Vector.replicate 32 0) [⟨[0]⟩] [claimed]
        (fun _ => .error "Failed to create read txn") ⟨fun _ _ => [], fun _ _ => []⟩ ⟨7, 4, 20, 10⟩ =
      .passed ⟨[9]⟩ 1 ∧
    smallStore 9 ⟨[0]⟩ = .ok (some [0]) ∧
    claimed ≠ computeAuditDigest (Vector.replicate 32 0) ⟨[9]⟩ ⟨[0]⟩ [0] := by
  exact ⟨⟨by decide +kernel, by decide +kernel, smallStore_holds 9 (by decide +kernel),
    by decide +kernel⟩, by decide +kernel, by decide +kernel, by decide +kernel⟩

theorem responsibleAudit_passes_iff_smallStore :
    ∃ digests, handleAuditChallenge ⟨0, Vector.replicate 32 0, ⟨[9]⟩, threeKeys⟩ (smallStore 4)
        ⟨[9]⟩ false 4 = .digests 0 digests ∧
      verifyDigests ⟨[9]⟩ 0 (Vector.replicate 32 0) threeKeys digests (smallStore 9)
        ⟨fun _ _ => [], fun _ _ => []⟩ ⟨7, 4, 20, 10⟩ = .passed ⟨[9]⟩ 3 := by
  have hsample : threeKeys.length ≤ auditSampleCount 9 := by decide +kernel
  have hholds : Holds ⟨[9]⟩ (Vector.replicate 32 0) threeKeys (smallStore 9) (smallStore 4) :=
    smallStore_holds 9 (by decide +kernel)
  exact (responsibleAudit_passes_iff hsample hholds ⟨fun _ _ => [], fun _ _ => []⟩
    ⟨7, 4, 20, 10⟩).1 (by decide +kernel)

end Transcript

end AntNode
