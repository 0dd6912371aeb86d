import AntNode.Lib.Rotation
import AntNode.PaidPruneScan
import AntNode.Transcript

/-!
# What a bounded paid-list prune pass reaches

A scan selects greedily: a key whose target group does not fit into what is left of the peer budget
is passed over, and a later key with a group that fits is still selected. The cursor moves past the
last selected key, so a key that was passed over before it waits for the next round of the ring and
may be passed over again, for ever. Where no key is overtaken like this, the selected keys are the
first ones of the scan and consecutive passes go around the ring.
-/

namespace AntNode

open PaidPruneScan

variable {H : Type} [Digest H]

/-- Every paid key is out of range for long enough, with this target group. -/
structure Prunable (ctx : PrunePassContext H) (paidKeys : List H) (group : H → List H)
    (world : PruneWorld H) : Prop where
  closest : ∀ key ∈ paidKeys,
    world.routing.findClosestNodesLocalWithSelf key ctx.config.paidListCloseGroupSize = group key
  outOfRange : ∀ key ∈ paidKeys, ctx.selfId ∉ group key
  expired : ∀ key ∈ paidKeys, ∃ firstSeen, world.paidList.paidOutOfRange.lookup key = some firstSeen ∧
    ctx.config.pruneHysteresisDuration ≤ world.now - firstSeen

variable {ctx : PrunePassContext H} {paidKeys : List H} {group : H → List H} {world : PruneWorld H}

theorem Prunable.setPaidOutOfRange (hprunable : Prunable ctx paidKeys group world) {key : H}
    (hkey : key ∈ paidKeys) : world.setPaidOutOfRange key = world := by
  obtain ⟨firstSeen, hseen, -⟩ := hprunable.expired key hkey
  have hmem : key ∈ world.paidList.paidOutOfRange := Finmap.mem_iff.mpr ⟨firstSeen, hseen⟩
  rw [PruneWorld.setPaidOutOfRange, FiniteMap.orInsert, if_pos hmem]

theorem Prunable.remoteCloseGroupPeers (hprunable : Prunable ctx paidKeys group world) {key : H}
    (hkey : key ∈ paidKeys) : remoteCloseGroupPeers (group key) ctx.selfId = group key := by
  refine List.filter_eq_self.mpr fun peer hpeer => ?_
  rw [decide_eq_true_eq]
  rintro rfl
  exact hprunable.outOfRange key hkey hpeer

/-- The group fits into what the selected peers leave of the budget. -/
def FitsPeerBudget (targetPeers : List H) (selectedVerificationPeers : Finset H) : Prop :=
  selectedVerificationPeers.card +
      (targetPeers.filter fun peer => peer ∉ selectedVerificationPeers).length ≤
    maxPaidPruneVerificationPeersPerPass

instance (targetPeers : List H) (peers : Finset H) : Decidable (FitsPeerBudget targetPeers peers) :=
  inferInstanceAs (Decidable (_ ≤ _))

theorem reservePaidPrunePeerBudget_eq (targetPeers : List H) (peers : Finset H) :
    reservePaidPrunePeerBudget targetPeers peers =
      if FitsPeerBudget targetPeers peers then (true, peers ∪ targetPeers.toFinset)
      else (false, peers) := by
  rw [reservePaidPrunePeerBudget]
  by_cases hfits : FitsPeerBudget targetPeers peers
  · rw [if_pos hfits, if_neg (Nat.not_lt.mpr hfits)]
  · rw [if_neg hfits, if_pos (Nat.lt_of_not_le hfits)]

section Visit

variable (hremote : ctx.allowRemotePruneAudits = true)
  (hprunable : Prunable ctx paidKeys group world) (hgroup : ∀ key ∈ paidKeys, group key ≠ [])
include hremote hprunable hgroup

theorem evaluatePaidPruneKey_prunable {key : H} (hkey : key ∈ paidKeys) (count : Nat)
    (peers : Finset H) :
    evaluatePaidPruneKey ctx key world.now count peers world =
      if maxPaidPruneVerificationsPerPass ≤ count then (.entryBudgetDeferred, peers, world)
      else if FitsPeerBudget (group key) peers then
        (.candidate (group key), peers ∪ (group key).toFinset, world)
      else (.peerBudgetDeferred, peers, world) := by
  obtain ⟨firstSeen, hseen, helapsed⟩ := hprunable.expired key hkey
  have hselect : selectPaidPruneCandidate (group key) ctx.selfId ctx.allowRemotePruneAudits count
      peers =
      if maxPaidPruneVerificationsPerPass ≤ count then (.entryBudgetDeferred, peers)
      else if FitsPeerBudget (group key) peers then
        (.candidate (group key), peers ∪ (group key).toFinset)
      else (.peerBudgetDeferred, peers) := by
    rw [selectPaidPruneCandidate, hremote, hprunable.remoteCloseGroupPeers hkey]
    simp only [Bool.not_true, Bool.false_eq_true, if_false, reservePaidPrunePeerBudget_eq]
    rw [if_neg (hgroup key hkey)]
    by_cases hentry : maxPaidPruneVerificationsPerPass ≤ count
    · rw [if_pos hentry, if_pos hentry]
    · rw [if_neg hentry, if_neg hentry]
      by_cases hfits : FitsPeerBudget (group key) peers <;> simp [hfits]
  rw [evaluatePaidPruneKey, hprunable.closest key hkey]
  dsimp only
  rw [if_neg (hprunable.outOfRange key hkey), hprunable.setPaidOutOfRange hkey, hseen]
  dsimp only
  rw [if_neg (Nat.not_lt.mpr helapsed), hselect]
  split_ifs <;> rfl

theorem visit_of_fits {scan : PaidPruneScan H} {key : H} (hkey : key ∈ paidKeys) (offset : Nat)
    (hworld : scan.world = world)
    (hentry : scan.expiredCandidates.length < maxPaidPruneVerificationsPerPass)
    (hfits : FitsPeerBudget (group key) scan.selectedVerificationPeers) :
    scan.visit ctx world.now offset key =
      { world := world
        expiredCandidates := scan.expiredCandidates ++ [(key, group key)]
        selectedVerificationPeers := scan.selectedVerificationPeers ∪ (group key).toFinset
        lastSelectedOffset := some offset } := by
  rw [visit, hworld, evaluatePaidPruneKey_prunable hremote hprunable hgroup hkey,
    if_neg (Nat.not_le.mpr hentry), if_pos hfits]

theorem visit_of_deferred {scan : PaidPruneScan H} {key : H} (hkey : key ∈ paidKeys) (offset : Nat)
    (hworld : scan.world = world)
    (hdeferred : maxPaidPruneVerificationsPerPass ≤ scan.expiredCandidates.length ∨
      ¬FitsPeerBudget (group key) scan.selectedVerificationPeers) :
    scan.visit ctx world.now offset key = scan := by
  rw [visit, hworld, evaluatePaidPruneKey_prunable hremote hprunable hgroup hkey]
  by_cases hentry : maxPaidPruneVerificationsPerPass ≤ scan.expiredCandidates.length
  · rw [if_pos hentry, ← hworld]
  · rw [if_neg hentry, if_neg (hdeferred.resolve_left hentry), ← hworld]

/-- Where everything left is deferred, the scan ends as it is. -/
theorem visitAll_of_deferred {scan : PaidPruneScan H} {rest : List H} (hrest : rest ⊆ paidKeys)
    (offset : Nat) (hworld : scan.world = world)
    (hdeferred : ∀ key ∈ rest, maxPaidPruneVerificationsPerPass ≤ scan.expiredCandidates.length ∨
      ¬FitsPeerBudget (group key) scan.selectedVerificationPeers) :
    visitAll ctx world.now offset rest scan = scan := by
  induction rest generalizing offset with
  | nil => rfl
  | cons key rest ih =>
      obtain ⟨hkey, hrest⟩ := List.cons_subset.mp hrest
      rw [visitAll, visit_of_deferred hremote hprunable hgroup hkey offset hworld
        (hdeferred key (by simp))]
      exact ih hrest (offset + 1) fun key hkey => hdeferred key (by simp [hkey])

end Visit

/-- No key of the scan is overtaken: where its group does not fit beside the groups of all keys
before it, with the entry budget not used up, no later group fits there either. -/
def NoneOvertaken (groups : List (List H)) : Prop :=
  ∀ i < groups.length, i < maxPaidPruneVerificationsPerPass →
    ¬FitsPeerBudget (groups.getD i []) (groups.take i).flatten.toFinset →
    ∀ later ∈ groups.drop (i + 1), ¬FitsPeerBudget later (groups.take i).flatten.toFinset

instance (groups : List (List H)) : Decidable (NoneOvertaken groups) :=
  inferInstanceAs (Decidable (∀ i < groups.length, i < maxPaidPruneVerificationsPerPass →
    ¬FitsPeerBudget (groups.getD i []) (groups.take i).flatten.toFinset →
    ∀ later ∈ groups.drop (i + 1), ¬FitsPeerBudget later (groups.take i).flatten.toFinset))

theorem NoneOvertaken.later {before later : List (List H)} {targetPeers : List H}
    (hnone : NoneOvertaken (before ++ targetPeers :: later))
    (hentry : before.length < maxPaidPruneVerificationsPerPass)
    (hfits : ¬FitsPeerBudget targetPeers before.flatten.toFinset) :
    ∀ overtaking ∈ later, ¬FitsPeerBudget overtaking before.flatten.toFinset := by
  have hspec := hnone before.length (by simp) hentry
  rw [List.take_left, List.drop_append, List.drop_of_length_le (by omega)] at hspec
  simpa using hspec (by simpa using hfits)

/-- The scan after it has selected all of these keys. -/
def selectedAll (world : PruneWorld H) (group : H → List H) (visited : List H) : PaidPruneScan H where
  world := world
  expiredCandidates := visited.map fun key => (key, group key)
  selectedVerificationPeers := (visited.map group).flatten.toFinset
  lastSelectedOffset := if visited = [] then none else some (visited.length - 1)

theorem visitAll_noneOvertaken (hremote : ctx.allowRemotePruneAudits = true)
    (hprunable : Prunable ctx paidKeys group world) (hgroup : ∀ key ∈ paidKeys, group key ≠ [])
    (visited : List H) {rest : List H} (hkeys : visited ++ rest ⊆ paidKeys)
    (hnone : NoneOvertaken ((visited ++ rest).map group)) :
    ∃ more, more <+: rest ∧ visitAll ctx world.now visited.length rest
      (selectedAll world group visited) = selectedAll world group (visited ++ more) := by
  induction rest generalizing visited with
  | nil => exact ⟨[], List.prefix_rfl, by simp [visitAll]⟩
  | cons key rest ih =>
      have hkey : key ∈ paidKeys := hkeys (by simp)
      have hdeferred : (∀ other ∈ key :: rest,
          maxPaidPruneVerificationsPerPass ≤ visited.length ∨
            ¬FitsPeerBudget (group other) (visited.map group).flatten.toFinset) →
          visitAll ctx world.now visited.length (key :: rest) (selectedAll world group visited) =
            selectedAll world group visited := fun hall =>
        visitAll_of_deferred hremote hprunable hgroup (List.append_subset.mp hkeys).2 _ rfl
          (by simpa [selectedAll] using hall)
      by_cases hentry : maxPaidPruneVerificationsPerPass ≤ visited.length
      · exact ⟨[], List.nil_prefix, by simpa using hdeferred fun _ _ => .inl hentry⟩
      · by_cases hfits : FitsPeerBudget (group key) (visited.map group).flatten.toFinset
        · have hvisit : (selectedAll world group visited).visit ctx world.now visited.length key =
              selectedAll world group (visited ++ [key]) := by
            rw [visit_of_fits hremote hprunable hgroup hkey _ rfl
              (by simpa [selectedAll] using Nat.lt_of_not_le hentry) hfits]
            simp [selectedAll]
          have hsplit : visited ++ key :: rest = (visited ++ [key]) ++ rest := by simp
          rw [hsplit] at hkeys hnone
          obtain ⟨more, hmore, hend⟩ := ih (visited ++ [key]) hkeys hnone
          refine ⟨key :: more, List.cons_prefix_cons.mpr ⟨rfl, hmore⟩, ?_⟩
          rw [visitAll, hvisit]
          simpa using hend
        · refine ⟨[], List.nil_prefix, ?_⟩
          rw [List.map_append, List.map_cons] at hnone
          have hlater := hnone.later (by simpa using Nat.lt_of_not_le hentry) hfits
          rw [List.append_nil]
          refine hdeferred fun other hother => .inr ?_
          rcases List.mem_cons.mp hother with rfl | hother
          · exact hfits
          · exact hlater (group other) (List.mem_map_of_mem hother)

/-- A pass that overtakes no key selects the first keys of its scan, at least one. -/
theorem scanPaidKeys_noneOvertaken (hremote : ctx.allowRemotePruneAudits = true)
    (hprunable : Prunable ctx paidKeys group world)
    (hgroup : ∀ key ∈ paidKeys, group key ≠ [] ∧
      (group key).length ≤ maxPaidPruneVerificationPeersPerPass)
    {cursor : Nat} (hne : paidKeys ≠ [])
    (hnone : NoneOvertaken
      ((paidKeys.rotate (paidPruneScanStart cursor paidKeys.length)).map group)) :
    ∃ count, 0 < count ∧ count ≤ paidKeys.length ∧
      (scanPaidKeys ctx paidKeys cursor world).selectedKeys =
        (paidKeys.rotate (paidPruneScanStart cursor paidKeys.length)).take count ∧
      (scanPaidKeys ctx paidKeys cursor world).lastSelectedOffset = some (count - 1) := by
  rw [scanPaidKeys]
  have hsub : paidKeys.rotate (paidPruneScanStart cursor paidKeys.length) ⊆ paidKeys :=
    (List.rotate_perm paidKeys _).subset
  cases hscan : paidKeys.rotate (paidPruneScanStart cursor paidKeys.length) with
  | nil => exact absurd (List.rotate_eq_nil_iff.mp hscan) hne
  | cons first rest =>
      rw [hscan] at hsub hnone
      have hfirst : first ∈ paidKeys := hsub (by simp)
      have hvisit : (start world).visit ctx world.now 0 first = selectedAll world group [first] := by
        rw [visit_of_fits hremote hprunable (fun key hkey => (hgroup key hkey).1) hfirst 0 rfl
          (by simp [start, maxPaidPruneVerificationsPerPass])
          (by simpa [FitsPeerBudget, start] using (hgroup first hfirst).2)]
        simp [selectedAll, start]
      obtain ⟨more, hmore, hend⟩ := visitAll_noneOvertaken hremote hprunable
        (fun key hkey => (hgroup key hkey).1) [first] hsub hnone
      have hlength : (first :: rest).length = paidKeys.length := by rw [← hscan, List.length_rotate]
      have hmoreLength := hmore.length_le
      rw [List.length_cons] at hlength
      refine ⟨more.length + 1, by omega, by omega, ?_⟩
      rw [visitAll, hvisit, show 0 + 1 = ([first] : List H).length from rfl, hend]
      constructor
      · rw [List.take_succ_cons, ← List.prefix_iff_eq_take.mp hmore]
        simp [selectedKeys, selectedAll, Function.comp_def]
      · simp [selectedAll]

omit [Digest H] in
theorem paidPruneScanStart_eq_mod (cursor : Nat) (hne : paidKeys ≠ []) :
    paidPruneScanStart cursor paidKeys.length = cursor % paidKeys.length :=
  if_neg (List.length_pos_of_ne_nil hne).ne'

/-- The paid-list prune starves no entry as long as no pass lets one key overtake another: then
every key is selected once in as many passes as there are keys. -/
theorem paidPruneSelection_covers (hremote : ctx.allowRemotePruneAudits = true)
    (hgroup : ∀ key ∈ paidKeys, group key ≠ [] ∧
      (group key).length ≤ maxPaidPruneVerificationPeersPerPass)
    {worlds : Nat → PruneWorld H} {cursor : Nat}
    (hworlds : ∀ i < paidKeys.length, Prunable ctx paidKeys group (worlds i))
    (hnone : ∀ i < paidKeys.length, NoneOvertaken ((paidKeys.rotate (paidPruneScanStart
      (paidPruneCursorBefore ctx paidKeys worlds cursor i) paidKeys.length)).map group))
    {key : H} (hkey : key ∈ paidKeys) :
    ∃ i < paidKeys.length, key ∈ paidPruneSelection ctx paidKeys worlds cursor i := by
  have hne : paidKeys ≠ [] := List.ne_nil_of_mem hkey
  let before := paidPruneCursorBefore ctx paidKeys worlds cursor
  let start := fun i => paidPruneScanStart (before i) paidKeys.length
  let advanceBy := fun i => (scanPaidKeys ctx paidKeys (before i) (worlds i)).lastSelectedOffset.elim
    1 fun offset => offset + 1
  have hnext : ∀ i, start (i + 1) = (start i + advanceBy i) % paidKeys.length := by
    intro i
    have hcursor : before (i + 1) = (start i + advanceBy i) % paidKeys.length :=
      if_neg (List.length_pos_of_ne_nil hne).ne'
    calc start (i + 1) = before (i + 1) % paidKeys.length := paidPruneScanStart_eq_mod _ hne
      _ = (start i + advanceBy i) % paidKeys.length := by rw [hcursor, Nat.mod_mod]
  have hadvance : ∀ i < paidKeys.length, 0 < advanceBy i := by
    intro i _
    change 0 < Option.elim _ _ _
    cases (scanPaidKeys ctx paidKeys (before i) (worlds i)).lastSelectedOffset with
    | none => exact Nat.one_pos
    | some offset => exact Nat.succ_pos offset
  obtain ⟨k, hk, rfl⟩ := List.mem_iff_getElem.mp hkey
  obtain ⟨i, hi, j, hj, hplace⟩ := Rotation.exists_window hnext hadvance hk
  obtain ⟨count, hcount, hle, hselected, hlast⟩ :=
    scanPaidKeys_noneOvertaken hremote (hworlds i hi) hgroup hne (hnone i hi)
  have hcovers : j < count := by
    have hadvanceBy : advanceBy i = count - 1 + 1 := by
      change Option.elim _ _ _ = _
      rw [hlast]
      rfl
    omega
  have hget : (paidKeys.rotate (start i))[j]? = some paidKeys[k] := by
    rw [List.getElem?_rotate (by omega), Nat.add_comm, hplace, List.getElem?_eq_getElem hk]
  refine ⟨i, hi, ?_⟩
  rw [paidPruneSelection, hselected]
  apply List.mem_of_getElem? (i := j)
  rw [List.getElem?_take_of_lt hcovers]
  exact hget

/-! ### A key that is always overtaken

Twenty peers a group, as in production. The first and the last key share theirs, the one between
them has another: beside the first group it does not fit, the last one does. -/

namespace Transcript

def sharedGroup : List Transcript := (List.range 20).map fun i => ⟨[UInt8.ofNat i]⟩

def ownGroup : List Transcript := (List.range 20).map fun i => ⟨[UInt8.ofNat (i + 20)]⟩

def overtakenKeys : List Transcript := [⟨[100]⟩, ⟨[101]⟩, ⟨[102]⟩]

def overtakenGroup (key : Transcript) : List Transcript :=
  if key = ⟨[101]⟩ then ownGroup else sharedGroup

def paidPruner : PrunePassContext Transcript where
  selfId := ⟨[255]⟩
  config := ⟨7, 4, 20, 10⟩
  currentSyncEpoch := 1
  allowRemotePruneAudits := true

def overtakenSince : FiniteMap Transcript Nat :=
  ((Finmap.singleton ⟨[100]⟩ 5).insert ⟨[101]⟩ 5).insert ⟨[102]⟩ 5

def overtakenWorld (closest : Transcript → List Transcript) : PruneWorld Transcript where
  now := 30
  storage := ∅
  paidList := ⟨overtakenKeys.toFinset, ∅, overtakenSince⟩
  repairProofs := ⟨∅⟩
  routing := ⟨fun key _ => closest key, fun key _ => closest key⟩
  isHeld := fun _ => false

theorem overtakenWorld_prunable {closest : Transcript → List Transcript}
    (hself : ∀ key ∈ overtakenKeys, paidPruner.selfId ∉ closest key) :
    Prunable paidPruner overtakenKeys closest (overtakenWorld closest) where
  closest _ _ := rfl
  outOfRange := hself
  expired key hkey := by
    have hsince : ∀ key ∈ overtakenKeys, overtakenSince.lookup key = some 5 := by decide +kernel
    have helapsed : 10 ≤ 30 - 5 := by omega
    exact ⟨5, hsince key hkey, helapsed⟩

theorem paidPruneSelection_overtaken :
    paidPruner.allowRemotePruneAudits = true ∧
    (∀ key ∈ overtakenKeys, overtakenGroup key ≠ [] ∧
      (overtakenGroup key).length ≤ maxPaidPruneVerificationPeersPerPass) ∧
    (∀ i < overtakenKeys.length, Prunable paidPruner overtakenKeys overtakenGroup
      ((fun _ => overtakenWorld overtakenGroup) i)) ∧
    ⟨[101]⟩ ∈ overtakenKeys ∧
    ¬∃ i < overtakenKeys.length, ⟨[101]⟩ ∈ paidPruneSelection paidPruner overtakenKeys
      (fun _ => overtakenWorld overtakenGroup) 0 i := by
  refine ⟨rfl, by decide +kernel,
    fun i _ => overtakenWorld_prunable (by decide +kernel), by decide +kernel, by decide +kernel⟩

def thirdGroup : List Transcript := (List.range 20).map fun i => ⟨[UInt8.ofNat (i + 40)]⟩

def disjointGroup (key : Transcript) : List Transcript :=
  if key = ⟨[100]⟩ then sharedGroup else if key = ⟨[101]⟩ then ownGroup else thirdGroup

/-- With disjoint groups each pass selects one key. -/
theorem paidPruneSelection_covers_disjointGroup :
    ∃ i < overtakenKeys.length, ⟨[101]⟩ ∈ paidPruneSelection paidPruner overtakenKeys
      (fun _ => overtakenWorld disjointGroup) 0 i := by
  have hprunable : ∀ i < overtakenKeys.length, Prunable paidPruner overtakenKeys disjointGroup
      ((fun _ => overtakenWorld disjointGroup) i) :=
    fun i _ => overtakenWorld_prunable (by decide +kernel)
  exact paidPruneSelection_covers rfl (by decide +kernel) hprunable (by decide +kernel)
    (by decide +kernel)

end Transcript

end AntNode
