import AntNode.Digest

/-!
# The holder-eligibility cache

Which peers recently proved storage of which key, and under which commitment. A bucket that the map
does not hold and an empty bucket answer every question alike, so the map is a total function here;
the counts `sweep_expired` returns for its log line are left out.
-/

namespace AntNode

variable {H : Type} [Digest H]

def maxProversPerKey : Nat := 16

def proverEntryTtl : Nat := 40 * 60 * 1000000000

structure ProverEntry (H : Type) where
  peerId : H
  provedAt : Nat
  commitmentHash : H
  deriving DecidableEq

structure RecentProvers (H : Type) where
  entries : H → List (ProverEntry H)

namespace RecentProvers

def new : RecentProvers H := ⟨fun _ => []⟩

def sortByProvedAt (bucket : List (ProverEntry H)) : List (ProverEntry H) :=
  bucket.insertionSort fun a b => a.provedAt ≤ b.provedAt

def refresh (peerId commitmentHash : H) (provedAt : Nat) :
    List (ProverEntry H) → Option (List (ProverEntry H))
  | [] => none
  | e :: rest =>
      if e.peerId = peerId ∧ e.commitmentHash = commitmentHash then
        some ({ e with provedAt := provedAt } :: rest)
      else (refresh peerId commitmentHash provedAt rest).map (e :: ·)

def recordInBucket (peerId commitmentHash : H) (provedAt : Nat) (bucket : List (ProverEntry H)) :
    List (ProverEntry H) :=
  match refresh peerId commitmentHash provedAt bucket with
  | some refreshed => sortByProvedAt refreshed
  | none =>
      -- at the cap the oldest entry, the first one, makes room
      let bucket := if maxProversPerKey ≤ bucket.length then bucket.drop 1 else bucket
      sortByProvedAt (bucket ++ [⟨peerId, provedAt, commitmentHash⟩])

def recordProof (provers : RecentProvers H) (key peerId commitmentHash : H) (provedAt : Nat) :
    RecentProvers H :=
  ⟨Function.update provers.entries key
    (recordInBucket peerId commitmentHash provedAt (provers.entries key))⟩

def isCreditedHolder (provers : RecentProvers H) (key peerId currentCommitmentHash : H)
    (now : Nat) : Bool :=
  (provers.entries key).any fun e =>
    decide (e.peerId = peerId ∧ e.commitmentHash = currentCommitmentHash ∧
      now - e.provedAt < proverEntryTtl)

def retain (provers : RecentProvers H) (keep : ProverEntry H → Bool) : RecentProvers H :=
  ⟨fun key => (provers.entries key).filter keep⟩

def sweepExpired (provers : RecentProvers H) (now : Nat) : RecentProvers H :=
  provers.retain fun e => decide (now - e.provedAt < proverEntryTtl)

def forgetPeer (provers : RecentProvers H) (peerId : H) : RecentProvers H :=
  provers.retain fun e => decide (e.peerId ≠ peerId)

def forgetCommitment (provers : RecentProvers H) (staleHash : H) : RecentProvers H :=
  provers.retain fun e => decide (e.commitmentHash ≠ staleHash)

end RecentProvers

end AntNode
