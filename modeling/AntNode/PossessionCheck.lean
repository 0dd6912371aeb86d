import AntNode.NeighborSync
import AntNode.ResponsibleAudit

/-!
# Possession checks

Some minutes after a node has offered a chunk to the peers of its close group, it asks each of them to
prove that it holds the chunk: the peer has to digest the chunk together with a fresh nonce and its own
name, and the node compares with its own copy. A peer that cannot is penalised, and so is one that does
not answer; one that claims to be bootstrapping has the grace that all claims share.

Any number of checks run at once, each one peer after the other, and beside them the rest of the node
works on the same record of bootstrap claims. What is read of the own copy, and what a peer answers, is
part of the event. The delay before a check, the deadline of a probe and the logging are left out.
-/

namespace AntNode

inductive ProbeOutcome where
  | present
  | failed
  | timeout
  | bootstrapClaim
  | inconclusive
  deriving DecidableEq

/-- What comes of a probe: it cannot be encoded, nothing comes back, something that does not decode or
another message does, or an audit response. -/
inductive ProbeReply (H : Type) where
  | unencodable
  | noResponse
  | undecodable
  | otherMessage
  | auditResponse (response : AuditResponse H)
  deriving DecidableEq

/-- The weights of a failure report. -/
inductive TrustWeight where
  | auditFailure
  | replication
  deriving DecidableEq

structure PossessionCheckEvent (H : Type) where
  key : H
  peers : List H

/-- A check under way: its key, its copy of the chunk, and the peers that are still to be probed. -/
structure RunningCheck (H : Type) where
  key : H
  localBytes : Bytes
  peers : List H

structure Probe (H : Type) where
  challengeId : UInt64
  nonce : Nonce
  reply : ProbeReply H

structure PossessionNode (H : Type) where
  syncState : NeighborSyncState H
  checks : Nat → Option (RunningCheck H)
  reports : List (H × TrustWeight)

inductive PossessionEvent (H : Type) where
  | start (id : Nat) (event : PossessionCheckEvent H) (read : Except String (Option Bytes))
  | probe (id : Nat) (now : Nat) (probe : Probe H)
  | shutdown (id : Nat)
  | elsewhere (op : NeighborSyncState.Op H)

variable {H : Type} [Digest H]

def interpretAuditResponse (key : H) (localBytes : Bytes) (challengedPeerId : H) (nonce : Nonce)
    (challengeId : UInt64) : AuditResponse H → ProbeOutcome
  | .digests respId digests =>
      if respId ≠ challengeId then .failed
      else
        match digests with
        | [received] =>
            if received = absentKeyDigest then .failed
            else if received = computeAuditDigest nonce challengedPeerId key localBytes then .present
            else .failed
        | _ => .failed
  | .bootstrapping respId => if respId = challengeId then .bootstrapClaim else .failed
  | .rejected _ _ => .failed

def probeOnce (key : H) (localBytes : Bytes) (peer : H) (probe : Probe H) : ProbeOutcome :=
  match probe.reply with
  | .unencodable => .inconclusive
  | .noResponse => .timeout
  | .undecodable => .failed
  | .otherMessage => .failed
  | .auditResponse response =>
      interpretAuditResponse key localBytes peer probe.nonce probe.challengeId response

namespace PossessionNode

def new (neighbors : List H) : PossessionNode H := ⟨.newCycle neighbors, fun _ => none, []⟩

def clearPossessionBootstrapClaim (s : PossessionNode H) (peer : H) : PossessionNode H :=
  { s with syncState := (s.syncState.clearActiveBootstrapClaim peer).2 }

def report (s : PossessionNode H) (peer : H) (weight : TrustWeight) : PossessionNode H :=
  { s with reports := s.reports ++ [(peer, weight)] }

def reportPossessionAuditFailure (s : PossessionNode H) (peer : H) : PossessionNode H :=
  s.report peer .auditFailure

def handlePossessionBootstrapClaim (s : PossessionNode H) (peer : H) (now gracePeriod : Nat) :
    PossessionNode H :=
  let (observation, syncState) := s.syncState.observeBootstrapClaim peer now gracePeriod
  let s := { s with syncState := syncState }
  match observation with
  | .withinGrace _ => s
  | .pastGrace _ => s.report peer .replication
  | .repeated _ => s.report peer .replication

/-- One turn of the loop over the peers. -/
def checkPeer (s : PossessionNode H) (gracePeriod now : Nat) (peer : H) :
    ProbeOutcome → PossessionNode H
  | .present => s.clearPossessionBootstrapClaim peer
  | .failed => (s.clearPossessionBootstrapClaim peer).reportPossessionAuditFailure peer
  | .timeout => s.reportPossessionAuditFailure peer
  | .bootstrapClaim => s.handlePossessionBootstrapClaim peer now gracePeriod
  | .inconclusive => s

def setCheck (s : PossessionNode H) (id : Nat) (check : Option (RunningCheck H)) :
    PossessionNode H :=
  { s with checks := Function.update s.checks id check }

/-- A check whose own copy is gone or cannot be read asks nobody. -/
def runPossessionCheck (event : PossessionCheckEvent H) (read : Except String (Option Bytes)) :
    Option (RunningCheck H) :=
  match read with
  | .ok (some bytes) => some ⟨event.key, bytes, event.peers⟩
  | .ok none => none
  | .error _ => none

def step (gracePeriod : Nat) (s : PossessionNode H) : PossessionEvent H → Option (PossessionNode H)
  | .start id event read =>
      if (s.checks id).isNone then some (s.setCheck id (runPossessionCheck event read)) else none
  | .probe id now probe =>
      match s.checks id with
      | some ⟨key, localBytes, peer :: rest⟩ =>
          some ((s.checkPeer gracePeriod now peer (probeOnce key localBytes peer probe)).setCheck id
            (some ⟨key, localBytes, rest⟩))
      | _ => none
  | .shutdown id => some (s.setCheck id none)
  | .elsewhere op => some { s with syncState := s.syncState.apply op }

end PossessionNode

end AntNode
