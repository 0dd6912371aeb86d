import AntNode.Proof.AuditAdmission
import AntNode.Proof.AuditCooldown
import AntNode.Proof.AuditNotice
import AntNode.Proof.ClearedSource
import AntNode.Proof.ClosenessCache
import AntNode.Proof.CommittedDeletion
import AntNode.Proof.CrossCheck
import AntNode.Proof.Downgrade
import AntNode.Proof.EarlyDrain
import AntNode.Proof.EarnedCredit
import AntNode.Proof.FetchRate
import AntNode.Proof.FirstAudit
import AntNode.Proof.HintAdmission
import AntNode.Proof.HolderCredit
import AntNode.Proof.KeptKeys
import AntNode.Proof.Linearisation
import AntNode.Proof.MissedDrain
import AntNode.Proof.PaidPruneFairness
import AntNode.Proof.PossessionCheck
import AntNode.Proof.ProofSize
import AntNode.Proof.ReleaseSelection
import AntNode.Proof.ResizeExclusion
import AntNode.Proof.ResponsibleAudit
import AntNode.Proof.RestartGrace
import AntNode.Proof.RootIdentity
import AntNode.Proof.SharedBinary
import AntNode.Proof.StagedRollout
import AntNode.Proof.SyncHints
import AntNode.Proof.WritePath
