import DocVault.AuditTamper
import DocVault.SignedChain
import DocVault.AppendVerify
import DocVault.EpochSound
import DocVault.StatusGuards
import DocVault.WorkflowHistory
import DocVault.ApprovalChain
import DocVault.DlpFloor
import DocVault.VersionNumbers
import DocVault.ObjectKeys
import DocVault.Visibility
import DocVault.ClientAgreement
import DocVault.ShareLinkOpens
import DocVault.OrgAdmins
import DocVault.OrgMembership
import DocVault.OrgCache
import DocVault.GrantRotation
import DocVault.GrantSound
import DocVault.ContentClosed
import DocVault.TenantLeaks
import DocVault.LegalHold
import DocVault.RepairSound
import DocVault.AuditDrillDown
import DocVault.VerifyLimit
import DocVault.MetadataStored
import DocVault.BehaviorSound
import DocVault.ContentAudit
import DocVault.AclEntries
import DocVault.TrashWindow
import DocVault.RiskyDocuments
import DocVault.RetentionRun
import DocVault.Redaction
import DocVault.AuthForwarding
import DocVault.StepUpSound
import DocVault.SplitRuns
import DocVault.SearchAgreement
import DocVault.NotificationRetention
import DocVault.NotificationScope
import DocVault.SearchSuggestions
import DocVault.FolderCounts
import DocVault.SavedViewStorage
import DocVault.WorkflowButtons
import DocVault.ActivityFeed
import DocVault.RecommendationHistory
import DocVault.SignalBands
import DocVault.CommandCenter
import DocVault.PolicyViews
import DocVault.UnreadBadge
import DocVault.Mentions
import DocVault.MentionNotices
import DocVault.ScanStream
import DocVault.ActorNames
import DocVault.GroupNames
import DocVault.PacketNames
import DocVault.EvidenceReport
import DocVault.DeferredAction
import DocVault.AuditMigration
import DocVault.AuditMigrationRuns
import DocVault.TamperDemo
import DocVault.Ledger
import DocVault.CommentRuns
import DocVault.AclRuns
import DocVault.AccessReview
import DocVault.SharedAccess
import DocVault.SessionOrigin
import DocVault.ApprovalRuns
import DocVault.WorkflowNotices
import DocVault.ExplainedDenials
