import RlsTenants.Lib.Effect
import RlsTenants.Lib.Txn
import RlsTenants.Lib.Run
import RlsTenants.Lib.ContextVar
import RlsTenants.Lib.Sql
import RlsTenants.Lib.Lexer
import RlsTenants.Lib.Template
import RlsTenants.Spec.Tracker
import RlsTenants.Spec.Statement
import RlsTenants.Spec.Postgres
import RlsTenants.Spec.Guard
import RlsTenants.Spec.Grammar
import RlsTenants.Spec.Session
import RlsTenants.Spec.Blocks
import RlsTenants.Spec.Holder
import RlsTenants.Spec.Hops
import RlsTenants.Spec.Celery
import RlsTenants.Spec.Selection
import RlsTenants.Spec.PolicySql
import RlsTenants.Spec.Models
import RlsTenants.Spec.Policies
import RlsTenants.Spec.TablePolicy
import RlsTenants.Spec.M2m
import RlsTenants.Proof.Holders
import RlsTenants.Proof.Frames
import RlsTenants.Proof.Record
import RlsTenants.Proof.Messages
import RlsTenants.Proof.Sound
import RlsTenants.Proof.Guard
import RlsTenants.Proof.Reading
import RlsTenants.Proof.Follow
import RlsTenants.Proof.Plain
import RlsTenants.Proof.Reads
import RlsTenants.Proof.Outside
import RlsTenants.Proof.LeftOpen
import RlsTenants.Proof.Hops
import RlsTenants.Proof.Celery
import RlsTenants.Proof.Selection
import RlsTenants.Proof.PolicySql
import RlsTenants.Proof.Policies
import RlsTenants.Proof.M2m
import RlsTenants.Proof.M2mAgree
import RlsTenants.Proof.Sharing
import RlsTenants.Proof.Validation
import RlsTenants.Proof.Signals
import RlsTenants.Proof.Iteration
import RlsTenants.Proof.GucBlocks
import RlsTenants.Proof.M2mPlan
import RlsTenants.Proof.Combined
import RlsTenants.Proof.SelectRelated
import RlsTenants.Proof.Serializer
import RlsTenants.Proof.PolicyText
import RlsTenants.Proof.Audit
import RlsTenants.Proof.Migrations
import RlsTenants.Proof.AuditBlocks
import RlsTenants.Proof.WorkersEnd
import RlsTenants.Proof.Exempt
import RlsTenants.Proof.OwnTransaction
import RlsTenants.Proof.ThreadRuns
import RlsTenants.Proof.GucWrites
import RlsTenants.Proof.SessionMode
import RlsTenants.Proof.ThreadBlocks
import RlsTenants.Proof.BlockRuns
import RlsTenants.Proof.ExitRecords
import RlsTenants.Proof.Nesting
import RlsTenants.Proof.SessionWrites
