import BbzPlatform.RuleDsl.Malformed
import BbzPlatform.Workflow.ChoiceJoin
import BbzPlatform.Workflow.Conditions
import BbzPlatform.Workflow.Loops
import BbzPlatform.Workflow.Concurrent
import BbzPlatform.Workflow.Completion
import BbzPlatform.Workflow.TaskSettling
import BbzPlatform.Workflow.ConditionContext
import BbzPlatform.Events.Threads
import BbzPlatform.Commands.Once
import BbzPlatform.Commands.Requests
import BbzPlatform.Audit.Sealing
import BbzPlatform.Outbox.Deliveries
import BbzPlatform.Outbox.Punctual
import BbzPlatform.Triggers.Recovery
import BbzPlatform.Triggers.Lifecycle
import BbzPlatform.Triggers.Nodes
import BbzPlatform.Events.Reactivation
import BbzPlatform.Access.Delegation
import BbzPlatform.Access.Stamp
import BbzPlatform.Access.SingleUse
import BbzPlatform.Access.GroupMapping
import BbzPlatform.Access.Linking
import BbzPlatform.Access.CsrfToken
import BbzPlatform.Access.CsrfRaising
import BbzPlatform.Doors.Target
import BbzPlatform.Doors.Outcome
import BbzPlatform.Redaction
import BbzPlatform.Integrations.Providers
import BbzPlatform.Telephony.Stored
import BbzPlatform.Telephony.Queued
import BbzPlatform.Telephony.Pump
import BbzPlatform.EventLog.Validity
import BbzPlatform.Inbox.Keys
import BbzPlatform.Api.BodyLimit
import BbzPlatform.Contacts.Callers
