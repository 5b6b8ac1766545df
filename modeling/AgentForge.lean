import AgentForge.Domain.Layers
import AgentForge.Agents.ExecutorAgent
import AgentForge.Agents.LlmHelpers
import AgentForge.Evals.Scorers
import AgentForge.Guarantees.Accounts
import AgentForge.Guarantees.Activation
import AgentForge.Guarantees.Appends
import AgentForge.Guarantees.Budgets
import AgentForge.Guarantees.Compensations
import AgentForge.Guarantees.Convergence
import AgentForge.Guarantees.Costs
import AgentForge.Guarantees.Custody
import AgentForge.Guarantees.DeadLetters
import AgentForge.Guarantees.Decisions
import AgentForge.Guarantees.Escalations
import AgentForge.Guarantees.Exclusion
import AgentForge.Guarantees.FailedRollbacks
import AgentForge.Guarantees.Fencing
import AgentForge.Guarantees.Idling
import AgentForge.Guarantees.Intents
import AgentForge.Guarantees.OutboxOrder
import AgentForge.Guarantees.Replay
import AgentForge.Guarantees.Resuming
import AgentForge.Guarantees.Skipping
import AgentForge.Guarantees.Wakeups
import AgentForge.Store.Appending
import AgentForge.Store.SnapshotReads
