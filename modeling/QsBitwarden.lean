import QsBitwarden.Lib.Words
import QsBitwarden.Lib.Trace
import QsBitwarden.Lib.Table
import QsBitwarden.Lib.SshWire
import QsBitwarden.Agent.Protocol
import QsBitwarden.Agent.KeyStore
import QsBitwarden.Agent.KeyStoreRuns
import QsBitwarden.Agent.Approvals
import QsBitwarden.Agent.Load
import QsBitwarden.Agent.Server
import QsBitwarden.Agent.Loop
import QsBitwarden.Agent.Moves
import QsBitwarden.Agent.Refinement
import QsBitwarden.Agent.Iterations
import QsBitwarden.Agent.Burst
import QsBitwarden.Agent.Publication
import QsBitwarden.Agent.Conservation
import QsBitwarden.Agent.Provenance
import QsBitwarden.Agent.Signing
import QsBitwarden.Agent.Forwarding
import QsBitwarden.Lib.Json
import QsBitwarden.Vault.Output
import QsBitwarden.Vault.Store
import QsBitwarden.Vault.Helper
import QsBitwarden.Vault.Generations
import QsBitwarden.Lib.Base64
import QsBitwarden.Unlock.Envelope
import QsBitwarden.Vault.Stripping
import QsBitwarden.Lib.Rows
import QsBitwarden.Unlock.Edits
import QsBitwarden.Unlock.Ledger
import QsBitwarden.Lib.JsonText
import QsBitwarden.Unlock.ReadBack
import QsBitwarden.Vault.Index
import QsBitwarden.Agent.Prompts
import QsBitwarden.Agent.Withdrawal
import QsBitwarden.Vault.Processes
import QsBitwarden.Vault.Signals
import QsBitwarden.Panel.SshPrompts
import QsBitwarden.Panel.Clicks
import QsBitwarden.Panel.Reads
import QsBitwarden.Panel.Answers
import QsBitwarden.Panel.Restarts
import QsBitwarden.Panel.AgentProcess
import QsBitwarden.Panel.Exits
import QsBitwarden.Panel.SessionKeys
import QsBitwarden.Lib.Double
import QsBitwarden.Lib.Utf8
import QsBitwarden.Vault.Totp
import QsBitwarden.Panel.TotpModel
import QsBitwarden.Panel.TotpCodes
import QsBitwarden.Lib.Js
import QsBitwarden.Panel.Items
import QsBitwarden.Panel.PublicView
import QsBitwarden.Vault.Secrets
import QsBitwarden.Panel.Revealed
import QsBitwarden.Panel.Search
import QsBitwarden.Panel.ItemForm
import QsBitwarden.Panel.Edits
import QsBitwarden.Panel.BwRuns
import QsBitwarden.Panel.RunAnswers
import QsBitwarden.Agent.Payloads
import QsBitwarden.Lib.JsonRead
import QsBitwarden.Lib.JsonScan
import QsBitwarden.Agent.Grammar
import QsBitwarden.Agent.GrantRule
import QsBitwarden.Unlock.Binding
import QsBitwarden.Panel.Accounts
import QsBitwarden.Panel.TwoFactor
import QsBitwarden.Unlock.KeyringRepair
import QsBitwarden.Unlock.Repaired
import QsBitwarden.Vault.Requests
import QsBitwarden.Vault.Replies
import QsBitwarden.Lib.Shell
import QsBitwarden.Panel.Commands
import QsBitwarden.Vault.Pinentry
import QsBitwarden.Lib.JsBits
import QsBitwarden.Lib.Sha
import QsBitwarden.Panel.Hashes
import QsBitwarden.Panel.Domains
import QsBitwarden.Panel.Associations
import QsBitwarden.Panel.Suggestions
import QsBitwarden.Panel.LineField
import QsBitwarden.Panel.Reports
import QsBitwarden.Vault.PinentrySession
