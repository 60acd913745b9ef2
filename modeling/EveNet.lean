import EveNet.CallProgram
import EveNet.TextSearch
import EveNet.KeyedList
import EveNet.Validate
import EveNet.DnsCache
import EveNet.Reconcile
import EveNet.PolicyChain
import EveNet.FwmarkRules
import EveNet.Interleaving
import EveNet.CacheWriters
import EveNet.CacheRuns
import EveNet.CacheBook
import EveNet.DnsWire
import EveNet.DnsSections
import EveNet.DnsProxy
import EveNet.ProxyReplies
import EveNet.ProxyCache
import EveNet.ProxyToChain
import EveNet.UpstreamSockets
import EveNet.Staleness
import EveNet.Delivered
import EveNet.PolicyNames
import EveNet.RuleListing
import EveNet.RoundEffects
import EveNet.Cleanup
import EveNet.RepeatedRounds
import EveNet.ConfigJson
import EveNet.JsonNumbers
import EveNet.RenumberedConfig
import EveNet.Machine
import EveNet.StatusCommands
import EveNet.Commands
import EveNet.DryRun
import EveNet.JsonText
import EveNet.CacheText
import EveNet.TornSave
import EveNet.WireFormat
import EveNet.WireReaders
import EveNet.QueryNames
import EveNet.ErrorResponses
import EveNet.NoPanic
import EveNet.UpstreamOrder
import EveNet.FailClosed
import EveNet.MatchedPackets
import EveNet.CacheForm
import EveNet.Outcomes
import EveNet.PythonText
import EveNet.HostDns
import EveNet.HostDnsRestore
import EveNet.HostDnsFailures
import EveNet.HostDnsRollback
import EveNet.DirectEgresses
import EveNet.Hostnames
import EveNet.RoundFailures
import EveNet.CacheViews
import EveNet.RuleStatus
import EveNet.JsonEdits
import EveNet.RefreshedConfig
import EveNet.RefreshedFile
import EveNet.ConfigEditors
import EveNet.EditedConfig
import EveNet.EditorsAccepted
import EveNet.EditedNumbers
import EveNet.Paths
import EveNet.SharedLists
import EveNet.PriorityRules
import EveNet.PacketRouting
import EveNet.WorkingRounds
import EveNet.ConcurrentRounds
import EveNet.AddressOrigins
import EveNet.ValidationReport
import EveNet.SettingsEditors
import EveNet.EditedSettings
import EveNet.JustifiedRules
import EveNet.SettingsEffects
import EveNet.AddedPolicy
import EveNet.ProgramViews
import EveNet.ServedConfig
import EveNet.Reloads
