import Ratum.Abw.OnTime
import Ratum.Session.Disclosed
import Ratum.Base.Marks
import Ratum.Base.Suffix
import Ratum.Base.Handler
import Ratum.Datum.Share
import Ratum.Datum.ShareResponse
import Ratum.Ledger.Linearizable
import Ratum.Verify.CheckOutputs
import Ratum.Accounting.Conservation
import Ratum.Bitcoin.Script
import Ratum.Core.Target
import Ratum.Core.Header
import Ratum.Ledger.Widening
import Ratum.Ledger.RecordRows
import Ratum.Ledger.Records
import Ratum.Ledger.RecordRuns
import Ratum.Datum.Abw
import Ratum.Gateway.SlotViews
import Ratum.Bitcoin.Address
import Ratum.Core.Username
import Ratum.Gateway.Username
import Ratum.Gateway.Job
import Ratum.Gateway.Submissions
import Ratum.Gateway.SubmittedOnce
import Ratum.Gateway.Builder
import Ratum.Gateway.SplitRequests
import Ratum.Gateway.CreditedUsername
import Ratum.Verify.Verify
import Ratum.Gateway.SendShare
import Ratum.Gateway.Publications
import Ratum.Gateway.Sections
import Ratum.Base.Portions
import Ratum.Ledger.ExactSplit
import Ratum.Ledger.WholeShares
import Ratum.Ledger.Retention
import Ratum.Ledger.WholeBatch
import Ratum.Verify.Runs
import Ratum.Verify.StaleVerdict
import Ratum.Base.Sums
import Ratum.Verify.InstalledBytes
import Ratum.Verify.HeldTxns
import Ratum.Verify.SplitIds
import Ratum.Base.Traces
import Ratum.Gateway.Poller
import Ratum.Gateway.WorkRequests
import Ratum.Core.Forgetting
import Ratum.Relay.Shares
import Ratum.Relay.Relay
import Ratum.Relay.RelayedOnce
import Ratum.Gateway.SessionShares
import Ratum.Gateway.OwnSession
import Ratum.Relay.BlockRoot
import Ratum.Verify.BuiltAccepted
import Ratum.Datum.CoinbaseFits
import Ratum.Datum.ShareFixedPoint
import Ratum.Datum.NoncesDistinct
import Ratum.Datum.Delivered
import Ratum.Datum.Bulk
import Ratum.Ledger.ConfirmedInTurn
import Ratum.Verify.MaskedBlocks
import Ratum.Gateway.OneDifficulty
import Ratum.Gateway.PoolRotation
import Ratum.Datum.CoinbaserWire
import Ratum.Relay.Targets
import Ratum.Relay.JobTxns
import Ratum.Datum.ScriptSigRead
import Ratum.Http.Request
import Ratum.Bitcoin.OneIdentity
import Ratum.Accounting.OwedRuns
import Ratum.Connection.Claims
import Ratum.Accounting.AcceptedHashes
import Ratum.Connection.Server
import Ratum.Connection.Released
import Ratum.Connection.Dropped
import Ratum.Accounting.HeldHashes
import Ratum.Bitcoin.CoinbaseRead
import Ratum.Relay.WitnessReserved
import Ratum.Gateway.NotifiedWork
import Ratum.Verify.RebuiltWork
import Ratum.Connection.Unjudged
import Ratum.Connection.CreditedOnce
import Ratum.Core.NonceSearch
import Ratum.Gateway.FailedLogins
import Ratum.Datum.FrameReads
import Ratum.Gateway.LineReader
import Ratum.Gateway.JudgedAsServed
import Ratum.Connection.ValidatedCredit
import Ratum.Gateway.SettingsSaves
import Ratum.Connection.NodeWatch
import Ratum.Verify.TxnCache
