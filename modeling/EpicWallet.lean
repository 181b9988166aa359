import EpicWallet.Lib.Prog
import EpicWallet.Lib.Rows
import EpicWallet.Lib.Json
import EpicWallet.Lib.Sql
import EpicWallet.Lib.Triple
import EpicWallet.Lib.Steps
import EpicWallet.Libwallet.Types
import EpicWallet.Impls.Db
import EpicWallet.Impls.BatchSession
import EpicWallet.Libwallet.Slate
import EpicWallet.Libwallet.Selection
import EpicWallet.Libwallet.Updater
import EpicWallet.Libwallet.Tx
import EpicWallet.Libwallet.Scan
import EpicWallet.Libwallet.Owner
import EpicWallet.Libwallet.Proof.Lock
import EpicWallet.Libwallet.Proof.FailedCalls
import EpicWallet.Libwallet.Proof.Receive
import EpicWallet.Libwallet.Proof.Touches
import EpicWallet.Libwallet.Proof.Coverage
import EpicWallet.Libwallet.Proof.Run
import EpicWallet.Libwallet.Proof.Height
import EpicWallet.Libwallet.Proof.Reward
import EpicWallet.Libwallet.Proof.Optimal
import EpicWallet.Libwallet.Proof.Placement
import EpicWallet.Libwallet.Proof.FreshId
import EpicWallet.Libwallet.Proof.LiveOutputs
import EpicWallet.Libwallet.Proof.Replay
import EpicWallet.Libwallet.Proof.ChildIndex
import EpicWallet.Libwallet.Proof.Restore
import EpicWallet.Libwallet.Proof.Log
import EpicWallet.Libwallet.Proof.Interleave
import EpicWallet.Libwallet.Proof.LostUpdate
import EpicWallet.Libwallet.Proof.Accounts
import EpicWallet.Libwallet.Proof.Excess
import EpicWallet.Libwallet.Proof.Exchange
import EpicWallet.Api.Updater
import EpicWallet.Api.Proof.UpdaterFlag
import EpicWallet.Lib.Schnorr
import EpicWallet.Libwallet.Curve
import EpicWallet.Libwallet.Proof.Rounds
import EpicWallet.Libwallet.Proof.Finalizes
import EpicWallet.Libwallet.Proof.Inputs
import EpicWallet.Lib.Total
import EpicWallet.Lib.Files
import EpicWallet.Impls.Seed
import EpicWallet.Lib.CharMap
import EpicWallet.Lib.Bits
import EpicWallet.Lib.Radix
import EpicWallet.Impls.Emoji
import EpicWallet.Impls.Adapters
import EpicWallet.Libwallet.Crypto
import EpicWallet.Impls.Epicbox
import EpicWallet.Impls.Proof.Posting
import EpicWallet.Libwallet.Proof.Hex
import EpicWallet.Libwallet.Proof.Base58
import EpicWallet.Libwallet.Proof.EpicboxAddress
import EpicWallet.Libwallet.Proof.Crypto
import EpicWallet.Impls.Proof.Acknowledge
import EpicWallet.Impls.Proof.Survival
import EpicWallet.Impls.Proof.Adapters
import EpicWallet.Impls.Proof.Emoji
import EpicWallet.Libwallet.SlateVersions
import EpicWallet.Libwallet.Proof.SlateVersions
import EpicWallet.Impls.Proof.SeedWorld
import EpicWallet.Impls.Proof.Seed
import EpicWallet.Impls.Proof.Password
import EpicWallet.Lib.Ordered
import EpicWallet.Libwallet.Proof.Selecting
import EpicWallet.Libwallet.Proof.CoinSelection
import EpicWallet.Libwallet.Proof.Change
import EpicWallet.Libwallet.Proof.FeeCheck
import EpicWallet.Libwallet.Proof.AccountMap
import EpicWallet.Libwallet.Proof.Expiry
import EpicWallet.Libwallet.Proof.Entries
import EpicWallet.Libwallet.Proof.Retrieve
import EpicWallet.Libwallet.Proof.Address
import EpicWallet.Controller.Proof.Import
import EpicWallet.Controller.OwnerV3
import EpicWallet.Controller.Proof.Session
import EpicWallet.Libwallet.Proof.Collect
import EpicWallet.Impls.Proof.History
import EpicWallet.Libwallet.Proof.Message
import EpicWallet.Libwallet.Ser
import EpicWallet.Libwallet.Proof.Token
import EpicWallet.Libwallet.Proof.Release
import EpicWallet.Libwallet.Proof.Cancelled
import EpicWallet.Libwallet.Proof.PaymentProof
import EpicWallet.Libwallet.Proof.Prepared
import EpicWallet.Libwallet.Proof.Mirror
import EpicWallet.Libwallet.Proof.Hostile
