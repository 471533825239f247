import Grindurus.Lib.Checked
import Grindurus.Lib.Tally
import Grindurus.Lib.Machine
import Grindurus.Lib.Registry
import Grindurus.Lib.TokenBank
import Grindurus.Lib.Circulation
import Grindurus.Lib.RewardIndex
import Grindurus.Lib.Uplines
import Grindurus.Lib.Ancestry
import Grindurus.Lib.Floyd
import Grindurus.Lib.ProRata
import Grindurus.Lib.Rounding
import Grindurus.Lib.TokenBucket
import Grindurus.Lib.Borsh
import Grindurus.Grai.Types
import Grindurus.Grai.Tokenomics
import Grindurus.Grai.Accounts
import Grindurus.Grai.Dividend
import Grindurus.Grai.Ledger
import Grindurus.Grai.Stakes
import Grindurus.Grai.Referral
import Grindurus.Grai.Claims
import Grindurus.Grai.Deposits
import Grindurus.Grai.Liquidation
import Grindurus.Grai.Listing
import Grindurus.Grai.Governance
import Grindurus.Grai.Program
import Grindurus.Grai.Custody
import Grindurus.Grai.BookValue
import Grindurus.Grai.Overhang
import Grindurus.Grai.Positions
import Grindurus.Grai.Accruals
import Grindurus.Grai.Reserve
import Grindurus.Grai.Payments
import Grindurus.Grai.Frames
import Grindurus.Grai.Timeline
import Grindurus.Grai.Redeems
import Grindurus.Grai.Exits
import Grindurus.Grai.LoopCheck
import Grindurus.Grai.Lineage
import Grindurus.Grai.Books
import Grindurus.Grai.Poaches
import Grindurus.Grai.Roster
import Grindurus.Grai.Affiliates
import Grindurus.Grai.Upkeep
import Grindurus.Grai.Unlocks
import Grindurus.Grai.Saturation
import Grindurus.Grai.Quotes
import Grindurus.Grai.ClaimRows
import Grindurus.Grai.Withdrawals
import Grindurus.Grai.Pricing
import Grindurus.Grai.Bribes
import Grindurus.Grai.Allocation
import Grindurus.Grai.RawReads
import Grindurus.Grs.Bridge
import Grindurus.Grs.Config
import Grindurus.Grs.Program
import Grindurus.Grs.Inventory
import Grindurus.Grs.Awards
import Grindurus.Grs.Mesh
import Grindurus.Grs.Publication
import Grindurus.Grs.Prefunds
import Grindurus.Grs.Wire
import Grindurus.Grs.Limits
import Grindurus.Grs.Traffic
import Grindurus.Grs.Buyouts
import Grindurus.Grs.Standing
import Grindurus.Grs.LzReceiveTypes
import Grindurus.Grs.Discovery
import Grindurus.Lib.Escrow
import Grindurus.Lib.Network
import Grindurus.Lib.Stock
import Grindurus.Grinders.Program
import Grindurus.Grinders.Drains
import Grindurus.Grinders.Sweeps
import Grindurus.Grinders.Swaps
import Grindurus.Lib.History
import Grindurus.Lib.Ownable
import Grindurus.Lib.Payments
import Grindurus.Grai.Ownership
import Grindurus.Lib.Reader
import Grindurus.Feeds.Program
import Grindurus.Feeds.Account
import Grindurus.Feeds.Provenance
import Grindurus.Grai.PriceFeeds
import Grindurus.Grai.Previews
import Grindurus.Grai.OraclePrices
import Grindurus.Grs.Lockbox
import Grindurus.Grs.LockAndMint
import Grindurus.Grs.Settings
import Grindurus.Grs.Peers
import Grindurus.Grs.Transfers
import Grindurus.Lib.Withholding
import Grindurus.Grs.TransferFees
import Grindurus.Lib.Pages
import Grindurus.Grs.Books
import Grindurus.Grs.SaleQuotes
import Grindurus.Grai.Rolls
