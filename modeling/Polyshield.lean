import Polyshield.Tree.Agreement
import Polyshield.Tree.Window
import Polyshield.Tree.Served
import Polyshield.Vault.Conservation
import Polyshield.Vault.Shares
import Polyshield.Signing.SingleOrder
import Polyshield.Signing.Channel
import Polyshield.Signing.Tracking
import Polyshield.Signing.OffBook
import Polyshield.Signing.SalesKept
import Polyshield.Vault.Exits
import Polyshield.Operator.Nonces
import Polyshield.Operator.Resolved
import Polyshield.Operator.Acknowledged
import Polyshield.Operator.Funding
import Polyshield.Circuits.Completeness
import Polyshield.Wallet.Selection
import Polyshield.Wallet.DepositFlow
import Polyshield.Wallet.Mirror
import Polyshield.Wallet.Drains
import Polyshield.Wallet.LostUpdates
import Polyshield.Wallet.DepositCoverage
import Polyshield.Wallet.Recovery
import Polyshield.Signing.TokenBinding
import Polyshield.Signing.TrueFills
import Polyshield.Signing.EventScan
import Polyshield.Wallet.Pricing
import Polyshield.Wallet.Withdraw
import Polyshield.Wallet.Recovered
import Polyshield.Vault.Solvency
import Polyshield.Vault.Withdrawable
import Polyshield.Vault.CreditLands
import Polyshield.Wallet.Offers
