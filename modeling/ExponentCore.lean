import ExponentCore.Admin.Account
import ExponentCore.Admin.Proof.Account
import ExponentCore.Curve.Math
import ExponentCore.Curve.Num
import ExponentCore.Lib.Accumulator
import ExponentCore.Lib.Borsh
import ExponentCore.Lib.Codec
import ExponentCore.Lib.Handler
import ExponentCore.Lib.Layout
import ExponentCore.Lib.Machine
import ExponentCore.Lib.Regions
import ExponentCore.Lib.Reorder
import ExponentCore.Lib.Slots
import ExponentCore.Lib.Store
import ExponentCore.Lib.Windowed
import ExponentCore.Market.Account
import ExponentCore.Market.AccountData
import ExponentCore.Market.Bank
import ExponentCore.Market.Calls
import ExponentCore.Market.Financials
import ExponentCore.Market.LpHandlers
import ExponentCore.Market.LpWorld
import ExponentCore.Market.NetBalance
import ExponentCore.Market.Proof.AccountData
import ExponentCore.Market.Proof.Bank
import ExponentCore.Market.Proof.Bystanders
import ExponentCore.Market.Proof.Ceilings
import ExponentCore.Market.Proof.Exits
import ExponentCore.Market.Proof.Holdings
import ExponentCore.Market.Proof.Liquidity
import ExponentCore.Market.Proof.LpAccrual
import ExponentCore.Market.Proof.LpEmissions
import ExponentCore.Market.Proof.LpFarms
import ExponentCore.Market.Proof.NetBalance
import ExponentCore.Market.Proof.RoundTrip
import ExponentCore.Market.Proof.Slots
import ExponentCore.Market.Proof.StripSplit
import ExponentCore.Market.Proof.Supply
import ExponentCore.Market.Proof.Wrappers
import ExponentCore.Market.Proof.Yield
import ExponentCore.Market.Wrappers
import ExponentCore.Num.Fast
import ExponentCore.Num.Outcome
import ExponentCore.Num.PreciseNumber
import ExponentCore.Num.Proof.Aborts
import ExponentCore.Num.Proof.Fast
import ExponentCore.Program.AccountFormat
import ExponentCore.Program.Allocator
import ExponentCore.Program.Format
import ExponentCore.Program.Governance
import ExponentCore.Program.Instructions
import ExponentCore.Program.Proof.AccountFormat
import ExponentCore.Program.Proof.Allocator
import ExponentCore.Program.Proof.Format
import ExponentCore.Program.Proof.SelfCpi
import ExponentCore.Program.Proof.Settings
import ExponentCore.Program.Proof.Switches
import ExponentCore.Vault.ClaimLimits
import ExponentCore.Vault.Ledger
import ExponentCore.Vault.Proof.Accrual
import ExponentCore.Vault.Proof.Backing
import ExponentCore.Vault.Proof.ClaimLimits
import ExponentCore.Vault.Proof.Corrections
import ExponentCore.Vault.Proof.EmissionSolvency
import ExponentCore.Vault.Proof.Exits
import ExponentCore.Vault.Proof.FeeSplits
import ExponentCore.Vault.Proof.Independence
import ExponentCore.Vault.Proof.InterestRounding
import ExponentCore.Vault.Proof.Maturity
import ExponentCore.Vault.Proof.NewEmission
import ExponentCore.Vault.Proof.Observed
import ExponentCore.Vault.Proof.Slots
import ExponentCore.Vault.Proof.StripMerge
import ExponentCore.Vault.Proof.YtConservation
import ExponentCore.Vault.Settings
