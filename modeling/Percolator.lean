import Percolator.Laws.Time
import Percolator.Laws.Aggregates
import Percolator.Laws.Sides
import Percolator.Laws.Exit
import Percolator.Laws.Resolution
import Percolator.Laws.Payouts
import Percolator.Laws.Order
import Percolator.Laws.Settlement
import Percolator.Laws.Accrual
import Percolator.Laws.Funding
import Percolator.Laws.Settling
import Percolator.Laws.Deleverage
import Percolator.Program.Instruction
import Percolator.Laws.Conversion
import Percolator.Laws.Haircut
import Percolator.Laws.Width
import Percolator.Laws.Margin
import Percolator.Laws.Finalization
import Percolator.Laws.Voluntary
import Percolator.Laws.Bankruptcy
import Percolator.Laws.ResolvedSettlement
import Percolator.Oracle.Price
import Percolator.Program.Params
import Percolator.Laws.FeeSync
import Percolator.Laws.Atomic
import Percolator.Program.Crank
import Percolator.Laws.Caps
import Percolator.Laws.Warmup
import Percolator.Laws.Schedule
import Percolator.Program.Processor
import Percolator.Program.Runs
import Percolator.Wide.U512
import Percolator.Laws.FreeList
import Percolator.Laws.Refusals
import Percolator.Laws.Gate
import Percolator.Laws.Principal
import Percolator.Laws.Shortfall
import Percolator.Laws.Eager
import Percolator.Program.Gate
import Percolator.Program.Vault
import Percolator.Program.Owners
import Percolator.Program.Collection
import Percolator.Program.Custody
import Percolator.Laws.Forward
import Percolator.Keeper.Strategy
import Percolator.Program.Stall
import Percolator.Laws.Solvency
import Percolator.Wide.Accrual
import Percolator.Wide.Adl
