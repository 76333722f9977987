import Rmol.AdjustYield
import Rmol.AdvancedCooperation
import Rmol.BidPriceAgreement
import Rmol.BidPriceFloor
import Rmol.BidPriceUpdate
import Rmol.Bom
import Rmol.ConvexHull
import Rmol.DCPLists
import Rmol.DemandReset
import Rmol.Dispatching
import Rmol.EmsrAggregates
import Rmol.EmsrNesting
import Rmol.EmsrProtections
import Rmol.HistoricalBookings
import Rmol.InventoryLoads
import Rmol.InventoryParser
import Rmol.LegBasedDemand
import Rmol.LegBasedEvents
import Rmol.LegBasedOptimisation
import Rmol.LegBidPrices
import Rmol.LegProtections
import Rmol.Lib.Frontier
import Rmol.Lib.Ladder
import Rmol.Lib.OrderStatistics
import Rmol.MCOptimiser
import Rmol.MCPasses
import Rmol.MCStages
import Rmol.MrtRuns
import Rmol.MrtSafety
import Rmol.NewQFF
import Rmol.NewQFFConservation
import Rmol.OnDBidPrices
import Rmol.OnDForecast
import Rmol.OnDForecastStore
import Rmol.PolicyDiff
import Rmol.PolicyHelper
import Rmol.PolicyTransfers
import Rmol.ProjectionTechniques
import Rmol.Proration
import Rmol.QEquivalents
import Rmol.QForecasting
import Rmol.SampleRange
import Rmol.ServicePartners
import Rmol.ServicePrices
import Rmol.UsableWindow
import Rmol.YieldNodes
