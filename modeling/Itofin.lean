import Itofin.Lib.Machine
import Itofin.Lib.Rolling
import Itofin.Lib.Counting
import Itofin.Lib.Ends
import Itofin.Lib.Cut
import Itofin.Lib.Turns
import Itofin.Lib.Gray
import Itofin.Lib.Moments
import Itofin.Lib.Loop
import Itofin.Lib.Radix
import Itofin.Lib.Tridiagonal
import Itofin.Lib.Flow
import Itofin.Lib.Text
import Itofin.Lib.Effect
import Itofin.Patterns.Observable
import Itofin.Patterns.Delivery
import Itofin.Patterns.Observers
import Itofin.Patterns.Stack
import Itofin.Patterns.Deferral
import Itofin.Patterns.Lending
import Itofin.Patterns.LazyObject
import Itofin.Patterns.Invalidation
import Itofin.Instrument
import Itofin.Handle
import Itofin.Settings
import Itofin.Settings.Notifications
import Itofin.Time.Date
import Itofin.Time.Period
import Itofin.Time.Period.Order
import Itofin.Time.Period.Sum
import Itofin.Time.Period.Normal
import Itofin.Time.Advance
import Itofin.Time.DayCounters.Thirty360
import Itofin.Time.DayCounters.ActualActual
import Itofin.Time.DayCounter
import Itofin.Time.Futures
import Itofin.Time.Ecb
import Itofin.Time.Calendar
import Itofin.Time.Adjustment
import Itofin.Time.Holidays
import Itofin.Time.BusinessDays
import Itofin.Time.Schedule
import Itofin.Time.Schedule.Coverage
import Itofin.Time.Schedule.Truncation
import Itofin.Time.Schedule.Inside
import Itofin.Time.Schedule.Order
import Itofin.Math.Statistics
import Itofin.Math.Sobol
import Itofin.Methods.TreeLattice
import Itofin.Methods.TripleBandLinearOp
import Itofin.Types
import Itofin.TermStructures.IterativeBootstrap
import Itofin.Math.Optimization
import Itofin.TermStructures.MultiCurveBootstrap
import Itofin.Models.Model
import Itofin.Models.Calibration
import Itofin.Utilities.PeriodParser
import Itofin.Utilities.DateParser
import Itofin.TermStructures.GlobalBootstrap
import Itofin.TermStructures.WarmRestart
import Itofin.TermStructures.LocalBootstrap
import Itofin.TermStructures.GlobalBootstrap.Layout
import Itofin.Ffi.Boundary
import Itofin.Optimize.Lbfgsb
import Itofin.Optimize.Lsq.Lsei
import Itofin.Lib.Nearest
import Itofin.Lib.Ieee
import Itofin.Math.Comparison
import Itofin.Math.Constraint
import Itofin.Time.YearFractionToDate
import Itofin.Math.TimeGrid
import Itofin.Math.Xoshiro
import Itofin.ExchangeRate
import Itofin.Math.Solver1d
import Itofin.Math.Solvers1d
import Itofin.Math.Statistics.Risk
import Itofin.Math.Statistics.Percentile
import Itofin.Math.Statistics.Convergence
import Itofin.Math.Statistics.Discrepancy
import Itofin.Math.Statistics.Drawdown
import Itofin.Math.Statistics.Histogram
import Itofin.Math.Projection
import Itofin.Math.Sobol.Stratification
import Itofin.Math.Halton
import Itofin.Math.MersenneTwister
import Itofin.Math.Ranlux
import Itofin.Math.Simplex
import Itofin.Math.Interpolations.Contract
import Itofin.Math.Interpolations.CubicMonotone
import Itofin.Math.Interpolations.CubicSpline
import Itofin.Math.Interpolations.ConvexMonotoneGrow
import Itofin.Math.Interpolations.ConvexMonotoneCurve
import Itofin.Methods.FdmLinearOpLayout
import Itofin.ImpliedRate
import Itofin.TermStructures.Inflation.Seasonality
import Itofin.TermStructures.Fallback
import Itofin.Indexes.InflationIndex
import Itofin.CashFlows.FixedRateLeg
import Itofin.CashFlows.OvernightIndexedCouponPricer
import Itofin.CashFlows.CashFlows
import Itofin.CashFlows.YieldAnalytics
import Itofin.Instruments.CreditDefaultSwap
import Itofin.Methods.BrownianBridge
import Itofin.Methods.Schemes
import Itofin.Methods.McSimulation
import Itofin.Methods.LongstaffSchwartz
import Itofin.Methods.TwoFactorTree
import Itofin.Methods.TridiagonalOperator
import Itofin.Reinitialisation
import Itofin.Risk.Sensitivity
import Itofin.Optimize.LineSearch
import Itofin.Optimize.Bfgs
import Itofin.Optimize.Lbfgsb.Geometry
import Itofin.Optimize.NelderMead
import Itofin.Optimize.Slsqp
import Itofin.Optimize.DifferentialEvolution
import Itofin.Optimize.Minimize
