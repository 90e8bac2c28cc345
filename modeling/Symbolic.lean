import Symbolic.CommandLine.Session
import Symbolic.Compiled
import Symbolic.Context
import Symbolic.Expr.Substitution
import Symbolic.Main
import Symbolic.Parse
import Symbolic.Registry.Tables
import Symbolic.Proofs.Outcome
import Symbolic.Proofs.Reading
import Symbolic.Proofs.WorkLogic
import Symbolic.Proofs.ChainValue
import Symbolic.Proofs.CollectValue
import Symbolic.Proofs.Polynomial
import Symbolic.Proofs.NestingLevels
import Symbolic.Proofs.EngineInvariant
import Symbolic.Proofs.ChainReduction
import Symbolic.Proofs.PolynomialPass
import Symbolic.Proofs.PolynomialMeaning
import Symbolic.Proofs.ConstantFolding
import Symbolic.Proofs.DoubleBits
import Symbolic.Proofs.Rounding
import Symbolic.Proofs.NumeralText
import Symbolic.Proofs.ParserEquations
import Symbolic.Proofs.Scanning
import Symbolic.Proofs.PrintedPieces
import Symbolic.Proofs.Registration
import Symbolic.Proofs.RegistryTables
import Symbolic.Proofs.RoundTrip
import Symbolic.Proofs.Grammar
import Symbolic.Proofs.GrammarReading
import Symbolic.Proofs.TokenBoundaries
import Symbolic.Proofs.Acceptance
import Symbolic.Proofs.RelatedRuns
import Symbolic.Proofs.Agreement
import Symbolic.Proofs.LargerLimits
import Symbolic.Proofs.TreeClass
import Symbolic.Proofs.Provenance
import Symbolic.Proofs.ConstantTrees
import Symbolic.Proofs.SuccessfulRuns
import Symbolic.Proofs.ExactSearch
import Symbolic.Proofs.ResolvedTrees
import Symbolic.Proofs.UnitFractions
import Symbolic.Proofs.ContextMemory
import Symbolic.Proofs.Lockstep
import Symbolic.Proofs.SeenOperands
import Symbolic.Proofs.ChainLockstep
import Symbolic.Proofs.WrapperIndependence
import Symbolic.Proofs.FailedCalls
import Symbolic.Proofs.FailureLogic
import Symbolic.Proofs.PlainChains
import Symbolic.Proofs.OrdinaryFailures
import Symbolic.Proofs.CompiledValue
import Symbolic.Proofs.SharedCode
import Symbolic.Proofs.ParsedTrees
import Symbolic.Proofs.ReplacedVariable
import Symbolic.Proofs.ReplacedText
import Symbolic.Proofs.MissingValues
import Symbolic.Proofs.CommandLineOutcomes
import Symbolic.Proofs.InversePairs
import Symbolic.Proofs.PrintedResults
import Symbolic.Proofs.UnfoldedValue
import Symbolic.Proofs.CollectEnds
import Symbolic.Proofs.SubtractedChains
import Symbolic.Proofs.CollectedValue
import Symbolic.Proofs.RepeatedTerms
import Symbolic.Proofs.KnownRuns
import Symbolic.Proofs.AffineSums
import Symbolic.Proofs.BalancedTrees
import Symbolic.Proofs.Bracketing
import Symbolic.Proofs.Regrouping
import Symbolic.Proofs.MatchingParentheses
import Symbolic.Proofs.FewestParentheses
import Symbolic.Proofs.FlatTexts
import Symbolic.Proofs.TokenPartition
import Symbolic.Proofs.ReadableFingerprints
import Symbolic.Proofs.Shapes
import Symbolic.Proofs.SubstitutedValue
import Symbolic.Proofs.FingerprintDistance
import Symbolic.Proofs.OpeningLoop
import Symbolic.Proofs.TreeLoops
import Symbolic.Proofs.Recomputation
import Symbolic.Proofs.FaithfulMemory
import Symbolic.Proofs.RememberedAnswers
import Symbolic.Proofs.BlankOperands
import Symbolic.Proofs.Idempotence
