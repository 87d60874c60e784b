import EvmSourceMap.Main
import EvmSourceMap.TaskPool.Machine
import EvmSourceMap.Proofs.MappingBuild
import EvmSourceMap.Proofs.FieldInheritance
import EvmSourceMap.Proofs.DeltaEncoding
import EvmSourceMap.Proofs.OutputWritability
import EvmSourceMap.Proofs.PoolHistory
import EvmSourceMap.Proofs.TraceReannotation
import EvmSourceMap.Proofs.MappingReport
import EvmSourceMap.Proofs.MappingGrowth
import EvmSourceMap.Proofs.BuildOutcome
import EvmSourceMap.Proofs.RunFailures
import EvmSourceMap.Proofs.ThreadSetting
import EvmSourceMap.Proofs.SourceIds
import EvmSourceMap.Proofs.InstructionOwners
import EvmSourceMap.Proofs.RangeText
import EvmSourceMap.Proofs.AddedFiles
import EvmSourceMap.Proofs.PositionOrder
import EvmSourceMap.Proofs.OperandIndependence
import EvmSourceMap.Proofs.CodeConcatenation
import EvmSourceMap.Proofs.HexText
import EvmSourceMap.Proofs.JoinFaults
import EvmSourceMap.Proofs.TableDocuments
import EvmSourceMap.Proofs.ListedSources
import EvmSourceMap.Proofs.ContractChoice
import EvmSourceMap.Proofs.TableExtension
import EvmSourceMap.Proofs.ChunkRanges
import EvmSourceMap.Proofs.DelimiterSearch
