import NpuMatmul.Dispatch.Backward
import NpuMatmul.Dispatch.Compilations
import NpuMatmul.Dispatch.LinearPatch
import NpuMatmul.Dispatch.PatchedCells
import NpuMatmul.Dispatch.SafeDivisions
import NpuMatmul.Dispatch.ScaledProducts
import NpuMatmul.Dispatch.ShapeErrors
import NpuMatmul.Dispatch.VectorOperands
import NpuMatmul.Engine.CacheAtomicity
import NpuMatmul.Engine.ContextOwnership
import NpuMatmul.Engine.Delivery
import NpuMatmul.Engine.Dereferences
import NpuMatmul.Engine.HandleCurrency
import NpuMatmul.Engine.InstanceHandles
import NpuMatmul.FixedPoint.AccessFootprint
import NpuMatmul.FixedPoint.DecodeGap
import NpuMatmul.FixedPoint.GlobalStats
import NpuMatmul.FixedPoint.LaneThreads
import NpuMatmul.FixedPoint.NoiseStreams
import NpuMatmul.FixedPoint.Orientation
import NpuMatmul.FixedPoint.RoundFaithful
import NpuMatmul.FixedPoint.TightExponents
import NpuMatmul.Generator.ClientDelivery
import NpuMatmul.Generator.ClientRuns
import NpuMatmul.Generator.CompileRuns
import NpuMatmul.Generator.ServerRuns
import NpuMatmul.Generator.ServerSpec
import NpuMatmul.Memory.KernelRuns
import NpuMatmul.Memory.ModelOwnership
import NpuMatmul.Memory.ScratchpadCoalescing
import NpuMatmul.Memory.ScratchpadHistory
import NpuMatmul.Memory.ScratchpadProvenance
import NpuMatmul.Pipeline.KernelThreads
import NpuMatmul.Pipeline.Locality
import NpuMatmul.Pipeline.Saturation
import NpuMatmul.Pipeline.Scales
import NpuMatmul.Prefetch.ClearQueue
import NpuMatmul.Prefetch.FallbackAgreement
import NpuMatmul.Prefetch.Transparency
import NpuMatmul.Tensors.CacheTransparency
import NpuMatmul.Tensors.Descriptors
import NpuMatmul.Tensors.StagedBuffers
import NpuMatmul.Training.NextToken
import NpuMatmul.Training.PatchedForward
import NpuMatmul.Training.WarmSteps
