import Sm120.Flash.Attention
import Sm120.Flash.Coherence
import Sm120.Flash.Correct
import Sm120.Flash.Dispatch
import Sm120.Flash.Hazard
import Sm120.Flash.Indexing
import Sm120.Flash.Kernels
import Sm120.Flash.Mask
import Sm120.Flash.Overlay
import Sm120.Flash.Reduction
import Sm120.Flash.Service
import Sm120.Flash.SharedMemory
import Sm120.Flash.Variants
import Sm120.Flash.Verify
import Sm120.Gemm.Benchmark
import Sm120.Gemm.Best
import Sm120.Gemm.Build
import Sm120.Gemm.Config
import Sm120.Gemm.Correct
import Sm120.Gemm.Driver
import Sm120.Gemm.Epilogue
import Sm120.Gemm.Execution
import Sm120.Gemm.Mainloop
import Sm120.Gemm.Rate
import Sm120.Gemm.Registry
import Sm120.Gemm.Serve
import Sm120.Gemm.Session
import Sm120.Gemm.Sweep
import Sm120.Gemm.Tiles
import Sm120.Gemm.Verify
import Sm120.Lib.Barrier
import Sm120.Lib.Blocks
import Sm120.Lib.Cta
import Sm120.Lib.Dataflow
import Sm120.Lib.Forget
import Sm120.Lib.Guard
import Sm120.Lib.Invariant
import Sm120.Lib.Lockstep
import Sm120.Lib.Progress
import Sm120.Lib.Ring
import Sm120.Lib.Schedule
