import Sm120.Gemm.Benchmark
import Sm120.Gemm.Verify
import Sm120.Lib.Calls
import Sm120.Lib.Printf
import Sm120.Lib.Strtol

namespace Sm120.Gemm

open Lib

def kWarmupIterations : ℕ := 5

def kBenchmarkIterations : ℕ := 25

def exitSuccess : ℕ := 0

def exitFailure : ℕ := 1

def kTestShapes : List GemmShape :=
  [⟨128, 4096, 14336, by decide, by decide, by decide⟩,
    ⟨128, 28672, 4096, by decide, by decide, by decide⟩,
    ⟨512, 512, 14336, by decide, by decide, by decide⟩,
    ⟨1024, 1024, 1024, by decide, by decide, by decide⟩,
    ⟨1024, 1024, 14336, by decide, by decide, by decide⟩,
    ⟨2048, 2048, 2048, by decide, by decide, by decide⟩,
    ⟨4096, 4096, 4096, by decide, by decide, by decide⟩,
    ⟨4096, 4096, 14336, by decide, by decide, by decide⟩,
    ⟨4096, 28672, 4096, by decide, by decide, by decide⟩,
    ⟨8192, 8192, 8192, by decide, by decide, by decide⟩,
    ⟨16384, 16384, 16384, by decide, by decide, by decide⟩,
    ⟨40960, 40960, 4096, by decide, by decide, by decide⟩]

/-- The calls of the driver to CUDA, cuBLAS and the file that it writes, and what `thrust`
allocates, copies and frees for it. What a call creates goes by the number of the call. -/
inductive ApiCall
  | cublasCreate
  | cublasDestroy (handle : ℕ)
  | cublasSetStream (handle stream : ℕ)
  | cublasGemmEx (handle : ℕ) (shape : GemmShape)
  | cudaStreamCreateWithFlags
  | cudaStreamDestroy (stream : ℕ)
  | cudaStreamSynchronize (stream : ℕ)
  | cudaDeviceSynchronize
  | cudaGetLastError
  | cudaEventCreate
  | cudaEventDestroy (event : ℕ)
  | cudaEventRecord (event stream : ℕ)
  | cudaEventSynchronize (event : ℕ)
  | cudaEventElapsedTime (start stop : ℕ)
  | cudaProfilerStart
  | cudaProfilerStop
  | cudaFuncSetAttribute
  | cudaDeviceGetAttribute
  /-- `kernel_func<<<…>>>`, on the default stream if there is none -/
  | launchKernel (config : GemmConfig) (shape : GemmShape) (stream : Option ℕ)
  | cuteCheckLast
  | hostVector (size : ℕ)
  | deviceVector (size : ℕ)
  | assignDevice (size : ℕ)
  | freeDevice
  /-- `host_C_ref = device_C_ref` -/
  | copyReference
  /-- `host_C_gemm = device_C` -/
  | copyActual (cols : ℕ)
  | fopen
  | fputs (file : ℕ) (line : List Char)
  | fclose (file : ℕ)

/-- What a call answers: whether it succeeds, the time of `cudaEventElapsedTime`, and the elements
that are copied. -/
structure Reply where
  ok : Bool
  elapsedMs : ℚ≥0
  data : List Value

/-- How the process ends before `main` returns; an exception that nothing catches aborts it. -/
inductive Ending
  | exit (code : ℕ)
  | abort

abbrev Driver := Prog ApiCall Reply Ending

/-- `check_cuda` and `check_cublas`. -/
def check (a : ApiCall) : Driver Bool := do
  let (_, r) ← Prog.call a
  return r.ok

def cuteCheck (a : ApiCall) : Driver Unit := do
  if ← check a then return () else Prog.exit (.exit exitFailure)

/-- A call of `thrust`, which throws if it fails. -/
def orThrow (a : ApiCall) : Driver Reply := do
  let (_, r) ← Prog.call a
  if r.ok then return r else Prog.exit .abort

/-- A vector on the device, as long as `body` runs. -/
def withDevice {α : Type} (a : ApiCall) (body : Driver α) : Driver α := do
  let _ ← orThrow a
  let result ← body
  let _ ← orThrow .freeDevice
  return result

/-- `GemmProblem`, as long as `body` runs. -/
def withProblem {α : Type} (shape : GemmShape) (body : Driver α) : Driver α := do
  let _ ← orThrow (.hostVector (shape.M * shape.K))
  let _ ← orThrow (.hostVector (shape.N * shape.K))
  let _ ← orThrow (.hostVector (shape.M * shape.N))
  withDevice (.assignDevice (shape.M * shape.K)) <|
  withDevice (.assignDevice (shape.N * shape.K)) <|
    withDevice (.assignDevice (shape.M * shape.N)) body

/-- `gemm_tn` on the host, which `config.run` points to. -/
def gemmTn (config : GemmConfig) (shape : GemmShape) (stream : Option ℕ) : Driver Unit :=
  if shape.M % config.bm ≠ 0 ∨ shape.N % config.bn ≠ 0 ∨
    shape.K % config.bk ≠ 0 then Prog.exit (.exit 1)
  else do
    cuteCheck .cudaFuncSetAttribute
    cuteCheck .cudaDeviceGetAttribute
    let _ ← Prog.call (.launchKernel config shape stream)
    cuteCheck .cuteCheckLast

section Launcher

def benchmarkLauncher (stream warmupIterations benchmarkIterations : ℕ) (launch : Driver Bool) :
    Driver (Option ℚ≥0) := do
  if ← launch.attempts warmupIterations then
    if ← check (.cudaStreamSynchronize stream) then
      let (start, r) ← Prog.call .cudaEventCreate
      if r.ok then
        let (stop, r) ← Prog.call .cudaEventCreate
        if r.ok then
          let destroyEvents (avgMs : Option ℚ≥0) : Driver (Option ℚ≥0) := do
            let _ ← Prog.call (.cudaEventDestroy stop)
            let _ ← Prog.call (.cudaEventDestroy start)
            return avgMs
          if ← check (.cudaEventRecord start stream) then
            if ← launch.attempts benchmarkIterations then
              if ← check (.cudaEventRecord stop stream) then
                if ← check (.cudaEventSynchronize stop) then
                  let (_, r) ← Prog.call (.cudaEventElapsedTime start stop)
                  if r.ok then destroyEvents (some (r.elapsedMs / benchmarkIterations))
                    else destroyEvents none
                else destroyEvents none
              else destroyEvents none
            else destroyEvents none
          else destroyEvents none
        else
          let _ ← Prog.call (.cudaEventDestroy start)
          return none
      else return none
    else return none
  else return none

def computeCublasReference (handle : ℕ) (shape : GemmShape) : Driver (Option (List Value)) :=
  withDevice (.deviceVector (shape.M * shape.N)) do
    if ← check (.cublasGemmEx handle shape) then
      if ← check .cudaDeviceSynchronize then
        let r ← orThrow .copyReference
        return some r.data
      else return none
    else return none

def benchmarkCublas (stream handle : ℕ) (shape : GemmShape) : Driver (Option ℚ≥0) :=
  benchmarkLauncher stream kWarmupIterations kBenchmarkIterations
    (check (.cublasGemmEx handle shape))

/-- The launch that `benchmark_one_config` and `run_profile` make. -/
def launch (config : GemmConfig) (shape : GemmShape) (stream : ℕ) : Driver Bool := do
  gemmTn config shape (some stream)
  check .cudaGetLastError

end Launcher

section Verify

def verifyOneConfig (config : GemmConfig) (shape : GemmShape) (hostCRef : List Value) :
    Driver Bool := do
  let _ ← orThrow (.assignDevice (shape.M * shape.N))
  gemmTn config shape none
  if ← check .cudaGetLastError then
    if ← check .cudaDeviceSynchronize then
      let r ← orThrow (.copyActual shape.N)
      return (verifyResult r.data hostCRef shape.N .default false).1
    else return false
  else return false

def verifySingleConfig (config : GemmConfig) (shape : GemmShape) : Driver Bool := do
  let (handle, r) ← Prog.call .cublasCreate
  if r.ok then
    let reference ← computeCublasReference handle shape
    let destroyOk ← check (.cublasDestroy handle)
    match reference with
    | some hostCRef => if destroyOk then verifyOneConfig config shape hostCRef else return false
    | none => return false
  else return false

structure VerifySummary where
  ok : Bool := true
  passed : ℕ := 0
  failed : ℕ := 0
  skipped : ℕ := 0
  total : ℕ := 0

def verifyStep (shape : GemmShape) (hostCRef : List Value) (summary : VerifySummary)
    (config : GemmConfig) : Driver VerifySummary :=
  if !configSupportsProblem config shape.M shape.N shape.K then
    return { summary with skipped := summary.skipped + 1 }
  else do
    if ← verifyOneConfig config shape hostCRef then
      return { summary with passed := summary.passed + 1 }
    else return { summary with failed := summary.failed + 1 }

def verifyAllConfigsForShape (registry : List GemmConfig) (handle : ℕ) (shape : GemmShape) :
    Driver VerifySummary :=
  withProblem shape do
    let summary : VerifySummary := { total := registry.length }
    match ← computeCublasReference handle shape with
    | none => return { summary with ok := false, failed := summary.total }
    | some hostCRef =>
      let summary ← registry.foldlM (verifyStep shape hostCRef) summary
      return { summary with failed := summary.total - summary.passed - summary.skipped }

def verifyShape (registry : List GemmConfig) (handle : ℕ) (allOk : Bool) (shape : GemmShape) :
    Driver Bool := do
  let summary ← verifyAllConfigsForShape registry handle shape
  return allOk && summary.ok && summary.failed = 0

def runVerify (registry : List GemmConfig) : Driver ℕ := do
  let (handle, r) ← Prog.call .cublasCreate
  if r.ok then
    let allOk ← kTestShapes.foldlM (verifyShape registry handle) true
    if ← check (.cublasDestroy handle) then return if allOk then exitSuccess else exitFailure
    else return exitFailure
  else return exitFailure

end Verify

section Benchmark

def throughputPercent (gemmTnTflops cublasTflops : ℚ) : ℚ :=
  if cublasTflops ≤ 0 then 0 else gemmTnTflops / cublasTflops * 100

def configNameAt (registry : List GemmConfig) (config : Option ℕ) : List Char :=
  ((config.bind fun i ↦ registry[i]?).map GemmConfig.name).getD []

def formatBestLine (registry : List GemmConfig) (best : BenchmarkBest) : List Char :=
  snprintf 1024 ("BEST: ".toList ++ decimal best.shape.M ++ ",".toList ++ decimal best.shape.N ++
    ",".toList ++
    decimal best.shape.K ++ " ".toList ++ configNameAt registry best.config ++ "   ".toList ++
      fixedPoint 4 best.result.latencyMs ++ " ms ".toList ++ fixedPoint 3 best.result.throughput ++
        " TFLOP/s cublas ".toList ++ fixedPoint 4 best.cublasLatencyMs ++ " ms ".toList ++
          fixedPoint 3 best.cublasThroughput ++ " TFLOP/s gemm_tn/cublas=".toList ++
            fixedPoint 2 (throughputPercent best.result.throughput best.cublasThroughput) ++
              "%\n".toList)

/-- The launches of `benchmark_one_config`. -/
def measure (config : GemmConfig) (shape : GemmShape) (stream : ℕ) : Driver (Option ℚ≥0) :=
  benchmarkLauncher stream kWarmupIterations kBenchmarkIterations (launch config shape stream)

def release (handle stream : ℕ) : Driver Bool := do
  let destroyHandleOk ← check (.cublasDestroy handle)
  let destroyStreamOk ← check (.cudaStreamDestroy stream)
  return destroyHandleOk && destroyStreamOk

/-- A stream, a handle on it and the latency of the reference, around what is then measured; the
flag says whether the release goes well. -/
def withCublas {α : Type} (shape : GemmShape) (body : ℕ → ℚ≥0 → Driver α) :
    Driver (Option (α × Bool)) := do
  let (stream, r) ← Prog.call .cudaStreamCreateWithFlags
  if r.ok then
    let (handle, r) ← Prog.call .cublasCreate
    if r.ok then
      if ← check (.cublasSetStream handle stream) then
        match ← benchmarkCublas stream handle shape with
        | some cublasLatencyMs =>
          let a ← body stream cublasLatencyMs
          let destroyOk ← release handle stream
          return some (a, destroyOk)
        | none =>
          let _ ← release handle stream
          return none
      else
        let _ ← release handle stream
        return none
    else
      let _ ← check (.cudaStreamDestroy stream)
      return none
  else return none

def benchmarkSingleConfig (config : GemmConfig) (shape : GemmShape) : Driver BenchmarkResult := do
  match ← withCublas shape fun stream _ ↦ measure config shape stream with
  | none => return {}
  | some (launched, destroyOk) =>
    if destroyOk then return benchmarkOneConfig shape.M shape.N shape.K launched else return {}

def benchmarkEntry (shape : GemmShape) (stream : ℕ)
    (s : BenchmarkShapeResult × List BenchmarkSummary) (x : GemmConfig × ℕ) :
    Driver (BenchmarkShapeResult × List BenchmarkSummary) :=
  if !configSupportsProblem x.1 shape.M shape.N shape.K then
    return benchmarkStep shape (fun _ ↦ none) s x
  else do
    let launched ← measure x.1 shape stream
    return benchmarkStep shape (fun _ ↦ launched) s x

def Driver.benchmarkAllConfigsForShape (registry : List GemmConfig) (shape : GemmShape) :
    Driver (BenchmarkShapeResult × List RankingLine) :=
  withProblem shape do
    let body (stream : ℕ) (cublasLatencyMs : ℚ≥0) :
      Driver (BenchmarkShapeResult × List BenchmarkSummary) :=
      registry.zipIdx.foldlM (benchmarkEntry shape stream)
        ({ best := {
            shape := shape
            cublasLatencyMs := cublasLatencyMs
            cublasThroughput := gemmTflops shape.M shape.N shape.K cublasLatencyMs }
           total := registry.length }, [])
    match ← withCublas shape body with
    | none =>
      return ({
        ok := false
        best := { shape := shape }
        failed := registry.length
        total := registry.length }, [])
    | some ((result, summaries), destroyOk) =>
      return ({ result with
        ok := destroyOk
        failed := result.total - result.passed - result.skipped }, printBenchmarkRanking summaries)

/-- The lines of `BEST.txt`, up to the first that cannot be written. -/
def writeLines (file : ℕ) : List (List Char) → Driver Bool
  | [] => return true
  | line :: lines => do
    if ← check (.fputs file line) then writeLines file lines else return false

def writeBestResultsFile (registry : List GemmConfig) (bestResults : List BenchmarkBest) :
    Driver Bool := do
  let (file, r) ← Prog.call .fopen
  if r.ok then
    let ok ← writeLines file (bestResults.map (formatBestLine registry))
    let closed ← check (.fclose file)
    return ok && closed
  else return false

def benchmarkTestShape (registry : List GemmConfig) (s : Bool × List BenchmarkBest)
    (shape : GemmShape) : Driver (Bool × List BenchmarkBest) := do
  let (result, _) ← Driver.benchmarkAllConfigsForShape registry shape
  return (s.1 && result.ok && result.failed = 0 && result.best.config.isSome,
    if result.best.config.isSome then s.2 ++ [result.best] else s.2)

def runBenchmark (registry : List GemmConfig) : Driver ℕ := do
  let (allOk, bestResults) ← kTestShapes.foldlM (benchmarkTestShape registry) (true, [])
  let written ← writeBestResultsFile registry bestResults
  return if written && allOk then exitSuccess else exitFailure

def runShapeBenchmark (registry : List GemmConfig) (shape : GemmShape) : Driver ℕ := do
  let (result, _) ← Driver.benchmarkAllConfigsForShape registry shape
  return if result.ok && result.failed = 0 && result.best.config.isSome then exitSuccess
    else exitFailure

def runShapeTest (registry : List GemmConfig) (shape : GemmShape) : Driver ℕ := do
  let (handle, r) ← Prog.call .cublasCreate
  if r.ok then
    let summary ← verifyAllConfigsForShape registry handle shape
    if ← check (.cublasDestroy handle) then
      let (result, _) ← Driver.benchmarkAllConfigsForShape registry shape
      return if summary.ok && summary.failed = 0 && result.ok && result.failed = 0 &&
        result.best.config.isSome then
        exitSuccess else exitFailure
    else return exitFailure
  else return exitFailure

end Benchmark

section Commands

inductive FuncMode
  | verifyAndBenchmark
  | verifyOnly
  | benchmarkOnly
deriving DecidableEq

def lookup (registry : List GemmConfig) (query : List Char) : Option GemmConfig :=
  (findConfig registry query).1.bind fun i ↦ registry[i]?

def funcShape : GemmShape := ⟨4096, 4096, 4096, by decide, by decide, by decide⟩

def runFunc (registry : List GemmConfig) (query : List Char) (mode : FuncMode) : Driver ℕ :=
  match lookup registry query with
  | none => return exitFailure
  | some config =>
    if !configSupportsProblem config funcShape.M funcShape.N funcShape.K then return exitFailure
    else withProblem funcShape do
      let verifyOk ← (if mode ≠ .benchmarkOnly then verifySingleConfig config funcShape
        else pure true)
      let benchmarkOk ← (if mode ≠ .verifyOnly then
        BenchmarkResult.ok <$> benchmarkSingleConfig config funcShape
        else pure true)
      return if verifyOk && benchmarkOk then exitSuccess else exitFailure

/-- `ok = ok && check_cuda(cudaStreamSynchronize(stream), …)` -/
def thenSynchronize (stream : ℕ) (p : Driver Bool) : Driver Bool := do
  if ← p then check (.cudaStreamSynchronize stream) else return false

/-- The launch between `cudaProfilerStart` and `cudaProfilerStop`. -/
def profiledLaunch (config : GemmConfig) (shape : GemmShape) (stream : ℕ) : Driver Bool := do
  let _ ← Prog.call .cudaProfilerStart
  let ok ← thenSynchronize stream (launch config shape stream)
  let _ ← Prog.call .cudaProfilerStop
  return ok

def runProfile (registry : List GemmConfig) (query : List Char) (shape : GemmShape)
    (warmup : ℕ) : Driver ℕ :=
  match lookup registry query with
  | none => return exitFailure
  | some config =>
    if !configSupportsProblem config shape.M shape.N shape.K then return exitFailure
    else withProblem shape do
      let (stream, r) ← Prog.call .cudaStreamCreateWithFlags
      if r.ok then
        let warm ← thenSynchronize stream ((launch config shape stream).attempts warmup)
        let ok ← (if warm then profiledLaunch config shape stream else pure false)
        let _ ← check (.cudaStreamDestroy stream)
        return if ok then exitSuccess else exitFailure
      else return exitFailure

inductive Command
  | verify
  | benchmark
  | shapeBenchmark (shape : GemmShape)
  | func (query : List Char) (mode : FuncMode)
  | profile (query : List Char) (shape : GemmShape) (warmup : ℕ)
  | shapeTest (shape : GemmShape)
  | usage

def parseShape (m n k : List Char) : Option GemmShape :=
  match hm : positiveInt m, hn : positiveInt n, hk : positiveInt k with
  | some M, some N, some K =>
    some ⟨M, N, K, (positiveInt_iff.1 hm).pos, (positiveInt_iff.1 hn).pos,
      (positiveInt_iff.1 hk).pos⟩
  | _, _, _ => none

def parseCommand (argv : List (List Char)) : Command :=
  match argv with
  | [_, arg] =>
    if arg = "--verify".toList then .verify
    else if arg = "--benchmark".toList then .benchmark else .usage
  | [_, arg, query] => if arg = "--func".toList then .func query .verifyAndBenchmark else .usage
  | [_, arg, a, b] =>
    if arg = "--func".toList then
      if b = "--verify".toList then .func a .verifyOnly
      else if b = "--benchmark".toList then .func a .benchmarkOnly
      else .usage
    else (parseShape arg a b).elim .usage .shapeTest
  | [_, arg, m, n, k] =>
    if arg = "--benchmark".toList then (parseShape m n k).elim .usage .shapeBenchmark else .usage
  | [_, arg, query, m, n, k] =>
    if arg = "--profile".toList then
      (parseShape m n k).elim .usage fun shape ↦ .profile query shape 3
    else .usage
  | [_, arg, query, m, n, k, w] =>
    if arg = "--profile".toList then
      (parseShape m n k).elim .usage fun shape ↦ (positiveInt w).elim .usage fun warmup ↦
      .profile query shape warmup
    else .usage
  | _ => .usage

def runCommand (registry : List GemmConfig) : Command → Driver ℕ
  | .verify => runVerify registry
  | .benchmark => runBenchmark registry
  | .shapeBenchmark shape => runShapeBenchmark registry shape
  | .func query mode => runFunc registry query mode
  | .profile query shape warmup => runProfile registry query shape warmup
  | .shapeTest shape => runShapeTest registry shape
  | .usage => return exitFailure

def main (registry : List GemmConfig) (argv : List (List Char)) :
    Driver ℕ := runCommand registry (parseCommand argv)

end Commands

end Sm120.Gemm
