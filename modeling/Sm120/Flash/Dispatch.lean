import Sm120.Flash.Indexing
import Sm120.Flash.Variants

namespace Sm120.Flash

open Lib

inductive DeviceType
  | cpu
  | cuda
  | other (code : ℕ)
deriving DecidableEq

structure Device where
  type : DeviceType
  index : ℤ
deriving DecidableEq

/-- `c10::ScalarType`; the wrapper only asks for `kHalf`. -/
inductive ScalarType
  | half
  | other (code : ℕ)
deriving DecidableEq

structure InputTensor where
  device : Device
  scalarType : ScalarType
  isContiguous : Bool
  sizes : List Int64
  sizes_nonneg : ∀ n ∈ sizes, 0 ≤ n.toInt

namespace InputTensor

def isCuda (t : InputTensor) : Bool := t.device.type = .cuda

def dim (t : InputTensor) : ℕ := t.sizes.length

def size (t : InputTensor) (i : ℕ) : Int64 := t.sizes.getD i 0

end InputTensor

def checkInputTensor (tensor : InputTensor) (name : String) : List (Bool × String) :=
  [torchCheck tensor.isCuda (name ++ " must be a CUDA tensor"),
    torchCheck (tensor.scalarType = .half) (name ++ " must use torch.float16"),
    torchCheck tensor.isContiguous (name ++ " must be contiguous"),
    torchCheck (tensor.dim = 4) (name ++ " must have shape [batch, seq_len, head_num, head_dim]")]

def checkInputs (q k v : InputTensor) : List (Bool × String) :=
  checkInputTensor q "q" ++ checkInputTensor k "k" ++ checkInputTensor v "v" ++
    [torchCheck (k.sizes = q.sizes) "k shape must match q shape",
      torchCheck (v.sizes = q.sizes) "v shape must match q shape",
      torchCheck (k.device = q.device) "k device must match q device",
      torchCheck (v.device = q.device) "v device must match q device"]

namespace FlashFwdConfig

def headDim (config : FlashFwdConfig) : ℕ := config.fields.getD 0 0

def blockM (config : FlashFwdConfig) : ℕ := config.fields.getD 1 0

def blockN (config : FlashFwdConfig) : ℕ := config.fields.getD 2 0

end FlashFwdConfig

def findConfig (table : List FlashFwdConfig) (name : List Char) : Option FlashFwdConfig :=
  table.find? fun config ↦ name = config.name

/-- The instance of `flash_fwd` that a kernel source launches: the constants of its template
arguments, and what `run_fixed_shape` passes. -/
structure KernelLaunch where
  constants : List ℕ
  headNum : ℕ
  causal : Bool
  seqLen : Int32
  batch : Int32
deriving DecidableEq

/-- The tensor that is returned has the sizes of `q`, and a launch has been started to fill it. -/
structure Output where
  sizes : List Int64
  launch : KernelLaunch
deriving DecidableEq

/-- What the runtime reports of a launch: `none` is `cudaSuccess`, else the text of the error. An
`empty_like` that throws and a `CUTE_CHECK_ERROR` that exits are errors of the launch here. -/
abbrev LaunchStatus := KernelLaunch → Option String

def runFixedShape (status : LaunchStatus) (kernel : KernelSource) (causal : Bool) (headNum : ℕ)
    (q : InputTensor) : Except String Output :=
  let launch : KernelLaunch :=
    ⟨kernel.constants, headNum, causal, (q.size 1).toInt32, (q.size 0).toInt32⟩
  match status launch with
  | some text => .error ("flashatten_v3 kernel launch failed: " ++ text)
  | none => .ok ⟨q.sizes, launch⟩

/-- `run_flash_fwd_@CFG_SYMBOL@`; the comparisons with the head counts are made in turn. -/
def runFlashFwd (status : LaunchStatus) (kernel : KernelSource) (q : InputTensor) (causal : Bool) :
    Except String Output :=
  let headNum := q.size 2
  let headDim := q.size 3
  let kHeadDim := kernel.constants.getD 0 0
  let symbol := String.ofList kernel.symbol
  if headDim ≠ Int64.ofNat kHeadDim then
    .error s!"{symbol} expects head_dim={kHeadDim}, got {headDim}"
  else
    match headNums.find? fun n ↦ headNum = Int64.ofNat n with
    | some n => runFixedShape status kernel causal n q
    | none => .error s!"unsupported head_num={headNum} for {symbol}"

/-- The loader resolves the function pointer of a row among the kernels. -/
def FlashFwdConfig.call (status : LaunchStatus) (kernels : List KernelSource)
    (config : FlashFwdConfig) (q : InputTensor) (causal : Bool) : Except String Output :=
  match kernels.find? fun kernel ↦ kernel.symbol = config.run with
  | some kernel => runFlashFwd status kernel q causal
  | none => .error ("undefined symbol: run_flash_fwd_" ++ String.ofList config.run)

def stdToString (n : Int64) : List Char :=
  if n.toInt < 0 then '-' :: decimal n.toInt.natAbs else decimal n.toInt.natAbs

def firstConfig (table : List FlashFwdConfig) (headDim : Int64) : Except String FlashFwdConfig :=
  match table.find? fun config ↦ Int64.ofNat config.headDim = headDim with
  | some config => .ok config
  | none => .error s!"no flash_fwd config was built for head_dim={headDim}"

/-- The row with the preferred name, else the first with this head dimension. -/
def namedOrFirst (table : List FlashFwdConfig) (preferred : List Char) (headDim : Int64) :
    Except String FlashFwdConfig :=
  match findConfig table preferred with
  | some config => .ok config
  | none => firstConfig table headDim

def MMnNkN.defaultConfig (table : List FlashFwdConfig) (headDim : Int64) :
    Except String FlashFwdConfig :=
  let preferred := "hd".toList ++ stdToString headDim ++ "_bm64_bn64_wm4_wn2_s2".toList
  namedOrFirst table preferred headDim

def MMn1k1.defaultConfig (table : List FlashFwdConfig) (defaultConfigName : List Char)
    (headDim : Int64) : Except String FlashFwdConfig :=
  let preferredBlockM : Int64 := if headDim = 64 then 128 else 64
  let preferred :=
    "hd".toList ++ stdToString headDim ++ "_bm".toList ++ stdToString preferredBlockM ++
      "_bn32_w8_s2".toList
  match findConfig table defaultConfigName with
  | some config =>
    if Int64.ofNat config.headDim = headDim then .ok config
    else namedOrFirst table preferred headDim
  | none => namedOrFirst table preferred headDim

section Sizes

theorem eq_ofNat_iff {x : Int64} {n : ℕ} (hn : n < 2 ^ 31) : x = Int64.ofNat n ↔ x.toInt = n := by
  rw [← Int64.toInt_inj, Int64.toInt_ofNat_of_lt (hn.trans (by decide))]

theorem InputTensor.size_nonneg (t : InputTensor) (i : ℕ) : 0 ≤ (t.size i).toInt := by
  rw [InputTensor.size, List.getD_eq_getElem?_getD]
  cases h : t.sizes[i]? with
  | none => simp
  | some n => exact t.sizes_nonneg n (List.mem_of_getElem? h)

theorem find_headNum {x : Int64} {n : ℕ} (hx : 0 ≤ x.toInt) :
    headNums.find? (fun n ↦ x = Int64.ofNat n) = some n ↔ x.toInt.toNat = n ∧ n ∈ headNums := by
  have hlt : ∀ n ∈ headNums, n < 2 ^ 31 := by decide
  constructor
  · intro h
    obtain ⟨hmem, heq⟩ := find_holds h
    rw [eq_ofNat_iff (hlt n hmem)] at heq
    refine ⟨?_, hmem⟩
    rw [heq, Int.toNat_natCast]
  · intro ⟨heq, hmem⟩
    apply find_unique hmem
    · rw [eq_ofNat_iff (hlt n hmem)]
      omega
    · intro m hm hxm
      rw [eq_ofNat_iff (hlt m hm)] at hxm
      omega

end Sizes

namespace Variant

variable {P : Type} (v : Variant P)

def row (t : P) : FlashFwdConfig := (v.instantiated t).1

def kernel (t : P) : KernelSource := (v.instantiated t).2

def rowOrError (headDim : Int64) : Option P → Except String FlashFwdConfig
  | some t => .ok (v.row t)
  | none => .error s!"no flash_fwd config was built for head_dim={headDim}"

variable {v}

theorem findConfig_row {ts : List P} {name : List Char} {config : FlashFwdConfig} :
    findConfig (ts.map v.row) name = some config ↔ ∃ t ∈ ts, name = v.configName t ∧
    config = v.row t := by
  constructor
  · intro h
    obtain ⟨hmem, hname⟩ := find_holds h
    obtain ⟨t, ht, rfl⟩ := List.mem_map.1 hmem
    exact ⟨t, ht, hname, rfl⟩
  · intro ⟨t, ht, hname, hconfig⟩
    rw [hconfig]
    apply find_unique
    · exact List.mem_map_of_mem ht
    · exact hname
    · intro c hc hcname
      obtain ⟨t', _, rfl⟩ := List.mem_map.1 hc
      rw [hname] at hcname
      rw [Generator.configName_injective (g := v.toGenerator) hcname]

theorem findConfig_configName [DecidableEq P] (ts : List P) (t : P) :
    findConfig (ts.map v.row) (v.configName t) = if t ∈ ts then some (v.row t) else none := by
  split_ifs with ht
  · exact findConfig_row.2 ⟨t, ht, rfl, rfl⟩
  · cases h : findConfig (ts.map v.row) (v.configName t) with
    | none => rfl
    | some config =>
      obtain ⟨t', ht', hname, -⟩ := findConfig_row.1 h
      rw [Generator.configName_injective (g := v.toGenerator) hname] at ht
      exact absurd ht' ht

theorem firstConfig_row {ts : List P} {d : P → ℕ} {h : Int64} (hd : ∀ t, (v.row t).headDim = d t)
    (h0 : 0 ≤ h.toInt) (hlt : ∀ t ∈ ts, d t < 2 ^ 31) :
    firstConfig (ts.map v.row) h = v.rowOrError h (ts.find? fun t ↦ d t = h.toInt.toNat) := by
  have hfind : ((ts.map v.row).find? fun config ↦ Int64.ofNat config.headDim = h) =
      (ts.find? fun t ↦ d t = h.toInt.toNat).map v.row := by
    rw [List.find?_map]
    congr 1
    apply List.find?_congr
    intro t ht
    rw [Function.comp_apply, hd, decide_eq_decide, eq_comm, eq_ofNat_iff (hlt t ht)]
    omega
  rw [firstConfig, hfind]
  cases ts.find? fun t ↦ d t = h.toInt.toNat with
  | none => rfl
  | some t => rfl

theorem namedOrFirst_row [DecidableEq P] {ts : List P} {d : P → ℕ} {t : P} {h : Int64}
    (hd : ∀ t, (v.row t).headDim = d t) (h0 : 0 ≤ h.toInt) (hlt : ∀ t ∈ ts, d t < 2 ^ 31)
    (ht : d t = h.toInt.toNat) :
    namedOrFirst (ts.map v.row) (v.configName t) h =
      v.rowOrError h (([t].find? fun t ↦ t ∈ ts ∧ d t = h.toInt.toNat).or
        (ts.find? fun t ↦ d t = h.toInt.toNat)) := by
  rw [namedOrFirst, findConfig_configName, List.find?_singleton, firstConfig_row hd h0 hlt]
  by_cases hmem : t ∈ ts
  · rw [if_pos hmem, if_pos (decide_eq_true ⟨hmem, ht⟩), Option.some_or]
    rfl
  · rw [if_neg hmem, if_neg (by rw [decide_eq_true_eq]; exact mt And.left hmem), Option.none_or]

end Variant

/-- A variant with its `flashatten_v3_pybind.cu` and the `main` of its generator. -/
structure Wrapper (P : Type) [DecidableEq P] extends Variant P where
  headDim : P → ℕ
  blockM : P → ℕ
  blockN : P → ℕ
  /-- `default_name` -/
  defaultName : List Char
  /-- the position of the name in `default_cfg_list` -/
  defaultGet : ℕ
  /-- the rows, the name of the default row and `head_dim` -/
  defaultConfig : List FlashFwdConfig → List Char → Int64 → Except String FlashFwdConfig
  /-- the tuples that `default_config` asks for first, given that of the default row and
  `head_dim` -/
  preferred : P → ℕ → List P
  grid : ∀ t maxSmem, isValidConfig t maxSmem = true → WarpGrid
  numbers_take : ∀ t, (numbers t).take 3 = [headDim t, blockM t, blockN t]
  groups_take : ∀ t, (groups t).take 3 = [headDim t, blockM t, blockN t]
  default_get : ∀ t, defaultGet = (numbers t).length
  grid_eq : ∀ t maxSmem h, (grid t maxSmem h).kHeadDim = headDim t ∧
    (grid t maxSmem h).kBlockM = blockM t ∧
    (grid t maxSmem h).kBlockN = blockN t
  valid_pos : ∀ t maxSmem, isValidConfig t maxSmem = true → 0 < headDim t ∧ 0 < blockM t ∧
    0 < blockN t
  default_choice : ∀ (ts : List P) (t₀ : P) (h : Int64), 0 ≤ h.toInt →
    (∀ t ∈ ts, headDim t < 2 ^ 31) →
    defaultConfig (ts.map toVariant.row) (configName t₀) h =
      toVariant.rowOrError h
        (((preferred t₀ h.toInt.toNat).find? fun t ↦ t ∈ ts ∧ headDim t = h.toInt.toNat).or
          (ts.find? fun t ↦ headDim t = h.toInt.toNat))

/-- An extension module that was built: the generator and CMake went through, and the compiler took
the rows, whose members are of type int. -/
structure Module {P : Type} [DecidableEq P] (w : Wrapper P) (D : DigitTable) where
  maxSmemKb : ℕ
  onlyConfigs : List (List Char)
  entries : List Entry
  built : List (FlashFwdConfig × KernelSource)
  defaultConfigName : List Char
  generated : w.generateConfigs D maxSmemKb onlyConfigs = .ok entries
  nonempty : entries ≠ []
  build_eq : w.build entries = some built
  default_eq : ((entries.find? fun cfg ↦ cfg.name = w.defaultName).or entries.head?).bind
    (fun cfg ↦ (cmakeList (replaceChar '|' ';' cfg.text))[w.defaultGet]?) = some defaultConfigName
  compiled : ∀ b ∈ built, ∀ n ∈ b.1.fields, n < 2 ^ 31

namespace Module

variable {P : Type} [DecidableEq P] {w : Wrapper P} {D : DigitTable} (M : Module w D)
    (status : LaunchStatus)

def table : List FlashFwdConfig := M.built.map Prod.fst

def kernels : List KernelSource := M.built.map Prod.snd

def fwdConfig (configName : List Char) (q k v : InputTensor) (causal : Bool) :
    Except String Output := do
  guards (checkInputs q k v)
  match findConfig M.table configName with
  | none => .error ("unknown flash_fwd config: " ++ String.ofList configName)
  | some config =>
    guards (checkRuntimeShape config.blockM config.blockN (q.size 0) (q.size 1))
    config.call status M.kernels q causal

def fwd (q k v : InputTensor) (causal : Bool) : Except String Output := do
  guards (checkInputs q k v)
  let config ← w.defaultConfig M.table M.defaultConfigName (q.size 3)
  guards (checkRuntimeShape config.blockM config.blockN (q.size 0) (q.size 1))
  config.call status M.kernels q causal

def tuples : List P := M.kernels.map fun kernel ↦ w.ofGroups kernel.constants

end Module

structure Compatible (q k v : InputTensor) : Prop where
  cuda : q.device.type = .cuda
  half : ∀ t ∈ [q, k, v], t.scalarType = .half
  contiguous : ∀ t ∈ [q, k, v], t.isContiguous = true
  rank : q.sizes.length = 4
  sizes : ∀ t ∈ [k, v], t.sizes = q.sizes
  device : ∀ t ∈ [k, v], t.device = q.device

theorem checkInputs_iff {q k v : InputTensor} :
    (∀ g ∈ checkInputs q k v, g.1 = true) ↔ Compatible q k v := by
  simp only [checkInputs, checkInputTensor, List.cons_append, List.nil_append, List.forall_mem_cons,
    torchCheck_holds, List.not_mem_nil, false_implies, implies_true, and_true]
  simp only [InputTensor.isCuda, InputTensor.dim, decide_eq_true_eq]
  constructor
  · intro ⟨hqc, hqh, hqk, hqd, _, hkh, hkk, _, _, hvh, hvk, _, hks, hvs, hkd, hvd⟩
    constructor
    · exact hqc
    · simp [hqh, hkh, hvh]
    · simp [hqk, hkk, hvk]
    · exact hqd
    · simp [hks, hvs]
    · simp [hkd, hvd]
  · intro h
    have hh := h.half
    have hc := h.contiguous
    have hs := h.sizes
    have hd := h.device
    simp only [List.forall_mem_cons, List.not_mem_nil, false_implies, implies_true,
      and_true] at hh hc hs hd
    have hcuda := h.cuda
    have hrank := h.rank
    rw [hs.1, hs.2, hd.1, hd.2]
    exact ⟨hcuda, hh.1, hc.1, hrank, hcuda, hh.2.1, hc.2.1, hrank, hcuda, hh.2.2, hc.2.2, hrank,
      rfl, rfl, rfl, rfl⟩

namespace Wrapper

variable {P : Type} [DecidableEq P] (w : Wrapper P)

/-- The problems that the kernel of a tuple is made for. -/
structure Accepts (t : P) (q : InputTensor) : Prop where
  headDim : (q.size 3).toInt = w.headDim t
  headNum : (q.size 2).toInt.toNat ∈ headNums
  seqLen_pos : 0 < (q.size 1).toInt
  blockM_dvd : (w.blockM t : ℤ) ∣ (q.size 1).toInt
  blockN_dvd : (w.blockN t : ℤ) ∣ (q.size 1).toInt
  batch_pos : 0 < (q.size 0).toInt

def launch (t : P) (q : InputTensor) (causal : Bool) : KernelLaunch :=
  ⟨w.groups t, (q.size 2).toInt.toNat, causal, (q.size 1).toInt32, (q.size 0).toInt32⟩

variable {w}

theorem getD_of_take {ns : List ℕ} {a b c : ℕ} (h : ns.take 3 = [a, b, c]) :
    ns.getD 0 0 = a ∧ ns.getD 1 0 = b ∧ ns.getD 2 0 = c := by
  match ns, h with
  | x :: y :: z :: ns, h =>
    rw [List.take_succ_cons, List.take_succ_cons, List.take_succ_cons, List.take_zero] at h
    cases h
    exact ⟨rfl, rfl, rfl⟩

theorem row_headDim (t : P) : (w.row t).headDim = w.headDim t := (getD_of_take (w.numbers_take t)).1

theorem row_blockM (t : P) : (w.row t).blockM = w.blockM t := (getD_of_take (w.numbers_take t)).2.1

theorem row_blockN (t : P) : (w.row t).blockN = w.blockN t := (getD_of_take (w.numbers_take t)).2.2

theorem kernel_headDim (t : P) : (w.kernel t).constants.getD 0 0 = w.headDim t :=
  (getD_of_take (w.groups_take t)).1

end Wrapper

namespace Module

variable {P : Type} [DecidableEq P] {w : Wrapper P} {D : DigitTable} (M : Module w D)

theorem map_ofGroups (ts : List P) :
    ((ts.map w.instantiated).map Prod.snd).map (fun kernel ↦ w.ofGroups kernel.constants) = ts := by
  rw [List.map_map, List.map_map]
  conv_rhs => rw [← List.map_id ts]
  apply List.map_congr_left
  intro t _
  exact w.ofGroups_groups t

theorem generateConfigs_valid {maxSmemKb : ℕ} {names : List (List Char)} {entries : List Entry}
    (h : w.generateConfigs D maxSmemKb names = .ok entries) :
    ∃ ts : List P, ts.Nodup ∧ entries = ts.map w.makeConfig ∧
      ∀ t ∈ ts, w.isValidConfig t (maxSmemKb * 1024) = true := by
  by_cases hne : names = []
  · rw [hne, Generator.generateConfigs, if_neg (by simp), Except.ok.injEq] at h
    refine ⟨_, w.candidates_nodup.filter _, h.symm, ?_⟩
    intro t ht
    exact (List.mem_filter.1 ht).2
  · obtain ⟨ts, -, hv, hts⟩ := (Generator.generateConfigs_listed hne h).tuples
    refine ⟨_, Generator.nodup_eraseDups ts, hts, ?_⟩
    intro t ht
    exact hv t (List.mem_eraseDups.1 ht)

theorem spec : M.tuples.Nodup ∧ M.entries = M.tuples.map w.makeConfig ∧
    M.built = M.tuples.map w.instantiated ∧
    ∀ t ∈ M.tuples, w.isValidConfig t (M.maxSmemKb * 1024) = true := by
  obtain ⟨ts, hnodup, hentries, hvalid⟩ := generateConfigs_valid M.generated
  have hbuilt : M.built = ts.map w.instantiated := by
    have hb := M.build_eq
    rw [hentries, Variant.build_eq] at hb
    exact (Option.some.inj hb).symm
  have hts : M.tuples = ts := by rw [tuples, kernels, hbuilt, map_ofGroups]
  rw [hts]
  exact ⟨hnodup, hentries, hbuilt, hvalid⟩

theorem table_eq : M.table = M.tuples.map w.row := by
  rw [table, M.spec.2.2.1, List.map_map]
  rfl

theorem kernels_eq : M.kernels = M.tuples.map w.kernel := by
  rw [kernels, M.spec.2.2.1, List.map_map]
  rfl

theorem compiled_lt {t : P} (ht : t ∈ M.tuples) : ∀ n ∈ w.numbers t, n < 2 ^ 31 := by
  apply M.compiled (w.instantiated t)
  rw [M.spec.2.2.1]
  exact List.mem_map_of_mem ht

theorem headDim_lt {t : P} (ht : t ∈ M.tuples) : w.headDim t < 2 ^ 31 := by
  apply M.compiled_lt ht
  apply List.mem_of_mem_take
  rw [w.numbers_take t]
  simp

theorem blockM_lt {t : P} (ht : t ∈ M.tuples) : w.blockM t < 2 ^ 31 := by
  apply M.compiled_lt ht
  apply List.mem_of_mem_take
  rw [w.numbers_take t]
  simp

theorem blockN_lt {t : P} (ht : t ∈ M.tuples) : w.blockN t < 2 ^ 31 := by
  apply M.compiled_lt ht
  apply List.mem_of_mem_take
  rw [w.numbers_take t]
  simp

end Module

namespace Module

variable {P : Type} [DecidableEq P] {w : Wrapper P} {D : DigitTable} (M : Module w D)
    {status : LaunchStatus}

theorem checkRuntimeShape_row {t : P} (ht : t ∈ M.tuples) {q : InputTensor} :
    guards (checkRuntimeShape (w.row t).blockM (w.row t).blockN (q.size 0) (q.size 1)) = .ok () ↔
      0 < (q.size 1).toInt ∧ (w.blockM t : ℤ) ∣ (q.size 1).toInt ∧
      (w.blockN t : ℤ) ∣ (q.size 1).toInt ∧
        0 < (q.size 0).toInt := by
  rw [Wrapper.row_blockM, Wrapper.row_blockN,
    checkRuntimeShape_ok (M.blockM_lt ht) (M.blockN_lt ht)]

theorem findConfig_row {name : List Char} {config : FlashFwdConfig} :
    findConfig M.table name = some config ↔ ∃ t ∈ M.tuples, name = w.configName t ∧
    config = w.row t := by
  rw [M.table_eq, Variant.findConfig_row]

theorem call_row {t : P} (ht : t ∈ M.tuples) (q : InputTensor) (causal : Bool) :
    (w.row t).call status M.kernels q causal = runFlashFwd status (w.kernel t) q causal := by
  have hfind : (M.kernels.find? fun kernel ↦ kernel.symbol = (w.row t).run) =
      some (w.kernel t) := by
    rw [M.kernels_eq]
    apply find_unique
    · exact List.mem_map_of_mem ht
    · rfl
    · intro c hc hsymbol
      obtain ⟨t', _, rfl⟩ := List.mem_map.1 hc
      rw [Generator.configName_injective (g := w.toGenerator) hsymbol]
  rw [FlashFwdConfig.call, hfind]

theorem runFixedShape_ok {t : P} {q : InputTensor} {causal : Bool} {n : ℕ} {out : Output}
    (hn : (q.size 2).toInt.toNat = n) :
    runFixedShape status (w.kernel t) causal n q = .ok out ↔
      status (w.launch t q causal) = none ∧ out = ⟨q.sizes, w.launch t q causal⟩ := by
  have hlaunch :
      (⟨(w.kernel t).constants, n, causal, (q.size 1).toInt32, (q.size 0).toInt32⟩ : KernelLaunch) =
      w.launch t q causal := by
    rw [Wrapper.launch, hn]
    rfl
  simp only [runFixedShape, hlaunch]
  cases status (w.launch t q causal) with
  | none => simp only [Except.ok.injEq, eq_comm, true_and]
  | some text => simp only [reduceCtorEq, false_and]

theorem runFlashFwd_ok {t : P} (ht : t ∈ M.tuples) {q : InputTensor} {causal : Bool}
    {out : Output} : runFlashFwd status (w.kernel t) q causal = .ok out ↔
      (q.size 3).toInt = w.headDim t ∧ (q.size 2).toInt.toNat ∈ headNums ∧
        status (w.launch t q causal) = none ∧ out = ⟨q.sizes, w.launch t q causal⟩ := by
  rw [← eq_ofNat_iff (x := q.size 3) (M.headDim_lt ht)]
  simp only [runFlashFwd, Wrapper.kernel_headDim]
  by_cases hd : q.size 3 = Int64.ofNat (w.headDim t)
  · rw [if_neg (not_not.2 hd)]
    cases hfind : headNums.find? fun n ↦ q.size 2 = Int64.ofNat n with
    | none =>
      have hnot : (q.size 2).toInt.toNat ∉ headNums := by
        intro hmem
        have hsome := (find_headNum (q.size_nonneg 2)).2 ⟨rfl, hmem⟩
        rw [hfind] at hsome
        cases hsome
      simp only [hnot, false_and, and_false, reduceCtorEq]
    | some n =>
      obtain ⟨hn, hmem⟩ := (find_headNum (q.size_nonneg 2)).1 hfind
      rw [← hn] at hmem
      simp only [runFixedShape_ok hn, hd, hmem, true_and]
  · rw [if_pos hd]
    simp only [hd, false_and, reduceCtorEq]

theorem served_iff {t : P} (ht : t ∈ M.tuples) {q : InputTensor} {causal : Bool} {out : Output} :
    (guards (checkRuntimeShape (w.row t).blockM (w.row t).blockN (q.size 0) (q.size 1)) >>= fun _ ↦
      (w.row t).call status M.kernels q causal) = .ok out ↔
      w.Accepts t q ∧ status (w.launch t q causal) = none ∧
      out = ⟨q.sizes, w.launch t q causal⟩ := by
  rw [guards_bind_ok, ← guards_ok, M.checkRuntimeShape_row ht, M.call_row ht, M.runFlashFwd_ok ht]
  constructor
  · intro ⟨⟨hs, hm, hn, hb⟩, hd, hh, hstatus, hout⟩
    exact ⟨⟨hd, hh, hs, hm, hn, hb⟩, hstatus, hout⟩
  · intro ⟨h, hstatus, hout⟩
    exact ⟨⟨h.seqLen_pos, h.blockM_dvd, h.blockN_dvd, h.batch_pos⟩, h.headDim, h.headNum,
      hstatus, hout⟩

theorem fwdConfig_ok {name : List Char} {q k v : InputTensor} {causal : Bool} {out : Output} :
    M.fwdConfig status name q k v causal = .ok out ↔ Compatible q k v ∧
    ∃ t ∈ M.tuples, name = w.configName t ∧
      w.Accepts t q ∧ status (w.launch t q causal) = none ∧
      out = ⟨q.sizes, w.launch t q causal⟩ := by
  rw [fwdConfig, guards_bind_ok, checkInputs_iff]
  apply and_congr_right
  intro _
  cases hfind : findConfig M.table name with
  | none =>
    constructor
    · intro h
      cases h
    · intro ⟨t, ht, hname, _⟩
      have hsome := M.findConfig_row.2 ⟨t, ht, hname, rfl⟩
      rw [hfind] at hsome
      cases hsome
  | some config =>
    obtain ⟨t, ht, hname, hconfig⟩ := M.findConfig_row.1 hfind
    dsimp only
    rw [hconfig, M.served_iff ht]
    constructor
    · intro h
      exact ⟨t, ht, hname, h⟩
    · intro ⟨t', _, hname', h⟩
      rw [hname] at hname'
      rw [Generator.configName_injective hname']
      exact h

end Module

namespace MMnNkN

namespace Params

def config (t : Params) (maxSmem : ℕ) (h : t.isValidConfig maxSmem = true) : Config t.headDim :=
  ⟨t.blockM, t.blockN, t.warpsM, t.warpsN, t.stage, maxSmem, h⟩

/-- The tuple that `default_config` names. -/
def preferred (headDim : ℕ) : Params := ⟨headDim, 64, 64, 4, 2, 2⟩

theorem stdToString_nat {h : Int64} (h0 : 0 ≤ h.toInt) : stdToString h = decimal h.toInt.toNat := by
  rw [stdToString, if_neg (not_lt.2 h0)]
  congr 1
  omega

theorem preferred_name {h : Int64} (h0 : 0 ≤ h.toInt) :
    "hd".toList ++ stdToString h ++ "_bm64_bn64_wm4_wn2_s2".toList =
      (preferred h.toInt.toNat).configName := by
  have htail : "_bm64_bn64_wm4_wn2_s2".toList = "_bm".toList ++ decimal 64 ++ "_bn".toList ++
      decimal 64 ++
      "_wm".toList ++ decimal 4 ++ "_wn".toList ++ decimal 2 ++ "_s".toList ++ decimal 2 := by
        decide +kernel
  rw [stdToString_nat h0, htail]
  unfold configName preferred
  dsimp only
  simp only [List.append_assoc]

end Params

theorem defaultConfig_choice (ts : List Params) (h : Int64) (h0 : 0 ≤ h.toInt)
    (hlt : ∀ t ∈ ts, t.headDim < 2 ^ 31) :
    defaultConfig (ts.map variant.row) h =
      variant.rowOrError h
        (([Params.preferred h.toInt.toNat].find? fun t ↦ t ∈ ts ∧ t.headDim = h.toInt.toNat).or
          (ts.find? fun t ↦ t.headDim = h.toInt.toNat)) := by
  rw [defaultConfig, Params.preferred_name h0]
  exact Variant.namedOrFirst_row (v := variant) (fun _ ↦ rfl) h0 hlt rfl

def wrapper : Wrapper Params where
  toVariant := variant
  headDim := Params.headDim
  blockM := Params.blockM
  blockN := Params.blockN
  defaultName := "hd64_bm64_bn64_wm4_wn2_s2".toList
  defaultGet := 8
  defaultConfig table _ headDim := defaultConfig table headDim
  preferred _ headDim := [Params.preferred headDim]
  grid t maxSmem h := (t.config maxSmem h).traits.grid
  numbers_take _ := rfl
  groups_take _ := rfl
  default_get _ := rfl
  grid_eq _ _ _ := ⟨rfl, rfl, rfl⟩
  valid_pos _ _ h :=
    ⟨(isValidConfig_spec h).1, (isValidConfig_spec h).2.1, (isValidConfig_spec h).2.2.1⟩
  default_choice ts _ h := defaultConfig_choice ts h

end MMnNkN

namespace MMn1k1

namespace Params

def config (t : Params) (maxSmem : ℕ) (h : t.isValidConfig maxSmem = true) : Config t.headDim :=
  ⟨t.blockM, t.blockN, t.nwarps, t.stage, maxSmem, h⟩

def preferred (headDim : ℕ) : Params := ⟨headDim, if headDim = 64 then 128 else 64, 32, 8, 2⟩

theorem preferred_name {h : Int64} (h0 : 0 ≤ h.toInt) :
    "hd".toList ++ stdToString h ++ "_bm".toList ++ stdToString (if h = 64 then 128 else 64) ++
      "_bn32_w8_s2".toList = (preferred h.toInt.toNat).configName := by
  have htail : "_bn32_w8_s2".toList = "_bn".toList ++ decimal 32 ++ "_w".toList ++ decimal 8 ++
      "_s".toList ++ decimal 2 := by decide +kernel
  have h64 : h = 64 ↔ h.toInt.toNat = 64 := by
    rw [← Int64.toInt_inj]
    have hv : (64 : Int64).toInt = 64 := by decide
    omega
  have hblock : stdToString (if h = 64 then 128 else 64) =
      decimal (if h.toInt.toNat = 64 then 128 else 64) := by
    by_cases hh : h = 64
    · rw [if_pos hh, if_pos (h64.1 hh)]
      rfl
    · rw [if_neg hh, if_neg (mt h64.2 hh)]
      rfl
  rw [MMnNkN.Params.stdToString_nat h0, hblock, htail]
  unfold configName preferred
  dsimp only
  simp only [List.append_assoc]

end Params

theorem defaultConfig_choice (ts : List Params) (t₀ : Params) (h : Int64) (h0 : 0 ≤ h.toInt)
    (hlt : ∀ t ∈ ts, t.headDim < 2 ^ 31) :
    defaultConfig (ts.map variant.row) t₀.configName h =
      variant.rowOrError h
        (([t₀, Params.preferred h.toInt.toNat].find? fun t ↦ t ∈ ts ∧ t.headDim = h.toInt.toNat).or
          (ts.find? fun t ↦ t.headDim = h.toInt.toNat)) := by
  have hfallback :
      namedOrFirst (ts.map variant.row) (Params.preferred h.toInt.toNat).configName h = _ :=
    Variant.namedOrFirst_row (v := variant) (d := Params.headDim) (fun _ ↦ rfl) h0 hlt rfl
  have hname : findConfig (ts.map variant.row) t₀.configName = _ :=
    Variant.findConfig_configName (v := variant) ts t₀
  have hrow : (variant.row t₀).headDim = t₀.headDim := rfl
  simp only [defaultConfig, Params.preferred_name h0, hfallback]
  rw [hname]
  by_cases hmem : t₀ ∈ ts
  · have hcond : Int64.ofNat t₀.headDim = h ↔ t₀.headDim = h.toInt.toNat := by
      rw [eq_comm, eq_ofNat_iff (hlt t₀ hmem)]
      omega
    rw [if_pos hmem]
    dsimp only
    rw [hrow]
    by_cases hd : t₀.headDim = h.toInt.toNat
    · rw [if_pos (hcond.2 hd), List.find?_cons_of_pos (a := t₀) (decide_eq_true ⟨hmem, hd⟩),
        Option.some_or]
      rfl
    · rw [if_neg (mt hcond.1 hd), List.find?_cons_of_neg (a := t₀)]
      rw [decide_eq_true_eq]
      exact mt And.right hd
  · rw [if_neg hmem, List.find?_cons_of_neg (a := t₀)]
    rw [decide_eq_true_eq]
    exact mt And.left hmem

def wrapper : Wrapper Params where
  toVariant := variant
  headDim := Params.headDim
  blockM := Params.blockM
  blockN := Params.blockN
  defaultName := "hd64_bm128_bn32_w8_s2".toList
  defaultGet := 6
  defaultConfig := defaultConfig
  preferred t₀ headDim := [t₀, Params.preferred headDim]
  grid t maxSmem h := (t.config maxSmem h).traits.grid
  numbers_take _ := rfl
  groups_take _ := rfl
  default_get _ := rfl
  grid_eq _ _ _ := ⟨rfl, rfl, rfl⟩
  valid_pos _ _ h :=
    ⟨(isValidConfig_spec h).1, (isValidConfig_spec h).2.1, (isValidConfig_spec h).2.2.1⟩
  default_choice := defaultConfig_choice

end MMn1k1

end Sm120.Flash
