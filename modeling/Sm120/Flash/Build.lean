import Sm120.Lib.CMake
import Sm120.Flash.Config
import Sm120.Flash.Names

namespace Sm120.Flash

open Lib

/-- A line of the generated `configs.cmake`. -/
def Entry.text (cfg : Entry) : List Char :=
  ['|'].intercalate (cfg.numbers.map decimal ++ [cfg.name])

/-- The variables that the loop over `FLASH_FWD_CONFIGS` sets. -/
inductive CMakeVar
  | headDim
  | bm
  | bn
  | warpsM
  | warpsN
  | nwarps
  | stage
  | smemBytes
  | cfgName
deriving DecidableEq

/-- A row of `kFlashFwdConfigs`; `run` is the symbol that it points to. -/
structure FlashFwdConfig where
  name : List Char
  fields : List ℕ
  run : List Char
deriving DecidableEq

structure KernelSource where
  symbol : List Char
  constants : List ℕ
deriving DecidableEq

/-- A variant is a generator and its `CMakeLists.txt`: the positions that `list(GET …)` reads, and
the variables of the table and of the kernel template, in order. -/
structure Variant (P : Type) extends Generator P where
  gets : List (CMakeVar × ℕ)
  table : List CMakeVar
  template : List CMakeVar
  literals_ne : literals ≠ []
  literals_ident : ∀ lit ∈ literals, ∀ c ∈ lit, isIdentChar c = true
  candidates_nodup : candidates.Nodup
  name_get : ∀ t, gets.lookup .cfgName = some (numbers t).length
  table_gets : ∀ t, table.map (fun x ↦ (gets.lookup x).bind fun (k : ℕ) ↦ (numbers t)[k]?) =
    (numbers t).map some
  template_gets : ∀ t,
    template.map (fun x ↦ (gets.lookup x).bind fun (k : ℕ) ↦ (numbers t)[k]?) = (groups t).map some

namespace Variant

variable {P : Type} (v : Variant P)

def getVar (cfgList : List (List Char)) (x : CMakeVar) : Option (List Char) :=
  (v.gets.lookup x).bind fun (k : ℕ) ↦ cfgList[k]?

def configure (cfg : List Char) : Option (FlashFwdConfig × KernelSource) := do
  let cfgList := cmakeList (replaceChar '|' ';' cfg)
  let name ← v.getVar cfgList .cfgName
  let fields ← v.table.mapM (v.getVar cfgList)
  let constants ← v.template.mapM (v.getVar cfgList)
  let symbol := makeCIdentifier name
  return (⟨name, fields.map intLiteral, symbol⟩, ⟨symbol, constants.map intLiteral⟩)

def build (configs : List Entry) : Option (List (FlashFwdConfig × KernelSource)) :=
  (cmakeList (cmakeJoin (configs.map Entry.text))).mapM v.configure

def instantiated (t : P) : FlashFwdConfig × KernelSource :=
  (⟨v.configName t, v.numbers t, v.configName t⟩, ⟨v.configName t, v.groups t⟩)

section Names

variable {v}

theorem configName_ident {t : P} {c : Char} (h : c ∈ v.configName t) : isIdentChar c = true := by
  rw [v.configName_eq] at h
  rcases mem_fillPattern h with h | ⟨lit, hlit, hc⟩
  · exact isIdentChar_of_isDigit h
  · exact v.literals_ident lit hlit c hc

theorem configName_head (t : P) : ∃ c rest, v.configName t = c :: rest ∧ c.isDigit = false := by
  rw [v.configName_eq]
  have hlen := v.groups_length t
  cases hl : v.literals with
  | nil => exact absurd hl v.literals_ne
  | cons lit lits =>
    cases hg : v.groups t with
    | nil =>
      rw [hl, hg] at hlen
      cases hlen
    | cons n ns =>
      obtain ⟨c, rest, rfl, -, hc⟩ := v.separates lit (by rw [hl]; exact List.mem_cons_self)
      exact ⟨c, rest ++ decimal n ++ fillPattern lits ns, rfl, hc⟩

theorem makeCIdentifier_configName (t : P) : makeCIdentifier (v.configName t) = v.configName t := by
  apply makeCIdentifier_eq
  · intro c
    exact configName_ident
  · obtain ⟨c, rest, hname, hc⟩ := v.configName_head t
    rw [hname]
    intro d hd
    cases hd
    exact hc

end Names

section Loop

variable {v}

theorem elements_ident {t : P} {l : List Char}
    (hl : l ∈ (v.numbers t).map decimal ++ [v.configName t]) : ∀ c ∈ l, isIdentChar c = true := by
  intro c hc
  rcases List.mem_append.1 hl with hl | hl
  · obtain ⟨n, -, rfl⟩ := List.mem_map.1 hl
    exact isIdentChar_of_isDigit (isDigit_of_mem_decimal hc)
  · rw [List.mem_singleton.1 hl] at hc
    exact configName_ident hc

theorem elements_ne (t : P) : (v.numbers t).map decimal ++ [v.configName t] ≠ [[]] := by
  intro h
  obtain ⟨c, rest, hname, -⟩ := v.configName_head t
  have hlast := congrArg List.getLast? h
  rw [List.getLast?_concat, hname] at hlast
  cases hlast

theorem cmakeList_text (t : P) : cmakeList (replaceChar '|' ';' (v.makeConfig t).text) =
    (v.numbers t).map decimal ++ [v.configName t] := by
  apply cmakeList_replaceChar _ _ (elements_ne t)
  · intro l hl
    exact not_mem_of_ident (elements_ident hl) (by decide)
  · intro l hl
    exact not_mem_of_ident (elements_ident hl) (by decide)

theorem semicolon_not_mem_text (t : P) : ';' ∉ (v.makeConfig t).text := by
  intro h
  rcases mem_intercalate h with h | ⟨l, hl, hc⟩
  · exact absurd h (by decide)
  · exact not_mem_of_ident (elements_ident hl) (by decide) hc

theorem text_ne (t : P) : (v.makeConfig t).text ≠ [] := by
  intro h
  have hlist := v.cmakeList_text t
  rw [h] at hlist
  exact List.append_ne_nil_of_right_ne_nil _ (List.cons_ne_nil _ _) hlist.symm

theorem mapM_getVar {t : P} {name : List Char} {xs : List CMakeVar} {ns : List ℕ}
    (h : xs.map (fun x ↦ (v.gets.lookup x).bind fun (k : ℕ) ↦ (v.numbers t)[k]?) = ns.map some) :
    xs.mapM (v.getVar ((v.numbers t).map decimal ++ [name])) = some (ns.map decimal) := by
  induction xs generalizing ns with
  | nil =>
    cases ns with
    | nil => rfl
    | cons n ns => cases h
  | cons x xs ih =>
    cases ns with
    | nil => cases h
    | cons n ns =>
      rw [List.map_cons, List.map_cons, List.cons.injEq] at h
      obtain ⟨k, hk, hn⟩ := Option.bind_eq_some_iff.1 h.1
      have hx : v.getVar ((v.numbers t).map decimal ++ [name]) x = some (decimal n) := by
        rw [getVar, hk, Option.bind_some, List.getElem?_append_left, List.getElem?_map, hn]
        · rfl
        · rw [List.length_map]
          exact (List.getElem?_eq_some_iff.1 hn).1
      rw [List.mapM_cons, hx, ih h.2]
      rfl

theorem map_intLiteral_decimal (ns : List ℕ) : (ns.map decimal).map intLiteral = ns := by
  rw [List.map_map]
  conv_rhs => rw [← List.map_id ns]
  apply List.map_congr_left
  intro n _
  exact intLiteral_decimal n

theorem configure_text (t : P) : v.configure (v.makeConfig t).text = some (v.instantiated t) := by
  have hname : v.getVar ((v.numbers t).map decimal ++ [v.configName t]) .cfgName =
      some (v.configName t) := by
    rw [getVar, v.name_get t, Option.bind_some, List.getElem?_append_right]
    · rw [List.length_map, Nat.sub_self]
      rfl
    · rw [List.length_map]
  simp only [configure, cmakeList_text, hname, mapM_getVar (v.table_gets t),
    mapM_getVar (v.template_gets t), Option.bind_eq_bind, Option.bind_some,
    makeCIdentifier_configName, map_intLiteral_decimal]
  rfl

theorem mapM_configure (ts : List P) :
    (ts.map (Entry.text ∘ v.makeConfig)).mapM v.configure = some (ts.map v.instantiated) := by
  induction ts with
  | nil => rfl
  | cons t ts ih =>
    rw [List.map_cons, List.mapM_cons, Function.comp_apply, configure_text, ih]
    rfl

theorem build_eq (ts : List P) : v.build (ts.map v.makeConfig) = some (ts.map v.instantiated) := by
  have hlist : cmakeList (cmakeJoin ((ts.map v.makeConfig).map Entry.text)) =
      (ts.map v.makeConfig).map Entry.text := by
    rw [List.map_map]
    apply cmakeList_cmakeJoin
    · intro l hl
      obtain ⟨t, -, rfl⟩ := List.mem_map.1 hl
      exact semicolon_not_mem_text t
    · intro h
      obtain ⟨t, -, ht⟩ :=
        List.mem_map.1 (h ▸ List.mem_singleton.2 rfl : [] ∈ ts.map (Entry.text ∘ v.makeConfig))
      exact text_ne t ht
  rw [build, hlist, List.map_map, mapM_configure]

end Loop

section Exact

variable [DecidableEq P] (D : DigitTable)

/-- The table and the kernels of a build fit together, and the names say what was built. -/
structure Linked (configs : List Entry) (built : List (FlashFwdConfig × KernelSource)) : Prop where
  names : built.map (fun b ↦ b.1.name) = configs.map Entry.name
  fields : built.map (fun b ↦ b.1.fields) = configs.map Entry.numbers
  symbols : (built.map fun b ↦ b.2.symbol).Nodup
  run : ∀ b ∈ built, b.1.run = b.2.symbol
  spelled : ∀ b ∈ built, ∃ t, v.Spells D b.1.name t ∧ b.1.fields = v.numbers t ∧
    b.2.constants = v.groups t

structure NamesExact : Prop where
  roundTrip (t : P) (maxSmem : ℕ) : v.isValidConfig t maxSmem = true →
    v.parseConfigName D (v.configName t) maxSmem = .ok (v.makeConfig t)
  injective : Function.Injective v.configName
  listed (maxSmemKb : ℕ) (names : List (List Char)) (configs : List Entry) : names ≠ [] →
    v.generateConfigs D maxSmemKb names = .ok configs → v.Listed D names (maxSmemKb * 1024) configs
  default (maxSmemKb : ℕ) : v.generateConfigs D maxSmemKb [] =
    .ok (v.defaultConfigs (maxSmemKb * 1024))
  linked (maxSmemKb : ℕ) (names : List (List Char)) (configs : List Entry) :
    v.generateConfigs D maxSmemKb names = .ok configs → ∃ built, v.build configs = some built ∧
    v.Linked D configs built

variable {v D}

omit [DecidableEq P] in
theorem linked_map {ts : List P} (h : ts.Nodup) :
    v.Linked D (ts.map v.makeConfig) (ts.map v.instantiated) where
  names := by
    rw [List.map_map, List.map_map]
    rfl
  fields := by
    rw [List.map_map, List.map_map]
    rfl
  symbols := by
    rw [List.map_map]
    exact h.map Generator.configName_injective
  run := by
    intro b hb
    obtain ⟨t, -, rfl⟩ := List.mem_map.1 hb
    rfl
  spelled := by
    intro b hb
    obtain ⟨t, -, rfl⟩ := List.mem_map.1 hb
    exact ⟨t, Generator.spells_configName t, rfl, rfl⟩

theorem generateConfigs_nodup {maxSmemKb : ℕ} {names : List (List Char)} {configs : List Entry}
    (h : v.generateConfigs D maxSmemKb names = .ok configs) :
    ∃ ts : List P, ts.Nodup ∧ configs = ts.map v.makeConfig := by
  by_cases hne : names = []
  · rw [hne, Generator.generateConfigs, if_neg (by simp), Except.ok.injEq] at h
    exact ⟨_, v.candidates_nodup.filter _, h.symm⟩
  · obtain ⟨ts, -, -, hts⟩ := (Generator.generateConfigs_listed hne h).tuples
    exact ⟨_, Generator.nodup_eraseDups ts, hts⟩

theorem namesExact (v : Variant P) (D : DigitTable) : v.NamesExact D where
  roundTrip _ _ := Generator.parseConfigName_configName
  injective := Generator.configName_injective
  listed _ _ _ := Generator.generateConfigs_listed
  default _ := rfl
  linked maxSmemKb names configs h := by
    obtain ⟨ts, hts, rfl⟩ := generateConfigs_nodup h
    exact ⟨_, build_eq ts, linked_map hts⟩

end Exact

end Variant

end Sm120.Flash
