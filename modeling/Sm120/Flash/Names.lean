import Sm120.Lib.Pattern

namespace Sm120.Flash

open Lib

/-- A tuple of `make_config`: its numbers, and last its name. -/
structure Entry where
  numbers : List ℕ
  name : List Char
deriving DecidableEq

/-- What one `flash_configs.py` says of its parameters `P`: the regular expression of a name and the
text that the error expects, the groups as arguments, and the functions that use them. -/
structure Generator (P : Type) where
  literals : List (List Char)
  expected : String
  groups : P → List ℕ
  ofGroups : List ℕ → P
  configName : P → List Char
  numbers : P → List ℕ
  isValidConfig : P → ℕ → Bool
  candidates : List P
  separates : Separates literals
  groups_length : ∀ t, (groups t).length = literals.length
  ofGroups_groups : ∀ t, ofGroups (groups t) = t
  groups_ofGroups : ∀ ns : List ℕ, ns.length = literals.length → groups (ofGroups ns) = ns
  configName_eq : ∀ t, configName t = fillPattern literals (groups t)
  numbers_injective : Function.Injective numbers

inductive ConfigError
  | pattern (name : List Char) (expected : String)
  | rejected (name : List Char) (maxSmem : ℕ)
deriving DecidableEq

def ConfigError.text : ConfigError → String
  | pattern name expected =>
    "invalid flash_fwd config name '" ++ String.ofList name ++ "', expected " ++ expected
  | rejected name maxSmem =>
    "invalid flash_fwd config '" ++ String.ofList name ++ "' for max shared memory " ++
      toString (maxSmem / 1024) ++ " KiB"

def appendUniqueConfig (configs : List Entry) (cfg : Entry) : List Entry :=
  if configs.any fun existing ↦ existing.name = cfg.name then configs else configs ++ [cfg]

namespace Generator

variable {P : Type} (g : Generator P) (D : DigitTable)

def makeConfig (t : P) : Entry := ⟨g.numbers t, g.configName t⟩

def parseConfigName (name : List Char) (maxSmem : ℕ) : Except ConfigError Entry :=
  match matchPattern D g.literals name with
  | none => .error (.pattern name g.expected)
  | some groups =>
    let t := g.ofGroups (groups.map D.int)
    if !g.isValidConfig t maxSmem then .error (.rejected name maxSmem) else .ok (g.makeConfig t)

def defaultConfigs (maxSmem : ℕ) : List Entry :=
  (g.candidates.filter fun t ↦ g.isValidConfig t maxSmem).map g.makeConfig

def namedConfigs (maxSmem : ℕ) : List Entry → List (List Char) → Except ConfigError (List Entry)
  | configs, [] => .ok configs
  | configs, name :: names =>
    match g.parseConfigName D name maxSmem with
    | .error e => .error e
    | .ok cfg => namedConfigs maxSmem (appendUniqueConfig configs cfg) names

def generateConfigs (maxSmemKb : ℕ) (onlyConfigNames : List (List Char)) :
    Except ConfigError (List Entry) :=
  let maxSmem := maxSmemKb * 1024
  if onlyConfigNames ≠ [] then g.namedConfigs D maxSmem [] onlyConfigNames
  else .ok (g.defaultConfigs maxSmem)

/-- A name spells a tuple: its groups read as the numbers of the tuple, however they are written. -/
def Spells (name : List Char) (t : P) : Prop :=
  ∃ groups, Matches D g.literals name groups ∧ groups.map D.int = g.groups t

section Names

variable {g D}

theorem groups_injective : Function.Injective g.groups := by
  intro t t' h
  rw [← g.ofGroups_groups t, h, g.ofGroups_groups]

theorem spells_configName (t : P) : g.Spells D (g.configName t) t := by
  refine ⟨(g.groups t).map decimal, ?_, map_int_decimal _⟩
  rw [g.configName_eq]
  exact matches_fillPattern (g.groups_length t)

theorem Spells.unique {name : List Char} {t t' : P} (h : g.Spells D name t)
    (h' : g.Spells D name t') : t = t' := by
  obtain ⟨gs, hgs, ht⟩ := h
  obtain ⟨gs', hgs', ht'⟩ := h'
  apply groups_injective
  rw [← ht, ← ht', hgs.unique g.separates hgs']

theorem configName_injective : Function.Injective g.configName := by
  intro t t' h
  have hspells := spells_configName (D := .asciiOnly) (g := g) t
  rw [h] at hspells
  exact hspells.unique (spells_configName t')

theorem parseConfigName_ok {name : List Char} {maxSmem : ℕ} {cfg : Entry} :
    g.parseConfigName D name maxSmem = .ok cfg ↔
      ∃ t, g.Spells D name t ∧ g.isValidConfig t maxSmem = true ∧ g.makeConfig t = cfg := by
  unfold parseConfigName
  constructor
  · intro h
    cases hmatch : matchPattern D g.literals name with
    | none =>
      rw [hmatch] at h
      cases h
    | some groups =>
      rw [hmatch] at h
      have hm := (matchPattern_iff g.separates).1 hmatch
      cases hv : g.isValidConfig (g.ofGroups (groups.map D.int)) maxSmem
      · simp [hv] at h
      · refine ⟨_, ⟨groups, hm, ?_⟩, hv, by simpa [hv] using h⟩
        rw [g.groups_ofGroups]
        rw [List.length_map, hm.length]
  · intro ⟨t, ⟨groups, hm, ht⟩, hv, hcfg⟩
    rw [(matchPattern_iff g.separates).2 hm]
    simp only [ht, g.ofGroups_groups, hv, hcfg, Bool.not_true, Bool.false_eq_true, if_false]

theorem parseConfigName_configName {t : P} {maxSmem : ℕ} (h : g.isValidConfig t maxSmem = true) :
    g.parseConfigName D (g.configName t) maxSmem = .ok (g.makeConfig t) :=
  parseConfigName_ok.2 ⟨t, spells_configName t, h, rfl⟩

end Names

section Unique

variable {α : Type*} [DecidableEq α]

theorem eraseDups_concat (l : List α) (a : α) :
    (l ++ [a]).eraseDups = if a ∈ l then l.eraseDups else l.eraseDups ++ [a] := by
  rw [List.eraseDups_append, List.removeAll]
  by_cases h : a ∈ l
  · simp [h]
  · simp [h, List.eraseDups_cons]

theorem nodup_eraseDups (l : List α) : l.eraseDups.Nodup := by
  induction l using List.reverseRecOn with
  | nil => exact List.nodup_nil
  | append_singleton l a ih =>
    rw [eraseDups_concat]
    split_ifs with h
    · exact ih
    · rw [List.nodup_append]
      refine ⟨ih, List.nodup_singleton a, ?_⟩
      intro x hx y hy hxy
      rw [List.mem_singleton.1 hy] at hxy
      exact h (hxy ▸ List.mem_eraseDups.1 hx)

end Unique

section Requests

variable {g D} [DecidableEq P]

theorem appendUniqueConfig_eraseDups (ts : List P) (t : P) :
    appendUniqueConfig (ts.eraseDups.map g.makeConfig) (g.makeConfig t) =
      (ts ++ [t]).eraseDups.map g.makeConfig := by
  have hany : ((ts.eraseDups.map g.makeConfig).any fun e ↦ e.name = (g.makeConfig t).name) = true ↔
      t ∈ ts := by
    rw [List.any_eq_true]
    constructor
    · intro ⟨e, he, hname⟩
      obtain ⟨t', ht', rfl⟩ := List.mem_map.1 he
      rw [← configName_injective (of_decide_eq_true hname)]
      exact List.mem_eraseDups.1 ht'
    · intro ht
      exact ⟨_, List.mem_map_of_mem (List.mem_eraseDups.2 ht), decide_eq_true rfl⟩
  rw [appendUniqueConfig, eraseDups_concat]
  by_cases h : t ∈ ts
  · rw [if_pos (hany.2 h), if_pos h]
  · rw [if_neg (mt hany.1 h), if_neg h, List.map_append]
    rfl

/-- The loop goes through exactly when every name spells an accepted tuple, and leaves the first of
each. -/
theorem namedConfigs_ok {maxSmem : ℕ} {done : List P} {names : List (List Char)}
    {configs : List Entry} :
    g.namedConfigs D maxSmem (done.eraseDups.map g.makeConfig) names = .ok configs ↔
      ∃ ts, List.Forall₂ (g.Spells D) names ts ∧ (∀ t ∈ ts, g.isValidConfig t maxSmem = true) ∧
        (done ++ ts).eraseDups.map g.makeConfig = configs := by
  induction names generalizing done with
  | nil =>
    rw [namedConfigs, Except.ok.injEq]
    constructor
    · intro h
      refine ⟨[], .nil, fun t ht ↦ absurd ht List.not_mem_nil, ?_⟩
      rw [List.append_nil]
      exact h
    · intro ⟨ts, hts, _, h⟩
      cases hts
      rwa [List.append_nil] at h
  | cons name names ih =>
    constructor
    · intro h
      cases hp : g.parseConfigName D name maxSmem with
      | error e =>
        rw [namedConfigs, hp] at h
        cases h
      | ok cfg =>
        obtain ⟨t, hspells, hvalid, rfl⟩ := parseConfigName_ok.1 hp
        rw [namedConfigs, hp] at h
        simp only [appendUniqueConfig_eraseDups] at h
        obtain ⟨ts, hts, hv, hc⟩ := ih.1 h
        refine ⟨t :: ts, .cons hspells hts, ?_, ?_⟩
        · intro t' ht'
          rcases List.mem_cons.1 ht' with rfl | ht'
          · exact hvalid
          · exact hv t' ht'
        · rwa [List.append_assoc] at hc
    · intro ⟨ts, hts, hv, hc⟩
      cases hts with
      | @cons _ t _ ts hspells hts =>
        have hp := parseConfigName_ok.2 ⟨t, hspells, hv t List.mem_cons_self, rfl⟩
        rw [namedConfigs, hp]
        simp only [appendUniqueConfig_eraseDups]
        apply ih.2
        refine ⟨ts, hts, fun t' ht' ↦ hv t' (List.mem_cons_of_mem t ht'), ?_⟩
        rw [List.append_assoc]
        exact hc

variable (g D) in
/-- The entries are the distinct tuples that the names spell, each where it is spelled first. -/
structure Listed (names : List (List Char)) (maxSmem : ℕ) (configs : List Entry) : Prop where
  tuples : ∃ ts, List.Forall₂ (g.Spells D) names ts ∧ (∀ t ∈ ts, g.isValidConfig t maxSmem = true) ∧
    configs = ts.eraseDups.map g.makeConfig
  names : (configs.map Entry.name).Nodup
  numbers : (configs.map Entry.numbers).Nodup

theorem generateConfigs_listed {maxSmemKb : ℕ} {names : List (List Char)} {configs : List Entry}
    (hne : names ≠ []) (h : g.generateConfigs D maxSmemKb names = .ok configs) :
    g.Listed D names (maxSmemKb * 1024) configs := by
  rw [generateConfigs, if_pos hne] at h
  have hloop : g.namedConfigs D (maxSmemKb * 1024) (([] : List P).eraseDups.map g.makeConfig)
      names = .ok configs := h
  obtain ⟨ts, hts, hv, rfl⟩ := namedConfigs_ok.1 hloop
  rw [List.nil_append]
  refine ⟨⟨ts, hts, hv, rfl⟩, ?_, ?_⟩
  · rw [List.map_map]
    exact (nodup_eraseDups ts).map configName_injective
  · rw [List.map_map]
    exact (nodup_eraseDups ts).map g.numbers_injective

end Requests

end Generator

end Sm120.Flash
