import Mathlib.Data.List.Infix
import Mathlib.Tactic

namespace Sm120.Gemm

structure GemmConfig where
  name : List Char
  bm : ℕ
  bn : ℕ
  bk : ℕ
deriving DecidableEq

def aliasPrefix : List Char := "gemm_tn_".toList

def matchesConfigName (config : GemmConfig) (query : List Char) : Bool :=
  if query = config.name then true
  else aliasPrefix.isPrefixOf query && query.drop aliasPrefix.length = config.name

def configNameHasPrefix (config : GemmConfig) (pre : List Char) : Bool :=
  if pre.isPrefixOf config.name then true
  else if pre.length ≤ aliasPrefix.length then pre.isPrefixOf aliasPrefix
  else aliasPrefix.isPrefixOf pre && (pre.drop aliasPrefix.length).isPrefixOf config.name

inductive LookupError
  | ambiguous (query : List Char) (matchCount : ℕ)
  | unknown (query : List Char)
deriving DecidableEq

def LookupError.text : LookupError → String
  | ambiguous query matchCount =>
    s!"ambiguous config pattern: {String.ofList query} ({matchCount} matches)"
  | unknown query => s!"unknown config: {String.ofList query}"

def isPrefixPattern (query : List Char) : Bool := query.getLast? = some '*'

def matched (query : List Char) (config : GemmConfig) : Bool :=
  if isPrefixPattern query then configNameHasPrefix config query.dropLast
    else matchesConfigName config query

def findLoop (query : List Char) : ℕ → List GemmConfig → Option ℕ × ℕ → Option ℕ × ℕ
  | _, [], s => s
  | i, config :: rest, s =>
    if matched query config then findLoop query (i + 1) rest (some i, s.2 + 1)
    else findLoop query (i + 1) rest s

/-- The index of the entry that is found, and what is printed. -/
def findConfig (registry : List GemmConfig) (query : List Char) : Option ℕ × Option LookupError :=
  let s := findLoop query 0 registry (none, 0)
  if s.2 = 1 then (s.1, none)
  else if s.2 > 1 then (none, some (.ambiguous query s.2))
  else (none, some (.unknown query))

/-- The documented meaning of a query: a name with or without the alias in front, or with a trailing
`*` a prefix of one. -/
def Resolves (query name : List Char) : Prop :=
  (∃ pre, query = pre ++ ['*'] ∧ (pre <+: name ∨ pre <+: aliasPrefix ++ name)) ∨
    query.getLast? ≠ some '*' ∧ (query = name ∨ query = aliasPrefix ++ name)

section Matching

theorem matchesConfigName_iff {config : GemmConfig} {query : List Char} :
    matchesConfigName config query = true ↔ query = config.name ∨
    query = aliasPrefix ++ config.name := by
  unfold matchesConfigName
  split_ifs with h
  · simp [h]
  · rw [Bool.and_eq_true, List.isPrefixOf_iff_prefix, decide_eq_true_eq]
    constructor
    · rintro ⟨⟨rest, rfl⟩, hrest⟩
      rw [List.drop_left] at hrest
      exact .inr (by rw [hrest])
    · rintro (hq | rfl)
      · exact absurd hq h
      · exact ⟨List.prefix_append _ _, List.drop_left⟩

theorem prefix_append_iff {α : Type*} {p a b : List α} :
    p <+: a ++ b ↔ p <+: a ∨ ∃ q, p = a ++ q ∧ q <+: b := by
  constructor
  · intro h
    rcases Nat.le_total p.length a.length with hle | hle
    · exact .inl (List.prefix_of_prefix_length_le h (List.prefix_append a b) hle)
    · obtain ⟨q, rfl⟩ := List.prefix_of_prefix_length_le (List.prefix_append a b) h hle
      exact .inr ⟨q, rfl, (List.prefix_append_right_inj a).1 h⟩
  · rintro (h | ⟨q, rfl, h⟩)
    · exact h.trans (List.prefix_append a b)
    · exact (List.prefix_append_right_inj a).2 h

/-- The three rules agree with one prefix relation, wherever the prefix ends. -/
theorem configNameHasPrefix_iff {config : GemmConfig} {pre : List Char} :
    configNameHasPrefix config pre = true ↔ pre <+: config.name ∨
    pre <+: aliasPrefix ++ config.name := by
  rw [prefix_append_iff]
  unfold configNameHasPrefix
  split_ifs with hname hlen
  · simp [List.isPrefixOf_iff_prefix.1 hname]
  · rw [List.isPrefixOf_iff_prefix] at hname ⊢
    constructor
    · intro h
      exact .inr (.inl h)
    · rintro (h | h | ⟨q, rfl, -⟩)
      · exact absurd h hname
      · exact h
      · rw [List.length_append] at hlen
        have hq : q = [] := List.length_eq_zero_iff.1 (by omega)
        rw [hq, List.append_nil]
  · rw [List.isPrefixOf_iff_prefix] at hname
    rw [Bool.and_eq_true, List.isPrefixOf_iff_prefix, List.isPrefixOf_iff_prefix]
    constructor
    · rintro ⟨⟨q, rfl⟩, hq⟩
      rw [List.drop_left] at hq
      exact .inr (.inr ⟨q, rfl, hq⟩)
    · rintro (h | h | ⟨q, rfl, hq⟩)
      · exact absurd h hname
      · exact absurd h.length_le hlen
      · rw [List.drop_left]
        exact ⟨List.prefix_append _ _, hq⟩

theorem matched_iff {config : GemmConfig} {query : List Char} :
    matched query config = true ↔ Resolves query config.name := by
  unfold matched isPrefixPattern Resolves
  by_cases h : query.getLast? = some '*'
  · obtain ⟨pre, rfl⟩ := List.getLast?_eq_some_iff.1 h
    simp only [h, decide_true, if_true, List.dropLast_concat, configNameHasPrefix_iff, ne_eq,
      not_true_eq_false, false_and, or_false]
    constructor
    · intro hp
      exact ⟨pre, rfl, hp⟩
    · rintro ⟨pre', he, hp⟩
      rwa [List.append_cancel_right he]
  · simp only [h, decide_false, Bool.false_eq_true, if_false, matchesConfigName_iff, ne_eq,
      not_false_eq_true, true_and]
    constructor
    · exact .inr
    · rintro (⟨pre, rfl, -⟩ | hq)
      · exact absurd List.getLast?_concat h
      · exact hq

end Matching

section Lookup

def hits (query : List Char) (i : ℕ) (registry : List GemmConfig) : List (GemmConfig × ℕ) :=
  (registry.zipIdx i).filter fun x ↦ matched query x.1

theorem hits_cons (query : List Char) (i : ℕ) (config : GemmConfig) (rest : List GemmConfig) :
    hits query i (config :: rest) =
      if matched query config then (config, i) :: hits query (i + 1) rest
        else hits query (i + 1) rest := by
  simp only [hits, List.zipIdx_cons, List.filter_cons]

/-- The loop leaves the last entry that matches, and how many do. -/
theorem findLoop_eq (query : List Char) (i : ℕ) (registry : List GemmConfig) (s : Option ℕ × ℕ) :
    findLoop query i registry s =
      (((hits query i registry).getLast?.map Prod.snd).or s.1,
        s.2 + (hits query i registry).length) := by
  induction registry generalizing i s with
  | nil => rfl
  | cons config rest ih =>
    rw [findLoop, hits_cons]
    split_ifs with h
    · rw [ih, List.getLast?_cons, List.length_cons, Nat.add_assoc, Nat.add_comm 1]
      cases (hits query (i + 1) rest).getLast? with
      | none => rfl
      | some x => rfl
    · exact ih _ _

theorem mem_hits {query : List Char} {registry : List GemmConfig} {x : GemmConfig × ℕ} :
    x ∈ hits query 0 registry ↔ registry[x.2]? = some x.1 ∧ Resolves query x.1.name := by
  rw [hits, List.mem_filter, List.mem_zipIdx_iff_getElem?, matched_iff]

theorem hits_nodup (query : List Char) (registry : List GemmConfig) :
    ((hits query 0 registry).map Prod.snd).Nodup := by
  have hsub : List.Sublist ((hits query 0 registry).map Prod.snd)
      ((registry.zipIdx 0).map Prod.snd) :=
    List.filter_sublist.map _
  apply hsub.nodup
  rw [List.zipIdx_map_snd]
  exact List.nodup_range'

theorem findConfig_eq (registry : List GemmConfig) (query : List Char) :
    findConfig registry query =
      if (hits query 0 registry).length = 1 then
        ((hits query 0 registry).getLast?.map Prod.snd, none)
      else if (hits query 0 registry).length > 1 then
        (none, some (.ambiguous query (hits query 0 registry).length))
      else (none, some (.unknown query)) := by
  rw [findConfig, findLoop_eq]
  simp only [Nat.zero_add, Option.or_none]

theorem hits_eq_singleton {query : List Char} {registry : List GemmConfig} {c : GemmConfig} {i : ℕ}
    (hc : (c, i) ∈ hits query 0 registry) (honly : ∀ x ∈ hits query 0 registry, x.2 = i) :
    hits query 0 registry = [(c, i)] := by
  have hnodup := hits_nodup query registry
  have hrep : (hits query 0 registry).map Prod.snd =
      List.replicate (hits query 0 registry).length i := by
    rw [List.eq_replicate_iff]
    refine ⟨List.length_map .., ?_⟩
    intro j hj
    obtain ⟨x, hx, rfl⟩ := List.mem_map.1 hj
    exact honly x hx
  rw [hrep, List.nodup_replicate] at hnodup
  have hpos := List.length_pos_of_mem hc
  obtain ⟨x, hx⟩ := List.length_eq_one_iff.1 (Nat.le_antisymm hnodup hpos)
  rw [hx, List.mem_singleton] at hc
  rw [hx, hc]

theorem length_hits (query : List Char) (i : ℕ) (registry : List GemmConfig) :
    (hits query i registry).length = registry.countP (matched query) := by
  induction registry generalizing i with
  | nil => rfl
  | cons config rest ih =>
    rw [hits_cons, List.countP_cons, ← ih (i + 1)]
    split_ifs with h
    · rfl
    · rfl

theorem findConfig_found {registry : List GemmConfig} {query : List Char} {i : ℕ} :
    (findConfig registry query).1 = some i ↔ ∃ c, hits query 0 registry = [(c, i)] := by
  rw [findConfig_eq]
  constructor
  · intro h
    split_ifs at h with hone hmany
    obtain ⟨⟨c, k⟩, hx⟩ := List.length_eq_one_iff.1 hone
    rw [hx] at h
    have hk : k = i := Option.some.inj h
    exact ⟨c, by rw [hx, hk]⟩
  · intro ⟨c, hx⟩
    simp only [hx, List.length_cons, List.length_nil, Nat.zero_add, if_true]
    rfl

end Lookup

section Documented

/-- `find_config` answers with the only entry that a query resolves to. -/
structure LookupExact (registry : List GemmConfig) (query : List Char) : Prop where
  found (i : ℕ) : (findConfig registry query).1 = some i ↔
    (∃ c : GemmConfig, registry[i]? = some c ∧ Resolves query c.name) ∧
      ∀ (j : ℕ) (d : GemmConfig), registry[j]? = some d → Resolves query d.name → j = i
  quiet (i : ℕ) : (findConfig registry query).1 = some i → (findConfig registry query).2 = none
  none : (∀ d ∈ registry, ¬ Resolves query d.name) →
    findConfig registry query = (Option.none, some (.unknown query))
  several (i j : ℕ) (c d : GemmConfig) : i ≠ j →
    registry[i]? = some c → Resolves query c.name → registry[j]? = some d → Resolves query d.name →
    findConfig registry query = (Option.none,
      some (.ambiguous query (registry.countP (matched query))))

theorem findConfig_documented (registry : List GemmConfig) (query : List Char) :
    LookupExact registry query where
  found i := by
    rw [findConfig_found]
    constructor
    · intro ⟨c, hx⟩
      have hc : (c, i) ∈ hits query 0 registry := by rw [hx]; exact List.mem_singleton.2 rfl
      refine ⟨⟨c, mem_hits.1 hc⟩, ?_⟩
      intro j d hd hres
      have hj : (d, j) ∈ hits query 0 registry := mem_hits.2 ⟨hd, hres⟩
      rw [hx, List.mem_singleton] at hj
      exact congrArg Prod.snd hj
    · intro ⟨⟨c, hc⟩, honly⟩
      refine ⟨c, hits_eq_singleton (mem_hits.2 hc) ?_⟩
      intro x hx
      obtain ⟨hd, hres⟩ := mem_hits.1 hx
      exact honly x.2 x.1 hd hres
  quiet i h := by
    obtain ⟨c, hx⟩ := findConfig_found.1 h
    rw [findConfig_eq, if_pos (by rw [hx]; rfl)]
  none h := by
    have hx : hits query 0 registry = [] := by
      apply List.eq_nil_iff_forall_not_mem.2
      intro x hx
      obtain ⟨hd, hres⟩ := mem_hits.1 hx
      exact h x.1 (List.mem_of_getElem? hd) hres
    rw [findConfig_eq, hx]
    rfl
  several i j c d hij hc hcres hd hdres := by
    have hci : (c, i) ∈ hits query 0 registry := mem_hits.2 ⟨hc, hcres⟩
    have hdj : (d, j) ∈ hits query 0 registry := mem_hits.2 ⟨hd, hdres⟩
    have hmany : 1 < (hits query 0 registry).length := by
      by_contra hle
      have hone : (hits query 0 registry).length = 1 :=
        Nat.le_antisymm (Nat.le_of_not_lt hle) (List.length_pos_of_mem hci)
      obtain ⟨x, hx⟩ := List.length_eq_one_iff.1 hone
      rw [hx, List.mem_singleton] at hci hdj
      exact hij (congrArg Prod.snd (hci.trans hdj.symm))
    rw [findConfig_eq, if_neg hmany.ne', if_pos hmany, length_hits]

example : (findConfig [⟨"bm128_bn128".toList, 128, 128, 64⟩, ⟨"bm128_bn64".toList, 128, 64, 64⟩]
    "gemm_tn_bm128_bn1*".toList).1 = some 0 := by decide

end Documented

end Sm120.Gemm
