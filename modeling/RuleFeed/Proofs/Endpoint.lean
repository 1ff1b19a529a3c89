import Mathlib.Data.List.Dedup
import Mathlib.Data.List.Induction
import RuleFeed.Config
import RuleFeed.Proofs.Bootstrap
import RuleFeed.Proofs.Text.Separator

/-!
The endpoint that a configuration gives an environment and a region. The entries that come with the
table and those of the configuration are inserted in one row, so of the entries of a key the last
one counts, as a whole and also if its host is empty. Entries of different keys do not see each
other, hence their order does not matter. Environments without a dash keep the keys apart.
-/
namespace RuleFeed

namespace EndpointOverride

def entry (e : EndpointOverride) : EndpointEntry := ⟨e.insecure, e.secure⟩

def ofKey (k : String) (es : List EndpointOverride) : List EndpointOverride :=
  es.filter (·.key = k)

@[simp] theorem mem_ofKey {k : String} {es : List EndpointOverride} {e : EndpointOverride} :
    e ∈ ofKey k es ↔ e ∈ es ∧ e.key = k := by
  rw [ofKey, List.mem_filter, decide_eq_true_iff]

/-- The last entry of a key is the one behind which the key does not occur. -/
theorem getLast?_ofKey_eq_some_iff {k : String} {es : List EndpointOverride}
    {e : EndpointOverride} : (ofKey k es).getLast? = some e ↔
      ∃ front back, es = front ++ e :: back ∧ e.key = k ∧ ∀ f ∈ back, f.key ≠ k := by
  rw [ofKey, List.getLast?_filter, List.find?_eq_some_iff_append]
  simp only [List.reverse_eq_iff, List.reverse_append, List.reverse_cons, List.append_assoc,
    List.singleton_append, decide_eq_true_iff, Bool.not_eq_true', decide_eq_false_iff_not]
  constructor
  · rintro ⟨named, back, front, split, free⟩
    exact ⟨front.reverse, back.reverse, split, named, fun f mem => free f (List.mem_reverse.mp mem)⟩
  · rintro ⟨front, back, split, named, free⟩
    exact ⟨named, back.reverse, front.reverse, by simpa only [List.reverse_reverse] using split,
      fun f mem => free f (List.mem_reverse.mp mem)⟩

theorem getLast?_ofKey_eq_none_iff {k : String} {es : List EndpointOverride} :
    (ofKey k es).getLast? = none ↔ ∀ e ∈ es, e.key ≠ k := by
  rw [List.getLast?_eq_none_iff, ofKey, List.filter_eq_nil_iff]
  simp only [decide_eq_true_iff, ne_eq]

theorem ofKey_swap {e f : EndpointOverride} (different : e.key ≠ f.key)
    (front back : List EndpointOverride) (k : String) :
    ofKey k (front ++ e :: f :: back) = ofKey k (front ++ f :: e :: back) := by
  simp only [ofKey, List.filter_append, List.filter_cons, decide_eq_true_iff]
  by_cases first : e.key = k
  · have second : f.key ≠ k := fun same => different (first.trans same.symm)
    simp only [if_pos first, if_neg second]
  · simp only [if_neg first]

/-- Entries whose keys are all different can be put in any order without a key's own order being
changed. -/
theorem ofKey_eq_of_perm {es ds : List EndpointOverride} (perm : es.Perm ds)
    (distinct : (es.map key).Nodup) (k : String) : ofKey k es = ofKey k ds := by
  have same : (ofKey k es).Perm (ofKey k ds) := perm.filter _
  match split : ofKey k es with
  | [] =>
    rw [split] at same
    exact (List.nil_perm.mp same).symm
  | [e] =>
    rw [split] at same
    exact (List.perm_singleton.mp same.symm).symm
  | e :: f :: rest =>
    have keys : ((ofKey k es).map key).Nodup :=
      distinct.sublist (List.filter_sublist.map key)
    have first : e.key = k := (mem_ofKey.mp (split ▸ List.mem_cons_self)).2
    have second : f.key = k :=
      (mem_ofKey.mp (split ▸ List.mem_cons_of_mem e List.mem_cons_self)).2
    rw [split, List.map_cons, List.map_cons, first, second] at keys
    exact absurd List.mem_cons_self (List.nodup_cons.mp keys).1

end EndpointOverride

open EndpointOverride

namespace EndpointTable

def keys (t : EndpointTable) : List String := t.entries.map Prod.fst

def insertAll (t : EndpointTable) (es : List EndpointOverride) : EndpointTable :=
  es.foldl (fun t e => t.insert e.key e.entry) t

variable {t : EndpointTable} {k l : String}

theorem insertAll_append (t : EndpointTable) (es ds : List EndpointOverride) :
    t.insertAll (es ++ ds) = (t.insertAll es).insertAll ds := List.foldl_append

theorem insertAll_concat (t : EndpointTable) (es : List EndpointOverride) (e : EndpointOverride) :
    t.insertAll (es ++ [e]) = (t.insertAll es).insert e.key e.entry := insertAll_append t es [e]

/-- Of the entries of a key the last one counts; without one the table answers as before. -/
theorem get?_insertAll (t : EndpointTable) (es : List EndpointOverride) (k : String) :
    (t.insertAll es).get? k = ((ofKey k es).getLast?.map entry).or (t.get? k) := by
  induction es using List.reverseRecOn with
  | nil => rfl
  | append_singleton es e ih =>
    rw [insertAll_concat, get?_insert, ofKey, List.filter_append]
    by_cases named : e.key = k
    · simp only [named, if_true, decide_true, List.filter_cons_of_pos, List.filter_nil,
        List.getLast?_concat, Option.map_some, Option.some_or]
    · rw [if_neg (Ne.symm named), ih, List.filter_cons_of_neg (by simpa using named),
        List.filter_nil, List.append_nil, ofKey]

theorem keys_insert (t : EndpointTable) (k : String) (e : EndpointEntry) :
    (t.insert k e).keys = k :: t.keys.filter (k != ·) := by
  rw [keys, insert, List.map_cons, keys, List.filter_map]
  rfl

theorem nodup_keys_insert (nodup : t.keys.Nodup) (k : String) (e : EndpointEntry) :
    (t.insert k e).keys.Nodup := by
  rw [keys_insert, List.nodup_cons]
  exact ⟨fun mem => by simpa using List.of_mem_filter mem, nodup.filter _⟩

theorem mem_keys_insert {e : EndpointEntry} : l ∈ (t.insert k e).keys ↔ l = k ∨ l ∈ t.keys := by
  rw [keys_insert, List.mem_cons, List.mem_filter, bne_iff_ne]
  by_cases same : l = k
  · simp only [same, true_or]
  · simp only [same, false_or, and_iff_left (Ne.symm same)]

theorem nodup_keys_insertAll (nodup : t.keys.Nodup) (es : List EndpointOverride) :
    (t.insertAll es).keys.Nodup := by
  induction es generalizing t with
  | nil => exact nodup
  | cons e es ih => exact ih (nodup_keys_insert nodup e.key e.entry)

theorem mem_keys_insertAll {es : List EndpointOverride} :
    l ∈ (t.insertAll es).keys ↔ l ∈ t.keys ∨ l ∈ es.map EndpointOverride.key := by
  induction es generalizing t with
  | nil => exact (or_iff_left List.not_mem_nil).symm
  | cons e es ih =>
    have next : t.insertAll (e :: es) = (t.insert e.key e.entry).insertAll es := rfl
    rw [next, ih, mem_keys_insert, List.map_cons, List.mem_cons, or_assoc, or_left_comm]

theorem size_insertAll_empty (es : List EndpointOverride) :
    (empty.insertAll es).size = (es.map EndpointOverride.key).dedup.length := by
  have nodup : (empty.insertAll es).keys.Nodup :=
    nodup_keys_insertAll (t := empty) List.nodup_nil es
  have same : (empty.insertAll es).keys.Perm (es.map EndpointOverride.key).dedup := by
    refine (List.perm_ext_iff_of_nodup nodup (List.nodup_dedup _)).mpr fun l => ?_
    rw [mem_keys_insertAll, List.mem_dedup]
    exact or_iff_right List.not_mem_nil
  rw [← same.length_eq, keys, List.length_map, size]

def builtinEntries : List EndpointOverride :=
  builtinRegions.map fun region => ⟨"prod-" ++ region,
    "rulesync-proxy." ++ region ++ ".internal", "rulesync-proxy-tls." ++ region ++ ".internal"⟩

theorem builtin_eq : builtin = empty.insertAll builtinEntries := by
  rw [insertAll, builtinEntries, List.foldl_map]
  rfl

theorem get?_builtin_eq_some_iff {held : EndpointEntry} :
    builtin.get? k = some held ↔ ∃ region ∈ builtinRegions, k = "prod-" ++ region ∧
      held = ⟨"rulesync-proxy." ++ region ++ ".internal",
        "rulesync-proxy-tls." ++ region ++ ".internal"⟩ := by
  constructor
  · intro found
    have none : empty.get? k = none := rfl
    rw [builtin_eq, get?_insertAll, none, Option.or_none, Option.map_eq_some_iff] at found
    obtain ⟨e, last, rfl⟩ := found
    obtain ⟨mem, rfl⟩ := mem_ofKey.mp (List.mem_of_getLast? last)
    obtain ⟨region, served, rfl⟩ := List.mem_map.mp mem
    exact ⟨region, served, rfl, rfl⟩
  · rintro ⟨region, served, rfl, rfl⟩
    have all : ∀ region ∈ builtinRegions, builtin.get? ("prod-" ++ region) =
        some ⟨"rulesync-proxy." ++ region ++ ".internal",
          "rulesync-proxy-tls." ++ region ++ ".internal"⟩ := by decide
    exact all region served

structure Alike (t u : EndpointTable) : Prop where
  get? : ∀ k, t.get? k = u.get? k
  select? : ∀ env region secure, t.select? env region secure = u.select? env region secure
  resolve : ∀ env region secure, t.resolve env region secure = u.resolve env region secure

theorem Alike.of_get? {u : EndpointTable} (same : ∀ k, t.get? k = u.get? k) : Alike t u := by
  have selected env region secure : t.select? env region secure = u.select? env region secure := by
    rw [EndpointTable.select?, EndpointTable.select?, same]
  refine ⟨same, selected, fun env region secure => ?_⟩
  rw [EndpointTable.resolve, EndpointTable.resolve, selected]

theorem resolve_eq_ok_iff {env region host : String} {secure : Bool} :
    t.resolve env region secure = .ok host ↔ t.Serves env region secure host := by
  refine ⟨fun resolved => ?_, resolve_of_serves⟩
  rcases t.serves_or_unserved env region secure with ⟨other, serves⟩ | unserved
  · rw [resolve_of_serves serves] at resolved
    cases resolved
    exact serves
  · rw [resolve_of_unserved unserved] at resolved
    cases resolved

theorem resolve_eq_error_iff {env region : String} {secure : Bool} {e : UnsupportedEnvironment} :
    t.resolve env region secure = .error e ↔
      e = ⟨env ++ "-" ++ region⟩ ∧ ∀ host, ¬ t.Serves env region secure host := by
  rcases t.serves_or_unserved env region secure with ⟨host, serves⟩ | unserved
  · rw [resolve_of_serves serves]
    exact iff_of_false nofun fun failed => failed.2 host serves
  · rw [resolve_of_unserved unserved, and_iff_left unserved, Except.error.injEq, eq_comm]
    rfl

end EndpointTable

namespace AgentConfig

/-- The entry that counts for a key: the last one of the configuration, or if it has none, the one
that comes with the table. -/
inductive Supplies (entries : List EndpointOverride) (k : String) : EndpointEntry → Prop
  | configured {front back : List EndpointOverride} {e : EndpointOverride}
      (split : entries = front ++ e :: back) (named : e.key = k)
      (last : ∀ f ∈ back, f.key ≠ k) : Supplies entries k ⟨e.insecure, e.secure⟩
  | builtin {region : String} (free : ∀ e ∈ entries, e.key ≠ k)
      (served : region ∈ EndpointTable.builtinRegions) (named : k = "prod-" ++ region) :
      Supplies entries k ⟨"rulesync-proxy." ++ region ++ ".internal",
        "rulesync-proxy-tls." ++ region ++ ".internal"⟩

open EndpointTable

variable {c : AgentConfig} {k : String}

theorem endpointTable_eq (c : AgentConfig) :
    c.endpointTable = empty.insertAll (builtinEntries ++ c.endpoints) := by
  rw [insertAll_append, ← builtin_eq]
  rfl

theorem get?_endpointTable (c : AgentConfig) (k : String) :
    c.endpointTable.get? k =
      ((ofKey k c.endpoints).getLast?.map entry).or (builtin.get? k) :=
  get?_insertAll builtin c.endpoints k

theorem get?_endpointTable_eq_some_iff {held : EndpointEntry} :
    c.endpointTable.get? k = some held ↔ Supplies c.endpoints k held := by
  rw [get?_endpointTable, Option.or_eq_some_iff, Option.map_eq_some_iff, Option.map_eq_none_iff,
    getLast?_ofKey_eq_none_iff, get?_builtin_eq_some_iff]
  constructor
  · rintro (⟨e, last, rfl⟩ | ⟨free, region, served, named, rfl⟩)
    · obtain ⟨front, back, split, named, free⟩ := getLast?_ofKey_eq_some_iff.mp last
      exact .configured split named free
    · exact .builtin free served named
  · intro supplies
    cases supplies with
    | configured split named last =>
      exact .inl ⟨_, getLast?_ofKey_eq_some_iff.mpr ⟨_, _, split, named, last⟩, rfl⟩
    | builtin free served named => exact .inr ⟨free, _, served, named, rfl⟩

theorem Supplies.unique {held other : EndpointEntry} (supplies : Supplies c.endpoints k held)
    (supplies' : Supplies c.endpoints k other) : held = other :=
  Option.some.inj ((get?_endpointTable_eq_some_iff.mpr supplies).symm.trans
    (get?_endpointTable_eq_some_iff.mpr supplies'))

theorem serves_endpointTable_iff {env region host : String} {secure : Bool} :
    c.endpointTable.Serves env region secure host ↔ host ≠ "" ∧
      ∃ held, Supplies c.endpoints (env ++ "-" ++ region) held ∧ held.host secure = host := by
  rw [Serves, select?, Option.map_eq_some_iff, and_comm]
  simp only [get?_endpointTable_eq_some_iff, EndpointTable.key]

theorem alike_endpointTable {d : AgentConfig}
    (same : ∀ k, ofKey k c.endpoints = ofKey k d.endpoints) :
    Alike c.endpointTable d.endpointTable :=
  .of_get? fun k => by rw [get?_endpointTable, get?_endpointTable, same]

theorem size_endpointTable (c : AgentConfig) :
    c.endpointTable.size =
      (builtinRegions.map ("prod-" ++ ·) ++ c.endpoints.map EndpointOverride.key).dedup.length := by
  have keys : builtinEntries.map EndpointOverride.key = builtinRegions.map ("prod-" ++ ·) := by
    rw [builtinEntries, List.map_map]
    rfl
  rw [endpointTable_eq, size_insertAll_empty, List.map_append, keys]

theorem endpointTable_merge (c d : AgentConfig) :
    (c.merge d).endpointTable = c.endpointTable.insertAll d.endpoints := by
  rw [endpointTable_eq, endpointTable_eq, ← insertAll_append, List.append_assoc]
  rfl

/-- The last entry of a key counts, with both its hosts, and an empty host is none. Only the order
within a key matters. The table has an entry for each key, and merging inserts the upper layer's
entries after the lower one's. -/
theorem endpointTable_serves_last_entry (c : AgentConfig) :
    (∀ env region secure host,
      c.endpointTable.resolve env region secure = .ok host ↔ host ≠ "" ∧
        ∃ held, Supplies c.endpoints (env ++ "-" ++ region) held ∧ held.host secure = host) ∧
    (∀ env region secure e,
      c.endpointTable.resolve env region secure = .error e ↔ e = ⟨env ++ "-" ++ region⟩ ∧
        ∀ held, Supplies c.endpoints (env ++ "-" ++ region) held → held.host secure = "") ∧
    (∀ d : AgentConfig, (∀ k, ofKey k c.endpoints = ofKey k d.endpoints) →
      Alike c.endpointTable d.endpointTable) ∧
    (∀ d : AgentConfig, c.endpoints.Perm d.endpoints →
      (c.endpoints.map EndpointOverride.key).Nodup → Alike c.endpointTable d.endpointTable) ∧
    c.endpointTable.size =
      (builtinRegions.map ("prod-" ++ ·) ++ c.endpoints.map EndpointOverride.key).dedup.length ∧
    (∀ d : AgentConfig, (c.merge d).endpointTable =
      d.endpoints.foldl (fun t e => t.insert e.key ⟨e.insecure, e.secure⟩) c.endpointTable) ∧
    ∀ env env' region region', '-' ∉ env.toList → '-' ∉ env'.toList →
      (EndpointTable.key env region = EndpointTable.key env' region' ↔
        env = env' ∧ region = region') := by
  refine ⟨fun env region secure host => ?_, fun env region secure e => ?_,
    fun d same => alike_endpointTable same,
    fun d perm distinct => alike_endpointTable (ofKey_eq_of_perm perm distinct),
    size_endpointTable c, endpointTable_merge c,
    fun env env' region region' free free' => append_dash_inj free free'⟩
  · rw [resolve_eq_ok_iff, serves_endpointTable_iff]
  · rw [resolve_eq_error_iff]
    refine and_congr_right fun _ => ?_
    simp only [serves_endpointTable_iff, not_and, not_exists]
    constructor
    · exact fun unserved held supplies =>
        not_not.mp fun nonempty => unserved _ nonempty held supplies rfl
    · rintro empty host nonempty held supplies rfl
      exact nonempty (empty held supplies)

/-- The entry of the public region hides the one that comes with the table, though it has no host
for insecure transport. -/
theorem endpointTable_serves_last_entry_hidden :
    let edge : EndpointOverride := ⟨"prod-cn-public", "", "edge.example"⟩
    let first : EndpointOverride := ⟨"test-eu", "first.example", ""⟩
    let second : EndpointOverride := ⟨"test-eu", "second.example", ""⟩
    let c : AgentConfig := { standard with endpoints := [edge, first, second] }
    let moved : AgentConfig := { standard with endpoints := [first, edge, second] }
    let d : AgentConfig := { standard with endpoints := [edge, second] }
    let turned : AgentConfig := { standard with endpoints := [second, edge] }
    c.endpointTable.resolve "prod" "cn-public" true = .ok "edge.example" ∧
      c.endpointTable.resolve "prod" "cn-public" false = .error ⟨"prod-cn-public"⟩ ∧
      c.endpointTable.resolve "test" "eu" false = .ok "second.example" ∧
      moved.endpointTable.resolve "test" "eu" false = .ok "second.example" ∧
      turned.endpointTable.resolve "test" "eu" false = d.endpointTable.resolve "test" "eu" false ∧
      c.endpointTable.size = 9 ∧
      EndpointTable.key "prod" "cn-public" ≠ EndpointTable.key "test" "cn-public" := by
  intro edge first second c moved d turned
  have early : c.endpoints = [] ++ edge :: [first, second] := rfl
  have late : c.endpoints = [edge, first] ++ second :: [] := rfl
  have edged : Supplies c.endpoints "prod-cn-public" ⟨"", "edge.example"⟩ :=
    .configured early rfl (by decide)
  have later : Supplies c.endpoints "test-eu" ⟨"second.example", ""⟩ :=
    .configured late rfl (by decide)
  obtain ⟨serves, unserved, reordered, -, size, -, keys⟩ := endpointTable_serves_last_entry c
  obtain ⟨-, -, -, permuted, -⟩ := endpointTable_serves_last_entry d
  have latest : c.endpointTable.resolve "test" "eu" false = .ok "second.example" :=
    (serves _ _ _ _).mpr ⟨by decide, _, later, rfl⟩
  have alike := reordered moved (ofKey_swap (by decide) [] [second])
  have turns := permuted turned (List.Perm.swap _ _ _) (by decide)
  refine ⟨(serves _ _ _ _).mpr ⟨by decide, _, edged, rfl⟩,
    (unserved _ _ _ _).mpr ⟨rfl, fun held supplies => ?_⟩, latest,
    (alike.resolve _ _ _).symm.trans latest, (turns.resolve _ _ _).symm, by rw [size]; decide, ?_⟩
  · rw [supplies.unique edged]
    rfl
  · rw [Ne, keys "prod" "test" _ _ (by decide) (by decide)]
    decide

end AgentConfig
end RuleFeed
