/-!
The endpoints of an environment and a region. A table holds one entry a key; a later entry of a
key takes the place of the earlier one, also if its hosts are empty, and an empty host is no
endpoint.
-/
namespace RuleFeed

structure EndpointEntry where
  insecure : String
  secure : String
  deriving DecidableEq, Repr

def EndpointEntry.host (e : EndpointEntry) (secure : Bool) : String :=
  if secure then e.secure else e.insecure

structure UnsupportedEnvironment where
  key : String
  deriving DecidableEq, Repr

def UnsupportedEnvironment.message (e : UnsupportedEnvironment) : String :=
  "no available endpoint, env not supported: " ++ e.key

structure EndpointTable where
  entries : List (String × EndpointEntry)
  deriving DecidableEq, Repr

namespace EndpointTable

def key (env region : String) : String := env ++ "-" ++ region

def empty : EndpointTable := ⟨[]⟩

def get? (t : EndpointTable) (k : String) : Option EndpointEntry := t.entries.lookup k

def insert (t : EndpointTable) (k : String) (e : EndpointEntry) : EndpointTable :=
  ⟨(k, e) :: t.entries.filter fun entry => k != entry.1⟩

def size (t : EndpointTable) : Nat := t.entries.length

def isEmpty (t : EndpointTable) : Bool := t.entries.isEmpty

private theorem lookup_filter_ne {k l : String} (h : l ≠ k)
    (entries : List (String × EndpointEntry)) :
    (entries.filter fun entry => k != entry.1).lookup l = entries.lookup l := by
  induction entries with
  | nil => rfl
  | cons entry entries ih =>
    obtain ⟨m, e⟩ := entry
    by_cases hk : k = m
    · subst hk
      have hl : (l == k) = false := beq_false_of_ne h
      simp [List.lookup_cons, hl, ih]
    · simp [hk, List.lookup_cons, ih]

theorem get?_insert (t : EndpointTable) (k l : String) (e : EndpointEntry) :
    (t.insert k e).get? l = if l = k then some e else t.get? l := by
  unfold insert get?
  by_cases h : l = k
  · simp [h]
  · have hl : (l == k) = false := beq_false_of_ne h
    simp only [List.lookup_cons, hl, if_neg h]
    exact lookup_filter_ne h t.entries

def builtinRegions : List String := [
  "cn-public", "cn-hangzhou", "cn-shanghai", "cn-beijing", "cn-shenzhen", "cn-zhangjiakou",
  "cn-hongkong", "ap-southeast-1"]

def builtin : EndpointTable :=
  builtinRegions.foldl (fun t region => t.insert (key "prod" region)
    ⟨"rulesync-proxy." ++ region ++ ".internal", "rulesync-proxy-tls." ++ region ++ ".internal"⟩)
    empty

def select? (t : EndpointTable) (env region : String) (secure : Bool) : Option String :=
  (t.get? (key env region)).map fun e => e.host secure

def resolve (t : EndpointTable) (env region : String) (secure : Bool) :
    Except UnsupportedEnvironment String :=
  match (t.select? env region secure).filter (· ≠ "") with
  | some host => .ok host
  | none => .error ⟨key env region⟩

end EndpointTable
end RuleFeed
