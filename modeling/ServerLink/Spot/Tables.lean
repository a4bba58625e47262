import Mathlib.Data.List.AList
import Mathlib.Data.List.Perm.Subperm
import Mathlib.Data.List.TakeWhile
import ServerLink.Util.Err

/-!
# ServerLink.Spot.Tables

The two tables of a SPOT instance: `topic_registry_t` (`topic_registry.cpp`), where a topic
lives, and `subscription_manager_t` (`subscription_manager.cpp`), who has subscribed to
what. A `std::unordered_map` is an association list with distinct keys. The exact and the
pattern subscriptions are the same kind of table; an entry without subscribers is the same
as no entry, since the source erases it.
-/

namespace ServerLink

open Function

/-- A topic, or the pattern for some. -/
abbrev TopicId := List UInt8

/-- The text of an endpoint. -/
abbrev Uri := List UInt8

/-- `topic_location_t`. -/
inductive TopicLocation
  | localTopic
  | remoteTopic
  deriving Repr, DecidableEq

/-- `topic_entry_t`. -/
structure TopicEntry where
  location : TopicLocation
  endpoint : Uri
  deriving Repr, DecidableEq

/-- `topic_registry_t`. -/
structure TopicRegistry where
  topics : AList fun _ : TopicId => TopicEntry

namespace TopicRegistry

def empty : TopicRegistry := ⟨∅⟩

def lookup (r : TopicRegistry) (topicId : TopicId) : Option TopicEntry :=
  r.topics.lookup topicId

def hasTopic (r : TopicRegistry) (topicId : TopicId) : Bool := (r.lookup topicId).isSome

/-- The common part of `register_local` and `register_remote`. -/
def register (r : TopicRegistry) (topicId : TopicId) (entry : TopicEntry) :
    Option Errno × TopicRegistry :=
  if r.hasTopic topicId then (some .eexist, r) else (none, ⟨r.topics.insert topicId entry⟩)

def registerLocal (r : TopicRegistry) (topicId : TopicId) (endpoint : Uri) :
    Option Errno × TopicRegistry :=
  r.register topicId ⟨.localTopic, endpoint⟩

def registerRemote (r : TopicRegistry) (topicId : TopicId) (tcpEndpoint : Uri) :
    Option Errno × TopicRegistry :=
  r.register topicId ⟨.remoteTopic, tcpEndpoint⟩

def unregister (r : TopicRegistry) (topicId : TopicId) : Option Errno × TopicRegistry :=
  if r.hasTopic topicId then (none, ⟨r.topics.erase topicId⟩) else (some .enoent, r)

end TopicRegistry

/-- `subscriber_type_t`. -/
inductive SubscriberType
  | localSocket
  | remoteNode
  deriving Repr, DecidableEq

/-- `subscriber_t`. The socket is named by a number. -/
structure Subscriber where
  type : SubscriberType
  socket : Nat
  endpoint : Uri
  deriving Repr, DecidableEq

/-- `subscriber_t::operator==`: the type says which of the other fields counts. -/
def Subscriber.same (a b : Subscriber) : Bool :=
  if a.type ≠ b.type then false
  else match a.type with
    | .localSocket => a.socket == b.socket
    | .remoteNode => a.endpoint == b.endpoint

/-- A table of subscribers, by topic or by pattern. Its entries have subscribers. -/
structure SubscriberTable where
  entries : AList fun _ : TopicId => List Subscriber
  nonempty : ∀ key, entries.lookup key ≠ some []

namespace SubscriberTable

def empty : SubscriberTable := ⟨∅, fun _ h => nomatch h⟩

/-- The subscribers under a key. -/
def subscribers (t : SubscriberTable) (key : TopicId) : List Subscriber :=
  (t.entries.lookup key).getD []

/-- The topics or patterns that have subscribers. -/
def keys (t : SubscriberTable) : List TopicId := t.entries.keys

/-- The table with these subscribers under the key, which has no entry if there are none. -/
def set (t : SubscriberTable) (key : TopicId) : List Subscriber → SubscriberTable
  | [] => ⟨t.entries.erase key, fun k => by
      by_cases hk : k = key
      · subst hk
        simp
      · rw [AList.lookup_erase_ne hk]
        exact t.nonempty k⟩
  | first :: rest => ⟨t.entries.insert key (first :: rest), fun k => by
      by_cases hk : k = key
      · subst hk
        simp
      · rw [AList.lookup_insert_ne hk]
        exact t.nonempty k⟩

/-- The common part of `add_subscription` and `add_pattern_subscription`. -/
def add (t : SubscriberTable) (key : TopicId) (subscriber : Subscriber) :
    Option Errno × SubscriberTable :=
  if (t.subscribers key).any (·.same subscriber) then (some .eexist, t)
  else (none, t.set key (t.subscribers key ++ [subscriber]))

/-- The common part of `remove_subscription` and `remove_pattern_subscription`. -/
def remove (t : SubscriberTable) (key : TopicId) (subscriber : Subscriber) :
    Option Errno × SubscriberTable :=
  if (t.subscribers key).any (·.same subscriber) then
    (none, t.set key ((t.subscribers key).eraseP (·.same subscriber)))
  else (some .enoent, t)

variable {t : SubscriberTable} {key : TopicId} {subscriber : Subscriber}

theorem mem_keys : key ∈ t.keys ↔ t.subscribers key ≠ [] := by
  rw [keys, ← AList.mem_keys, ← AList.lookup_isSome, subscribers]
  cases hl : t.entries.lookup key with
  | none => simp
  | some subs => simpa using fun heq => t.nonempty key (by rw [hl, heq])

@[simp] theorem subscribers_set (t : SubscriberTable) (key : TopicId) (subs : List Subscriber) :
    (t.set key subs).subscribers = update t.subscribers key subs := by
  funext k
  rw [update_apply]
  cases subs with
  | nil =>
    split
    · rename_i hk
      rw [hk, subscribers, set, AList.lookup_erase, Option.getD_none]
    · rename_i hk
      rw [subscribers, set, AList.lookup_erase_ne hk, subscribers]
  | cons first rest =>
    split
    · rename_i hk
      rw [hk, subscribers, set, AList.lookup_insert, Option.getD_some]
    · rename_i hk
      rw [subscribers, set, AList.lookup_insert_ne hk, subscribers]

/-- A key that had no subscriber comes first among the keys. -/
theorem keys_set_new (hnone : t.subscribers key = []) {subs : List Subscriber}
    (hsubs : subs ≠ []) : (t.set key subs).keys = key :: t.keys := by
  have hnot : key ∉ t.entries := fun hmem => mem_keys.mp (AList.mem_keys.mp hmem) hnone
  cases subs with
  | nil => exact absurd rfl hsubs
  | cons first rest =>
    rw [set, keys, AList.keys, AList.entries_insert_of_notMem hnot]
    rfl

theorem keys_nodup (t : SubscriberTable) : t.keys.Nodup := t.entries.keys_nodup

theorem keys_set_subset (subs : List Subscriber) : (t.set key subs).keys ⊆ key :: t.keys := by
  intro k hk
  rw [mem_keys, subscribers_set, update_apply] at hk
  split at hk
  · rename_i heq
    exact heq ▸ List.mem_cons_self
  · exact List.mem_cons_of_mem _ (mem_keys.mpr hk)

theorem length_keys_set_le (t : SubscriberTable) (key : TopicId) (subs : List Subscriber) :
    (t.set key subs).keys.length ≤ t.keys.length + 1 :=
  (List.subperm_of_subset (keys_nodup _) (keys_set_subset subs)).length_le

theorem length_keys_set_le_of_mem (hmem : key ∈ t.keys) (subs : List Subscriber) :
    (t.set key subs).keys.length ≤ t.keys.length := by
  refine (List.subperm_of_subset (keys_nodup _) fun k hk => ?_).length_le
  rcases List.mem_cons.mp (keys_set_subset subs hk) with heq | hold
  · rwa [heq]
  · exact hold

end SubscriberTable

/-- `subscription_manager_t`. -/
structure SubscriptionManager where
  exactSubscriptions : SubscriberTable
  patternSubscriptions : SubscriberTable

namespace SubscriptionManager

def empty : SubscriptionManager := ⟨.empty, .empty⟩

def addSubscription (m : SubscriptionManager) (topicId : TopicId) (subscriber : Subscriber) :
    Option Errno × SubscriptionManager :=
  let (rc, exactSubscriptions) := m.exactSubscriptions.add topicId subscriber
  (rc, { m with exactSubscriptions })

def removeSubscription (m : SubscriptionManager) (topicId : TopicId) (subscriber : Subscriber) :
    Option Errno × SubscriptionManager :=
  let (rc, exactSubscriptions) := m.exactSubscriptions.remove topicId subscriber
  (rc, { m with exactSubscriptions })

/-- Only a local socket subscribes to a pattern. -/
def addPatternSubscription (m : SubscriptionManager) (pattern : TopicId)
    (subscriber : Subscriber) : Option Errno × SubscriptionManager :=
  if subscriber.type ≠ .localSocket then (some .einval, m)
  else
    let (rc, patternSubscriptions) := m.patternSubscriptions.add pattern subscriber
    (rc, { m with patternSubscriptions })

/-- The byte `'*'`. -/
def star : UInt8 := 42

/-- The text before the first `'*'`, all of it if there is none. -/
def patternPrefix (pattern : TopicId) : TopicId := pattern.takeWhile (· ≠ star)

/-- How many patterns become this filter. -/
def patternFilters (m : SubscriptionManager) (key : TopicId) : Nat :=
  m.patternSubscriptions.keys.countP (patternPrefix · = key)

/-- How many subscriptions stand behind a filter of the receiving socket: the exact ones to
it, and the patterns that become it. -/
def filters (m : SubscriptionManager) (key : TopicId) : Nat :=
  (m.exactSubscriptions.subscribers key).length + m.patternFilters key

/-- The number of topics and patterns with a subscription. -/
def size (m : SubscriptionManager) : Nat :=
  m.exactSubscriptions.keys.length + m.patternSubscriptions.keys.length

/-- `matches_pattern`. -/
def matchesPattern (pattern topicId : TopicId) : Bool :=
  if star ∉ pattern then pattern == topicId
  else if pattern = [star] then true
  else (patternPrefix pattern).isPrefixOf topicId

/-- A pattern without `'*'` matches itself, any other one the topics that start with the
text before it. -/
theorem matchesPattern_iff {pattern topicId : TopicId} :
    matchesPattern pattern topicId = true ↔ (star ∉ pattern ∧ pattern = topicId) ∨
        (star ∈ pattern ∧ patternPrefix pattern <+: topicId) := by
  rw [matchesPattern]
  by_cases hmem : star ∈ pattern
  · rw [if_neg (not_not_intro hmem)]
    split
    · rename_i hall
      simp [hall, patternPrefix]
    · simp [hmem]
  · simp [hmem]

theorem patternPrefix_of_notMem {pattern : TopicId} (h : star ∉ pattern) :
    patternPrefix pattern = pattern := by
  rw [patternPrefix, List.takeWhile_eq_self_iff]
  intro b hb
  have hne : b ≠ star := fun heq => h (heq ▸ hb)
  simpa using hne

theorem patternFilters_pos {m : SubscriptionManager} {key : TopicId} :
    0 < m.patternFilters key ↔
      ∃ pattern ∈ m.patternSubscriptions.keys, patternPrefix pattern = key := by
  simp [patternFilters, List.countP_pos_iff]

/-- Exact subscriptions count for their own filter. -/
theorem filters_setExact (m : SubscriptionManager) (topicId : TopicId) (subs : List Subscriber) :
    filters { m with exactSubscriptions := m.exactSubscriptions.set topicId subs } =
      update m.filters topicId (subs.length + m.patternFilters topicId) := by
  funext key
  rw [filters, SubscriberTable.subscribers_set, update_apply, update_apply]
  split
  · rename_i hkey
    rw [hkey]
    rfl
  · rfl

/-- A new pattern counts for the filter it becomes. -/
theorem filters_setPattern {m : SubscriptionManager} {pattern : TopicId}
    (hnone : m.patternSubscriptions.subscribers pattern = []) {subs : List Subscriber}
    (hsubs : subs ≠ []) :
    filters { m with patternSubscriptions := m.patternSubscriptions.set pattern subs } =
      update m.filters (patternPrefix pattern)
        (m.filters (patternPrefix pattern) + 1) := by
  funext key
  rw [filters, patternFilters, SubscriberTable.keys_set_new hnone hsubs, List.countP_cons,
    update_apply]
  by_cases hkey : key = patternPrefix pattern
  · simp [hkey, filters, patternFilters, Nat.add_assoc]
  · simp [hkey, Ne.symm hkey, filters, patternFilters]

end SubscriptionManager

end ServerLink
