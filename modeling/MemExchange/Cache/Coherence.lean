import MemExchange.Cache.Tiers

/-!
# Reads of the last store

A get must answer what the last successful store of its key left, or miss. But a store into one
tier leaves an older copy in the other, and the local copy hides the remote one until it is
evicted. Reads are coherent in every run whose stores come in turn.
-/
namespace MemExchange.Cache

variable {cfg : Settings}

/-- A get that answers an item answers the value of the last successful store of its key. -/
def ReadsLatest (cfg : Settings) (w : World) (op : Op) : Prop :=
  match w.cache.readBy cfg op with
  | none => True
  | some (key, it) => (w.record key).map Stored.value = some it.value

instance (w : World) (op : Op) : Decidable (ReadsLatest cfg w op) := by
  unfold ReadsLatest; split <;> infer_instance

theorem readsLatest_of_tiers {w : World} (tiers : Tiers cfg w.cache w.record) (op : Op) :
    ReadsLatest cfg w op := by
  unfold ReadsLatest
  split
  · trivial
  · next key answer read =>
    rcases readBy_cases tiers.single read with ⟨it, live, value⟩ | ⟨r, found, rfl⟩
    · obtain ⟨st, entry, same, -⟩ := tiers.near key it (lookup_eq_some_iff.mp live).1
      rw [entry, Option.map_some, same, value]
    · obtain ⟨st, entry, same, -⟩ := tiers.far key r found
      rw [entry, Option.map_some, same]

/-- **Reads are coherent while stores come in turn.** For any settings, size classes and hash
table sizes, in any run of client commands, evictions, LRU moves and clock steps: if an item
in a local chunk is stored only while the remote index does not hold its key, and an item for
a remote slot only while the local index does not, then every get misses or answers the value
of the last store of its key that was answered with success. -/
theorem reads_latest_of_stores_in_turn (cfg : Settings) (sizes : List (Nat × Nat))
    (buckets remoteBuckets : Nat) (run : List Op)
    (inTurn : Run.Along (step cfg) (InTurn cfg) (World.initial sizes buckets remoteBuckets) run) :
    Run.Along (step cfg) (ReadsLatest cfg) (World.initial sizes buckets remoteBuckets) run :=
  Run.along_of_invariant (fun _ _ _ => tiers_step)
    (fun _ op tiers _ => readsLatest_of_tiers tiers op)
    (Tiers.initial sizes buckets remoteBuckets) inTurn

/-- Both tiers in use, each for its own key. -/
theorem reads_latest_when_apart :
    Run.Along (step plainSettings) (ReadsLatest plainSettings) freshWorld
      [remotePage, setValue 1 10 true 0, setValue 2 20 false 0, setValue 3 30 false 0,
        getValue 2, getValue 3, setValue 3 31 false 0, getValue 3, .evict [2], getValue 2] :=
  reads_latest_of_stores_in_turn plainSettings _ _ _ _ (by decide +kernel)

/-- An older value is read: key 2 is first stored in the last local chunk and then, with no
chunk left, in a remote slot; the get finds the local copy. -/
theorem older_value_read :
    ¬ Run.Along (step plainSettings) (ReadsLatest plainSettings) freshWorld
      [remotePage, setValue 1 10 true 0, setValue 2 20 false 0, setValue 2 21 false 0,
        getValue 2] := by
  decide +kernel

end MemExchange.Cache
