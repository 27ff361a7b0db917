import Zongzi.Proofs.Runs

/-! # What an entry does to the shard table

A shard command writes at most one record. Host and replica commands touch shards in place, one for
each replica they announce. `ShardTable.Effect` lists the possible effects with the record written
and the entry that writes it, and `update_shards` shows that there are no others. A tag command
writes its shard without touching it.
-/

namespace Zongzi

open Std SecondaryIndex ExceptFold

namespace ShardTable

/-- A table reached by touching shards it holds. -/
inductive Touched (index : ℕ) (table : ShardTable) : ShardTable → Prop
  | refl : Touched index table table
  | touch {next : ShardTable} {id : ℕ} {shard : Shard} (before : Touched index table next)
      (found : next.id[id]? = some shard) :
      Touched index table (next.insert { shard with updated := index })

/-- What one entry does to a shard table whose last created identifier is `last`. -/
inductive Effect (table : ShardTable) (last : ℕ) (entry : Entry) : ShardTable → Prop
  | touched {next : ShardTable} (touches : Touched entry.index table next)
      (put : ∀ shard, entry.cmd ≠ .shard .put shard) (post : ∀ shard, entry.cmd ≠ .shard .post shard) :
      Effect table last entry next
  | taken {shard : Shard} (cmd : entry.cmd = .shard .post shard) (named : shard.name ≠ "")
      (held : (table.name[shard.name]?).isSome) : Effect table last entry table
  | posted {shard : Shard} (cmd : entry.cmd = .shard .post shard)
      (free : shard.name = "" ∨ table.name[shard.name]? = none) :
      Effect table last entry (table.insert
        { shard with id := (last + 1) % 2 ^ 64, created := entry.index, updated := entry.index })
  | replaced {shard old : Shard} {tags : Tags} {changed : Bool}
      (cmd : entry.cmd = .shard .put shard) (found : table.id[shard.id]? = some old)
      (merged : Fsm.tagsSetNX shard.tags old.tags = .ok (tags, changed)) :
      Effect table last entry
        (table.insert { shard with created := old.created, tags, updated := entry.index })
  | refused {shard : Shard} (cmd : entry.cmd = .shard .put shard)
      (absent : table.id[shard.id]? = none) (prime : ¬ (shard.id = 0 ∧ last = 0)) :
      Effect table last entry table
  | primed {shard : Shard} (cmd : entry.cmd = .shard .put shard) (absent : table.id[shard.id]? = none)
      (prime : shard.id = 0) (first : last = 0) :
      Effect table last entry
        (table.insert { shard with created := entry.index, updated := entry.index })
  | statusUpdated {shard stored : Shard} (cmd : entry.cmd = .shard .statusUpdate shard)
      (found : table.id[shard.id]? = some stored) :
      Effect table last entry
        (table.insert { stored with status := shard.status, updated := entry.index })
  | leaderSet {shard stored : Shard} (cmd : entry.cmd = .shard .leaderSet shard)
      (found : table.id[shard.id]? = some stored) :
      Effect table last entry (table.insert
        { stored with leader := shard.leader, term := shard.term, updated := entry.index })
  | tagged {action : Action} {shard stored : Shard} {tags : Tags} {fn : Fsm.TagFn}
      (cmd : entry.cmd = .shard action shard) (put : action ≠ .put) (post : action ≠ .post)
      (found : table.id[shard.id]? = some stored)
      (changed : fn stored.tags shard.tags = .ok (tags, true)) :
      Effect table last entry (table.insert { stored with tags })
  | deleted {shard stored : Shard} (cmd : entry.cmd = .shard .del shard)
      (found : table.id[shard.id]? = some stored) : Effect table last entry (table.delete stored)

theorem Effect.same {table : ShardTable} {last : ℕ} {entry : Entry}
    (put : ∀ shard, entry.cmd ≠ .shard .put shard) (post : ∀ shard, entry.cmd ≠ .shard .post shard) :
    Effect table last entry table :=
  .touched .refl put post

end ShardTable

namespace Fsm

open State ShardTable

variable {state next : State} {entry : Entry} {result : Result}

section Frame

/-! Host and replica writes leave the shard table alone. -/

theorem shards_of_hostPut {host : Host} (stored : state.hostPut host = .ok next) :
    next.shards = state.shards := by
  obtain ⟨key, valid, rfl⟩ := hostPut_eq_ok_iff.mp stored
  rfl

theorem shards_of_hostDelete {host : Host} (deleted : state.hostDelete host = .ok next) :
    next.shards = state.shards := by
  obtain ⟨key, valid, rfl⟩ := hostDelete_eq_ok_iff.mp deleted
  rfl

theorem shards_of_hostTouch {id : String} {index : ℕ} (touched : state.hostTouch id index = .ok next) :
    next.shards = state.shards := by
  obtain ⟨key, host, -, -, stored⟩ := hostTouch_eq_ok_iff.mp touched
  exact shards_of_hostPut stored

theorem shards_of_touchHosts {replicas : List Replica} {index : ℕ}
    (touched : touchHosts state replicas index = .ok next) : next.shards = state.shards :=
  foldlM_invariant (fun middle => middle.shards = state.shards) touched rfl
    fun _ _ _ _ same stepped => (shards_of_hostTouch stepped).trans same

theorem shards_of_replicaPut {replica : Replica} (stored : state.replicaPut replica = .ok next) :
    next.shards = state.shards := by
  obtain ⟨valid, rfl⟩ := replicaPut_eq_ok_iff.mp stored
  rfl

end Frame

section Touches

variable {index : ℕ} {table : ShardTable}

theorem touched_shardTouch (touches : Touched index table state.shards) (id : ℕ) :
    Touched index table (state.shardTouch id index).shards := by
  unfold State.shardTouch
  split
  · next shard found => exact .touch touches found
  · exact touches

theorem touched_touchShards (touches : Touched index table state.shards) (replicas : List Replica) :
    Touched index table (touchShards state replicas index).shards := by
  unfold touchShards
  induction replicas generalizing state with
  | nil => exact touches
  | cons replica rest ih => exact ih (touched_shardTouch touches replica.shardID)

theorem touched_dropOnHost (touches : Touched index table state.shards) (replicas : List Replica) :
    Touched index table (replicas.foldl (fun state replica =>
      (state.replicaDelete replica).shardTouch replica.shardID index) state).shards := by
  induction replicas generalizing state with
  | nil => exact touches
  | cons replica rest ih =>
    have dropped : Touched index table (state.replicaDelete replica).shards := touches
    exact ih (touched_shardTouch dropped replica.shardID)

theorem touched_of_touchOwners (touches : Touched index table state.shards) {replica : Replica}
    (touched : touchOwners state replica index = .ok next) : Touched index table next.shards := by
  obtain ⟨middle, stepped, last⟩ := bind_eq_ok_iff.mp touched
  obtain rfl := pure_eq_ok_iff.mp last
  exact touched_shardTouch (by rw [shards_of_hostTouch stepped]; exact touches) replica.shardID

end Touches

section Host

variable {host : Host} {fn : TagFn}

theorem hostCmdPut_shards (applied : hostCmdPut state entry host = .ok (next, result)) :
    Touched entry.index state.shards next.shards := by
  obtain ⟨key, written, source, -, -, -, origin, stored, -⟩ := hostCmdPut_cases applied
  have kept : source.shards = state.shards := by
    obtain ⟨_, _, _, _, _, rfl, _⟩ | ⟨_, rfl, _⟩ := origin
    · rfl
    · rfl
  rw [shards_of_hostPut stored]
  exact touched_touchShards (by rw [kept]; exact .refl) _

theorem hostCmdDel_shards (applied : hostCmdDel state entry host = .ok (next, result)) :
    Touched entry.index state.shards next.shards := by
  obtain ⟨key, -, ⟨-, rfl, -⟩ | ⟨stored, -, deleted, -⟩⟩ := hostCmdDel_cases applied
  · exact .refl
  · rw [shards_of_hostDelete deleted]
    exact touched_dropOnHost .refl _

theorem hostTagAction_shards (applied : hostTagAction fn state entry host = .ok (next, result)) :
    Touched entry.index state.shards next.shards := by
  obtain ⟨rfl, -⟩ | ⟨key, stored, tags, -, -, -, put, -⟩ := hostTagAction_cases applied
  · exact .refl
  · rw [shards_of_hostPut put]
    exact touched_touchShards .refl _

theorem hostUpdate_shards {action : Action}
    (applied : hostUpdate state entry action host = .ok (next, result)) :
    Touched entry.index state.shards next.shards := by
  unfold hostUpdate at applied
  split at applied
  · exact hostCmdPut_shards applied
  · exact hostCmdDel_shards applied
  · exact hostTagAction_shards applied
  · exact hostTagAction_shards applied
  · exact hostTagAction_shards applied
  · obtain ⟨rfl, -⟩ := reject_eq_ok_iff.mp applied
    exact .refl

end Host

section Shard

variable {shard : Shard} {fn : TagFn}

theorem shardCmdPost_shards (cmd : entry.cmd = .shard .post shard)
    (applied : shardCmdPost state entry shard = .ok (next, result)) :
    Effect state.shards state.shardID entry next.shards := by
  obtain ⟨named, held, rfl, -⟩ | ⟨free, rfl, -⟩ := shardCmdPost_cases applied
  · exact .taken cmd named held
  · exact .posted cmd free

theorem shardCmdTouch_shards (cmd : entry.cmd = .shard .touch shard)
    (applied : shardCmdTouch state entry shard = .ok (next, result)) :
    Effect state.shards state.shardID entry next.shards := by
  rw [shards_of_touchHosts (shardCmdTouch_cases applied).1]
  exact .touched (touched_shardTouch .refl _) (by simp [cmd]) (by simp [cmd])

theorem shardCmdPut_shards (cmd : entry.cmd = .shard .put shard)
    (applied : shardCmdPut state entry shard = .ok (next, result)) :
    Effect state.shards state.shardID entry next.shards := by
  obtain ⟨absent, prime, rfl, -⟩ | ⟨written, -, -, -, origin, touched, -⟩ :=
    shardCmdPut_cases applied
  · exact .refused cmd absent prime
  · rw [shards_of_touchHosts touched]
    obtain ⟨old, tags, changed, found, merged, rfl⟩ | ⟨absent, prime, first, rfl⟩ := origin
    · exact .replaced cmd found merged
    · exact .primed cmd absent prime first

theorem shardCmdStatusUpdate_shards (cmd : entry.cmd = .shard .statusUpdate shard)
    (applied : shardCmdStatusUpdate state entry shard = .ok (next, result)) :
    Effect state.shards state.shardID entry next.shards := by
  obtain ⟨-, rfl, -⟩ | ⟨stored, found, touched, -⟩ := shardCmdStatusUpdate_cases applied
  · exact .same (by simp [cmd]) (by simp [cmd])
  · rw [shards_of_touchHosts touched]
    exact .statusUpdated cmd found

theorem shardCmdLeaderSet_shards (cmd : entry.cmd = .shard .leaderSet shard)
    (applied : shardCmdLeaderSet state entry shard = .ok (next, result)) :
    Effect state.shards state.shardID entry next.shards := by
  obtain ⟨-, rfl, -⟩ | ⟨stored, found, rfl, -⟩ := shardCmdLeaderSet_cases applied
  · exact .same (by simp [cmd]) (by simp [cmd])
  · exact .leaderSet cmd found

theorem shardCmdDel_shards (cmd : entry.cmd = .shard .del shard)
    (applied : shardCmdDel state entry shard = .ok (next, result)) :
    Effect state.shards state.shardID entry next.shards := by
  obtain ⟨-, rfl, -⟩ | ⟨stored, middle, found, dropped, rfl, -⟩ := shardCmdDel_cases applied
  · exact .same (by simp [cmd]) (by simp [cmd])
  · have kept : middle.shards = state.shards :=
      foldlM_invariant (fun middle => middle.shards = state.shards) dropped rfl
        fun _ _ _ _ same stepped => (shards_of_hostTouch stepped).trans same
    simp only [State.shardDelete, kept]
    exact .deleted cmd found

theorem shardTagAction_shards {action : Action} (cmd : entry.cmd = .shard action shard)
    (put : action ≠ .put) (post : action ≠ .post)
    (applied : shardTagAction fn state entry shard = .ok (next, result)) :
    Effect state.shards state.shardID entry next.shards := by
  obtain ⟨rfl, -⟩ | ⟨stored, tags, middle, found, changed, touched, rfl, -⟩ :=
    shardTagAction_cases applied
  · exact .same (by simp [cmd, put]) (by simp [cmd, post])
  · simp only [State.shardPut, shards_of_touchHosts touched]
    exact .tagged cmd put post found changed

theorem shardUpdate_shards {action : Action} (cmd : entry.cmd = .shard action shard)
    (applied : shardUpdate state entry action shard = .ok (next, result)) :
    Effect state.shards state.shardID entry next.shards := by
  unfold shardUpdate at applied
  split at applied
  · exact shardCmdPost_shards cmd applied
  · exact shardCmdTouch_shards cmd applied
  · exact shardCmdPut_shards cmd applied
  · exact shardCmdStatusUpdate_shards cmd applied
  · exact shardCmdLeaderSet_shards cmd applied
  · exact shardCmdDel_shards cmd applied
  · exact shardTagAction_shards cmd (by simp) (by simp) applied
  · exact shardTagAction_shards cmd (by simp) (by simp) applied
  · exact shardTagAction_shards cmd (by simp) (by simp) applied
  · next post _ put _ _ _ _ _ _ =>
    obtain ⟨rfl, -⟩ := reject_eq_ok_iff.mp applied
    exact .same (by simpa [cmd] using put) (by simpa [cmd] using post)

end Shard

section Replica

variable {replica : Replica} {fn : TagFn}

theorem replicaCmdPost_shards (applied : replicaCmdPost state entry replica = .ok (next, result)) :
    Touched entry.index state.shards next.shards := by
  obtain ⟨written, middle, -, -, -, -, stored, touched, -⟩ := replicaCmdPost_cases applied
  have kept : middle.shards = state.replicaIncr.2.shards := shards_of_replicaPut stored
  exact touched_of_touchOwners (by rw [kept]; exact .refl) touched

theorem replicaCmdStatusUpdate_shards
    (applied : replicaCmdStatusUpdate state entry replica = .ok (next, result)) :
    Touched entry.index state.shards next.shards := by
  obtain ⟨-, rfl, -⟩ | ⟨stored, middle, -, put, touched, -⟩ := replicaCmdStatusUpdate_cases applied
  · exact .refl
  · exact touched_of_touchOwners (by rw [shards_of_replicaPut put]; exact .refl) touched

theorem replicaCmdPut_shards (applied : replicaCmdPut state entry replica = .ok (next, result)) :
    Touched entry.index state.shards next.shards := by
  obtain ⟨-, rfl, -⟩ | ⟨old, tags, changed, middle, -, -, put, touched, -⟩ :=
    replicaCmdPut_cases applied
  · exact .refl
  · exact touched_of_touchOwners (by rw [shards_of_replicaPut put]; exact .refl) touched

theorem replicaCmdDel_shards (applied : replicaCmdDel state entry replica = .ok (next, result)) :
    Touched entry.index state.shards next.shards := by
  obtain ⟨-, rfl, -⟩ | ⟨stored, middle, -, touched, rfl, -⟩ := replicaCmdDel_cases applied
  · exact .refl
  · have kept : Touched entry.index state.shards middle.shards :=
      touched_of_touchOwners .refl touched
    exact kept

theorem replicaTagAction_shards
    (applied : replicaTagAction fn state entry replica = .ok (next, result)) :
    Touched entry.index state.shards next.shards := by
  obtain ⟨rfl, -⟩ | ⟨stored, tags, middle, -, -, touched, put, -⟩ := replicaTagAction_cases applied
  · exact .refl
  · rw [shards_of_replicaPut put]
    exact touched_of_touchOwners .refl touched

theorem replicaUpdate_shards {action : Action}
    (applied : replicaUpdate state entry action replica = .ok (next, result)) :
    Touched entry.index state.shards next.shards := by
  unfold replicaUpdate at applied
  split at applied
  · exact replicaCmdPost_shards applied
  · exact replicaCmdStatusUpdate_shards applied
  · exact replicaCmdPut_shards applied
  · exact replicaCmdDel_shards applied
  · exact replicaTagAction_shards applied
  · exact replicaTagAction_shards applied
  · exact replicaTagAction_shards applied
  · obtain ⟨rfl, -⟩ := reject_eq_ok_iff.mp applied
    exact .refl

end Replica

/-- Every entry has one of the listed effects on the shard table. -/
theorem update_shards (updated : update state entry = .ok (next, result)) :
    Effect state.shards state.shardID entry next.shards := by
  obtain ⟨invalid, rfl, -⟩ | ⟨middle, applied, rfl, valid⟩ := update_cases updated
  · exact .same (by simp [invalid]) (by simp [invalid])
  · change Effect state.shards state.shardID entry middle.shards
    unfold apply at applied
    split at applied
    · next invalid => exact absurd invalid valid
    · next cmd =>
      obtain ⟨rfl, -⟩ := reject_eq_ok_iff.mp applied
      exact .same (by simp [cmd]) (by simp [cmd])
    · next cmd => exact .touched (hostUpdate_shards applied) (by simp [cmd]) (by simp [cmd])
    · next cmd => exact shardUpdate_shards cmd applied
    · next cmd => exact .touched (replicaUpdate_shards applied) (by simp [cmd]) (by simp [cmd])

end Fsm

end Zongzi
