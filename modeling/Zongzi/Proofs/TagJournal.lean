import Zongzi.Model.TagIndex

/-! # The journal is what the state machine does

Making the writes of a journal one after the other has the outcome of the command, panics included. The
loops of the state machine are the touches and deletions of the journal in the same order.
-/

namespace Zongzi

namespace State

/-- Make the writes of a journal on the registry alone. -/
def replay (state : State) (writes : List Write) : Except Panic State := writes.foldlM write state

variable (state : State)

@[simp] theorem replay_nil : state.replay [] = .ok state := rfl

@[simp] theorem replay_cons (write : Write) (writes : List Write) :
    state.replay (write :: writes) = state.write write >>= fun next => next.replay writes :=
  List.foldlM_cons

@[simp] theorem replay_append (first second : List Write) :
    state.replay (first ++ second) = state.replay first >>= fun next => next.replay second :=
  List.foldlM_append

section Loops

variable (replicas : List Replica) (index : ℕ)

@[simp] theorem replay_touchShards :
    state.replay (Journal.touchShards replicas index) = .ok (Fsm.touchShards state replicas index) := by
  induction replicas generalizing state with
  | nil => rfl
  | cons replica rest ih => exact ih (state.shardTouch replica.shardID index)

@[simp] theorem replay_touchHosts :
    state.replay (Journal.touchHosts replicas index) = Fsm.touchHosts state replicas index := by
  induction replicas generalizing state with
  | nil => rfl
  | cons replica rest ih =>
    change state.hostTouch replica.hostID index >>= _ = state.hostTouch replica.hostID index >>= _
    congr 1
    funext next
    exact ih next

@[simp] theorem replay_touchOwners (replica : Replica) :
    state.replay (Journal.touchOwners replica index) = Fsm.touchOwners state replica index := by
  simp [Journal.touchOwners, Fsm.touchOwners, write]
  rfl

theorem replay_dropOnHost :
    state.replay (replicas.flatMap fun replica =>
        [.replicaDelete replica, .shardTouch replica.shardID index]) =
      .ok (replicas.foldl (fun state replica =>
        (state.replicaDelete replica).shardTouch replica.shardID index) state) := by
  induction replicas generalizing state with
  | nil => rfl
  | cons replica rest ih => exact ih ((state.replicaDelete replica).shardTouch replica.shardID index)

theorem replay_dropOfShard :
    state.replay (replicas.flatMap fun replica =>
        [.replicaDelete replica, .hostTouch replica.hostID index]) =
      replicas.foldlM (fun state replica =>
        (state.replicaDelete replica).hostTouch replica.hostID index) state := by
  induction replicas generalizing state with
  | nil => rfl
  | cons replica rest ih =>
    rw [List.flatMap_cons, replay_append, List.foldlM_cons]
    change (State.hostTouch _ replica.hostID index >>= pure) >>= _ = _
    rw [bind_pure]
    congr 1
    funext next
    exact ih next

end Loops

end State

namespace Journal

open State

variable (state : State) (entry : Entry)

/-- The journal of a command, replayed from the state it was written for, ends where the command does. -/
def Replays (writes : Writes) (outcome : Fsm.Outcome) : Prop :=
  (writes >>= state.replay) = Prod.fst <$> outcome

variable {state entry}

theorem Replays.bind {α : Type} {reads : Except Panic α} {writes : α → Writes}
    {outcome : α → Fsm.Outcome} (rest : ∀ value, Replays state (writes value) (outcome value)) :
    Replays state (reads >>= writes) (reads >>= outcome) := by
  cases reads with
  | error panic => rfl
  | ok value => exact rest value

theorem Replays.accept {writes : List Write} {value : ℕ} {after : Except Panic State}
    (replayed : state.replay writes = after) :
    Replays state (pure writes) (after >>= fun next => Fsm.accept next entry value) := by
  subst replayed
  change state.replay writes = Prod.fst <$> (state.replay writes >>= _)
  cases state.replay writes <;> rfl

/-- A last write that cannot panic. -/
theorem Replays.last {writes : List Write} {write : Write} {value : ℕ} {after : Except Panic State}
    {written : State → State} (replayed : state.replay writes = after)
    (last : ∀ next : State, next.write write = .ok (written next)) :
    Replays state (pure (writes ++ [write])) (after >>= fun next => Fsm.accept (written next) entry value) := by
  subst replayed
  change state.replay (writes ++ [write]) = _
  rw [replay_append]
  cases state.replay writes with
  | error panic => rfl
  | ok next =>
    change next.write write >>= pure = _
    rw [last]
    rfl

variable (state entry)

theorem replay_single (write : Write) : state.replay [write] = state.write write := by
  rw [replay_cons]
  exact bind_pure _

section Host

theorem replays_hostCmdPut (host : Host) :
    Replays state (hostCmdPut state entry host) (Fsm.hostCmdPut state entry host) := by
  unfold hostCmdPut Fsm.hostCmdPut
  refine .bind fun found => ?_
  cases found with
  | none =>
    change Replays state (state.replicaIterateByHostID host.id >>= _)
      (state.replicaIterateByHostID host.id >>= _)
    refine .bind fun replicas => .accept ?_
    rw [List.append_assoc, List.singleton_append]
    change (state.setHostID host.id).replay (touchShards replicas entry.index ++ [_]) = _
    rw [replay_append, replay_touchShards]
    exact replay_single _ _
  | some old =>
    change Replays state (Fsm.tagsSetNX host.tags old.tags >>= _)
      (Fsm.tagsSetNX host.tags old.tags >>= _)
    refine .bind fun (tags, changed) => ?_
    change Replays state (state.replicaIterateByHostID host.id >>= _)
      (state.replicaIterateByHostID host.id >>= _)
    refine .bind fun replicas => .accept ?_
    rw [List.nil_append, replay_append, replay_touchShards]
    exact replay_single _ _

theorem replays_hostCmdDel (host : Host) :
    Replays state (hostCmdDel state entry host) (Fsm.hostCmdDel state entry host) := by
  unfold hostCmdDel Fsm.hostCmdDel
  refine .bind fun found => ?_
  cases found with
  | none => rfl
  | some host =>
    refine .bind fun replicas => .accept ?_
    rw [replay_append, replay_dropOnHost]
    exact replay_single _ _

theorem replays_hostTagAction (fn : Fsm.TagFn) (cmd : Host) :
    Replays state (hostTagAction fn state entry cmd) (Fsm.hostTagAction fn state entry cmd) := by
  unfold hostTagAction Fsm.hostTagAction
  refine .bind fun found => ?_
  cases found with
  | none => rfl
  | some host =>
    refine .bind fun (tags, written) => ?_
    cases written with
    | false => rfl
    | true =>
      refine .bind fun replicas => .accept ?_
      rw [replay_append, replay_touchShards]
      exact replay_single _ _

theorem replays_hostUpdate (action : Action) (host : Host) :
    Replays state (hostUpdate state entry action host) (Fsm.hostUpdate state entry action host) := by
  cases action with
  | put => exact replays_hostCmdPut state entry host
  | del => exact replays_hostCmdDel state entry host
  | tagsSet => exact replays_hostTagAction state entry _ host
  | tagsSetNX => exact replays_hostTagAction state entry _ host
  | tagsRemove => exact replays_hostTagAction state entry _ host
  | _ => rfl

end Host

section Shard

/-- A shard that is put and announced to its hosts. -/
theorem replays_announced (shard : Shard) (value : ℕ) :
    Replays state (pure (.shardPut shard :: touchHosts (state.replicaIterateByShardID shard.id) entry.index))
      (Fsm.touchHosts (state.shardPut shard) ((state.shardPut shard).replicaIterateByShardID shard.id)
        entry.index >>= fun next => Fsm.accept next entry value) :=
  .accept (replay_touchHosts (state.shardPut shard) (state.replicaIterateByShardID shard.id) entry.index)

theorem replays_shardCmdPost (shard : Shard) :
    Replays state (shardCmdPost state entry shard) (Fsm.shardCmdPost state entry shard) := by
  unfold shardCmdPost Fsm.shardCmdPost
  split
  · rfl
  · rfl

theorem replays_shardCmdTouch (shard : Shard) :
    Replays state (shardCmdTouch state entry shard) (Fsm.shardCmdTouch state entry shard) := by
  have replicas : (state.shardTouch shard.id entry.index).replicaIterateByShardID shard.id =
      state.replicaIterateByShardID shard.id := by
    unfold shardTouch
    split <;> rfl
  unfold Fsm.shardCmdTouch
  dsimp only
  rw [replicas]
  exact .accept (replay_touchHosts (state.shardTouch shard.id entry.index) _ entry.index)

theorem replays_shardCmdPut (shard : Shard) :
    Replays state (shardCmdPut state entry shard) (Fsm.shardCmdPut state entry shard) := by
  unfold shardCmdPut Fsm.shardCmdPut
  cases state.shard shard.id with
  | some old =>
    refine .bind fun (tags, changed) => ?_
    exact replays_announced state entry
      { shard with created := old.created, tags, updated := entry.index } shard.id
  | none =>
    dsimp only
    split
    · exact replays_announced state entry { shard with created := entry.index, updated := entry.index }
        shard.id
    · rfl

theorem replays_shardCmdStatusUpdate (cmd : Shard) :
    Replays state (shardCmdStatusUpdate state entry cmd) (Fsm.shardCmdStatusUpdate state entry cmd) := by
  unfold shardCmdStatusUpdate Fsm.shardCmdStatusUpdate
  cases state.shard cmd.id with
  | none => rfl
  | some shard =>
    exact replays_announced state entry { shard with status := cmd.status, updated := entry.index } 1

theorem replays_shardCmdLeaderSet (cmd : Shard) :
    Replays state (shardCmdLeaderSet state entry cmd) (Fsm.shardCmdLeaderSet state entry cmd) := by
  unfold shardCmdLeaderSet Fsm.shardCmdLeaderSet
  cases state.shard cmd.id with
  | none => rfl
  | some shard => rfl

theorem replays_shardCmdDel (cmd : Shard) :
    Replays state (shardCmdDel state entry cmd) (Fsm.shardCmdDel state entry cmd) := by
  unfold shardCmdDel Fsm.shardCmdDel
  cases state.shard cmd.id with
  | none => rfl
  | some shard =>
    refine .last ?_ fun next => rfl
    rw [replay_dropOfShard]

theorem replays_shardTagAction (fn : Fsm.TagFn) (cmd : Shard) :
    Replays state (shardTagAction fn state entry cmd) (Fsm.shardTagAction fn state entry cmd) := by
  unfold shardTagAction Fsm.shardTagAction
  cases state.shard cmd.id with
  | none => rfl
  | some shard =>
    refine .bind fun (tags, written) => ?_
    cases written with
    | false => rfl
    | true => exact .last (replay_touchHosts state _ entry.index) fun next => rfl

theorem replays_shardUpdate (action : Action) (shard : Shard) :
    Replays state (shardUpdate state entry action shard) (Fsm.shardUpdate state entry action shard) := by
  cases action with
  | post => exact replays_shardCmdPost state entry shard
  | touch => exact replays_shardCmdTouch state entry shard
  | put => exact replays_shardCmdPut state entry shard
  | statusUpdate => exact replays_shardCmdStatusUpdate state entry shard
  | leaderSet => exact replays_shardCmdLeaderSet state entry shard
  | del => exact replays_shardCmdDel state entry shard
  | tagsSet => exact replays_shardTagAction state entry _ shard
  | tagsSetNX => exact replays_shardTagAction state entry _ shard
  | tagsRemove => exact replays_shardTagAction state entry _ shard
  | _ => rfl

end Shard

section Replica

/-- A replica that is put and announced to its owners. -/
theorem replay_owned (replica written : Replica) :
    state.replay (.replicaPut written :: touchOwners replica entry.index) =
      state.replicaPut written >>= fun next => Fsm.touchOwners next replica entry.index := by
  rw [replay_cons]
  simp only [replay_touchOwners]
  rfl

theorem replays_replicaCmdPost (replica : Replica) :
    Replays state (replicaCmdPost state entry replica) (Fsm.replicaCmdPost state entry replica) := by
  unfold replicaCmdPost Fsm.replicaCmdPost
  dsimp only
  rw [← bind_assoc]
  exact .accept (replay_owned state.replicaIncr.2 entry replica _)

theorem replays_replicaCmdStatusUpdate (cmd : Replica) :
    Replays state (replicaCmdStatusUpdate state entry cmd)
      (Fsm.replicaCmdStatusUpdate state entry cmd) := by
  unfold replicaCmdStatusUpdate Fsm.replicaCmdStatusUpdate
  cases state.replica cmd.id with
  | none => rfl
  | some replica =>
    dsimp only
    rw [← bind_assoc]
    exact .accept (replay_owned state entry replica _)

theorem replays_replicaCmdPut (replica : Replica) :
    Replays state (replicaCmdPut state entry replica) (Fsm.replicaCmdPut state entry replica) := by
  unfold replicaCmdPut Fsm.replicaCmdPut
  cases state.replica replica.id with
  | none => rfl
  | some old =>
    refine .bind fun (tags, changed) => ?_
    dsimp only
    rw [← bind_assoc]
    exact .accept (replay_owned state entry replica _)

theorem replays_replicaCmdDel (cmd : Replica) :
    Replays state (replicaCmdDel state entry cmd) (Fsm.replicaCmdDel state entry cmd) := by
  unfold replicaCmdDel Fsm.replicaCmdDel
  cases state.replica cmd.id with
  | none => rfl
  | some replica => exact .last (replay_touchOwners state entry.index replica) fun next => rfl

theorem replays_replicaTagAction (fn : Fsm.TagFn) (cmd : Replica) :
    Replays state (replicaTagAction fn state entry cmd) (Fsm.replicaTagAction fn state entry cmd) := by
  unfold replicaTagAction Fsm.replicaTagAction
  cases state.replica cmd.id with
  | none => rfl
  | some replica =>
    refine .bind fun (tags, written) => ?_
    cases written with
    | false => rfl
    | true =>
      dsimp only [if_true]
      rw [← bind_assoc]
      refine .accept ?_
      rw [replay_append, replay_touchOwners]
      congr 1
      funext next
      exact replay_single next _

theorem replays_replicaUpdate (action : Action) (replica : Replica) :
    Replays state (replicaUpdate state entry action replica)
      (Fsm.replicaUpdate state entry action replica) := by
  cases action with
  | post => exact replays_replicaCmdPost state entry replica
  | statusUpdate => exact replays_replicaCmdStatusUpdate state entry replica
  | put => exact replays_replicaCmdPut state entry replica
  | del => exact replays_replicaCmdDel state entry replica
  | tagsSet => exact replays_replicaTagAction state entry _ replica
  | tagsSetNX => exact replays_replicaTagAction state entry _ replica
  | tagsRemove => exact replays_replicaTagAction state entry _ replica
  | _ => rfl

end Replica

theorem replays_apply : Replays state (apply state entry) (Fsm.apply state entry) := by
  unfold apply Fsm.apply
  cases entry.cmd with
  | invalid => rfl
  | unrecognized => rfl
  | host action host => exact replays_hostUpdate state entry action host
  | shard action shard => exact replays_shardUpdate state entry action shard
  | replica action replica => exact replays_replicaUpdate state entry action replica

/-- The journal of an entry, replayed, ends where the entry does. -/
theorem replays_update : Replays state (update state entry) (Fsm.update state entry) := by
  have agreed := replays_apply state entry
  unfold Replays at agreed
  unfold Replays update Fsm.update
  split
  · rfl
  · cases written : apply state entry with
    | error panic =>
      rw [written] at agreed
      cases applied : Fsm.apply state entry with
      | error other =>
        rw [applied] at agreed
        cases agreed
        rfl
      | ok outcome =>
        rw [applied] at agreed
        cases agreed
    | ok writes =>
      rw [written] at agreed
      change state.replay writes = _ at agreed
      change state.replay (writes ++ [.metaSetIndex entry.index]) = _
      rw [replay_append, agreed]
      cases Fsm.apply state entry <;> rfl

end Journal

namespace Store

variable {store next : Store}

/-- The registry of a store only depends on its registry. -/
theorem state_replay (store : Store) (writes : List Write) :
    Store.state <$> store.replay writes = store.state.replay writes := by
  induction writes generalizing store with
  | nil => rfl
  | cons write writes ih =>
    rw [State.replay_cons]
    change Store.state <$> (store.write write >>= fun next => next.replay writes) = _
    unfold Store.write
    cases store.state.write write with
    | error panic => rfl
    | ok state => exact ih _

end Store

end Zongzi
