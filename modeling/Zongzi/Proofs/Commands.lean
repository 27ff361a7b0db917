import Zongzi.Model.Fsm

/-! # What each command does when it does not panic

One inversion lemma for each command of the state machine. It names the records the command read,
the record it wrote and the loop that announced the change, in the order in which they happen, and
covers the rejected case. Every later fact about the state machine goes through these lemmas.
-/

namespace Zongzi.Fsm

open Std ExceptFold

variable {state next : State} {entry : Entry} {result : Result}

theorem accept_eq_ok_iff {value : ℕ} :
    accept state entry value = .ok (next, result) ↔
      next = state ∧ result = { entry.result with value } := by
  simp [accept, eq_comm]

theorem reject_eq_ok_iff :
    reject state entry = .ok (next, result) ↔ next = state ∧ result = entry.result := by
  simp [reject, eq_comm]

section Host

/-- A host put writes the command's record with the old creation index and merged tags, or with a
fresh creation index and the host meta value set. -/
theorem hostCmdPut_cases {host : Host} (applied : hostCmdPut state entry host = .ok (next, result)) :
    ∃ key written source, uuidKey host.id = some key ∧ written.id = host.id ∧
      written.updated = entry.index ∧
      ((∃ old tags changed, state.hosts.id[key]? = some old ∧
          tagsSetNX host.tags old.tags = .ok (tags, changed) ∧ source = state ∧
          written = { host with created := old.created, tags, updated := entry.index }) ∨
        (state.hosts.id[key]? = none ∧ source = state.setHostID host.id ∧
          written = { host with created := entry.index, updated := entry.index })) ∧
      (touchShards source (state.scanHost key) entry.index).hostPut written = .ok next ∧
      result = { entry.result with value := 1 } := by
  simp only [hostCmdPut, bind_eq_ok_iff, State.host_eq_ok_iff] at applied
  obtain ⟨found, ⟨key, parsed, looked⟩, applied⟩ := applied
  cases found with
  | some old =>
    simp only [bind_eq_ok_iff, pure_eq_ok_iff] at applied
    obtain ⟨⟨tags, changed⟩, merged, source, rfl, replicas, listed, last, stored, applied⟩ := applied
    obtain ⟨rfl, rfl⟩ := accept_eq_ok_iff.mp applied
    obtain ⟨other, valid, rfl⟩ := State.replicaIterateByHostID_eq_ok_iff.mp listed
    cases parsed.symm.trans valid
    exact ⟨key, { host with created := old.created, tags, updated := entry.index }, state, parsed,
      rfl, rfl, .inl ⟨old, tags, changed, looked, merged, rfl, rfl⟩, stored, rfl⟩
  | none =>
    simp only [bind_eq_ok_iff, pure_eq_ok_iff] at applied
    obtain ⟨source, rfl, replicas, listed, last, stored, applied⟩ := applied
    obtain ⟨rfl, rfl⟩ := accept_eq_ok_iff.mp applied
    obtain ⟨other, valid, rfl⟩ := State.replicaIterateByHostID_eq_ok_iff.mp listed
    cases parsed.symm.trans valid
    exact ⟨key, { host with created := entry.index, updated := entry.index },
      state.setHostID host.id, parsed, rfl, rfl, .inr ⟨looked, rfl, rfl⟩, stored, rfl⟩

/-- A host delete drops the replicas of a stored host, then the host. -/
theorem hostCmdDel_cases {host : Host} (applied : hostCmdDel state entry host = .ok (next, result)) :
    ∃ key, uuidKey host.id = some key ∧
      ((state.hosts.id[key]? = none ∧ next = state ∧ result = entry.result) ∨
        ∃ stored, state.hosts.id[key]? = some stored ∧
          ((state.scanHost key).foldl (fun state replica =>
            (state.replicaDelete replica).shardTouch replica.shardID entry.index) state).hostDelete
              stored = .ok next ∧
          result = { entry.result with value := 1 }) := by
  simp only [hostCmdDel, bind_eq_ok_iff, State.host_eq_ok_iff] at applied
  obtain ⟨found, ⟨key, parsed, looked⟩, applied⟩ := applied
  refine ⟨key, parsed, ?_⟩
  cases found with
  | none =>
    obtain ⟨rfl, rfl⟩ := reject_eq_ok_iff.mp applied
    exact .inl ⟨looked, rfl, rfl⟩
  | some stored =>
    obtain ⟨replicas, listed, applied⟩ := bind_eq_ok_iff.mp applied
    obtain ⟨last, deleted, applied⟩ := bind_eq_ok_iff.mp applied
    obtain ⟨rfl, rfl⟩ := accept_eq_ok_iff.mp applied
    obtain ⟨other, valid, rfl⟩ := State.replicaIterateByHostID_eq_ok_iff.mp listed
    cases (state.hosts.keyed key stored looked).symm.trans valid
    exact .inr ⟨stored, looked, deleted, rfl⟩

/-- A host tag action writes back the stored host with changed tags, or does nothing because the host is
missing or the tag function did not write. -/
theorem hostTagAction_cases {fn : TagFn} {cmd : Host}
    (applied : hostTagAction fn state entry cmd = .ok (next, result)) :
    (next = state ∧ result = { entry.result with value := 0 } ∧
        ∀ key stored, uuidKey cmd.id = some key → state.hosts.id[key]? = some stored →
          ∃ tags, fn stored.tags cmd.tags = .ok (tags, false)) ∨
      ∃ key stored tags, uuidKey cmd.id = some key ∧ state.hosts.id[key]? = some stored ∧
        fn stored.tags cmd.tags = .ok (tags, true) ∧
        (touchShards state (state.scanHost key) entry.index).hostPut { stored with tags } = .ok next ∧
        result = { entry.result with value := 1 } := by
  simp only [hostTagAction, bind_eq_ok_iff, State.host_eq_ok_iff] at applied
  obtain ⟨found, ⟨key, parsed, looked⟩, applied⟩ := applied
  cases found with
  | none =>
    obtain ⟨rfl, rfl⟩ := accept_eq_ok_iff.mp applied
    refine .inl ⟨rfl, rfl, fun other stored valid present => ?_⟩
    cases parsed.symm.trans valid
    cases looked.symm.trans present
  | some stored =>
    obtain ⟨⟨tags, written⟩, changed, applied⟩ := bind_eq_ok_iff.mp applied
    cases written with
    | false =>
      obtain ⟨rfl, rfl⟩ := accept_eq_ok_iff.mp applied
      refine .inl ⟨rfl, rfl, fun other stored valid present => ?_⟩
      cases parsed.symm.trans valid
      cases looked.symm.trans present
      exact ⟨tags, changed⟩
    | true =>
      simp only [↓reduceIte, bind_eq_ok_iff] at applied
      obtain ⟨replicas, listed, last, put, applied⟩ := applied
      obtain ⟨rfl, rfl⟩ := accept_eq_ok_iff.mp applied
      obtain ⟨other, valid, rfl⟩ := State.replicaIterateByHostID_eq_ok_iff.mp listed
      cases parsed.symm.trans valid
      exact .inr ⟨key, stored, tags, parsed, looked, changed, put, rfl⟩

end Host

section Shard

theorem shardCmdPost_cases {shard : Shard}
    (applied : shardCmdPost state entry shard = .ok (next, result)) :
    (shard.name ≠ "" ∧ (state.shardFindByName shard.name).isSome ∧ next = state ∧
        result = { entry.result with data := ErrShardExists ++ ": " ++ shard.name }) ∨
      ((shard.name = "" ∨ state.shardFindByName shard.name = none) ∧
        next = state.shardIncr.2.shardPut
          { shard with id := state.shardIncr.1, created := entry.index, updated := entry.index } ∧
        result = { entry.result with value := state.shardIncr.1 }) := by
  unfold shardCmdPost at applied
  split at applied
  · next taken =>
    cases applied
    exact .inl ⟨taken.1, taken.2, rfl, rfl⟩
  · next free =>
    obtain ⟨rfl, rfl⟩ := accept_eq_ok_iff.mp applied
    refine .inr ⟨?_, rfl, rfl⟩
    by_cases unnamed : shard.name = ""
    · exact .inl unnamed
    · exact .inr (Option.not_isSome_iff_eq_none.mp (fun found => free ⟨unnamed, found⟩))

theorem shardCmdTouch_cases {shard : Shard}
    (applied : shardCmdTouch state entry shard = .ok (next, result)) :
    touchHosts (state.shardTouch shard.id entry.index)
        ((state.shardTouch shard.id entry.index).replicaIterateByShardID shard.id) entry.index =
          .ok next ∧
      result = { entry.result with value := shard.id } := by
  obtain ⟨last, touched, applied⟩ := bind_eq_ok_iff.mp applied
  obtain ⟨rfl, rfl⟩ := accept_eq_ok_iff.mp applied
  exact ⟨touched, rfl⟩

/-- A shard put writes a record with the command's identifier and name over a stored shard, or over
nothing when it is the prime shard's first put. -/
theorem shardCmdPut_cases {shard : Shard}
    (applied : shardCmdPut state entry shard = .ok (next, result)) :
    (state.shard shard.id = none ∧ ¬ (shard.id = 0 ∧ state.shardID = 0) ∧ next = state ∧
        result = entry.result) ∨
      ∃ written, written.id = shard.id ∧ written.name = shard.name ∧
        written.updated = entry.index ∧
        ((∃ old tags changed, state.shard shard.id = some old ∧
            tagsSetNX shard.tags old.tags = .ok (tags, changed) ∧
            written = { shard with created := old.created, tags, updated := entry.index }) ∨
          (state.shard shard.id = none ∧ shard.id = 0 ∧ state.shardID = 0 ∧
            written = { shard with created := entry.index, updated := entry.index })) ∧
        touchHosts (state.shardPut written)
          ((state.shardPut written).replicaIterateByShardID shard.id) entry.index = .ok next ∧
        result = { entry.result with value := shard.id } := by
  unfold shardCmdPut at applied
  cases found : state.shard shard.id with
  | some old =>
    simp only [found, bind_eq_ok_iff] at applied
    obtain ⟨⟨tags, changed⟩, merged, last, touched, applied⟩ := applied
    obtain ⟨rfl, rfl⟩ := accept_eq_ok_iff.mp applied
    exact .inr ⟨{ shard with created := old.created, tags, updated := entry.index }, rfl, rfl, rfl,
      .inl ⟨old, tags, changed, rfl, merged, rfl⟩, touched, rfl⟩
  | none =>
    simp only [found] at applied
    split at applied
    · next prime =>
      obtain ⟨last, touched, applied⟩ := bind_eq_ok_iff.mp applied
      obtain ⟨rfl, rfl⟩ := accept_eq_ok_iff.mp applied
      exact .inr ⟨{ shard with created := entry.index, updated := entry.index }, rfl, rfl, rfl,
        .inr ⟨rfl, prime.1, prime.2, rfl⟩, touched, rfl⟩
    · next absent =>
      obtain ⟨rfl, rfl⟩ := reject_eq_ok_iff.mp applied
      exact .inl ⟨rfl, absent, rfl, rfl⟩

theorem shardCmdStatusUpdate_cases {cmd : Shard}
    (applied : shardCmdStatusUpdate state entry cmd = .ok (next, result)) :
    (state.shard cmd.id = none ∧ next = state ∧ result = entry.result) ∨
      ∃ stored, state.shard cmd.id = some stored ∧
        touchHosts (state.shardPut { stored with status := cmd.status, updated := entry.index })
          ((state.shardPut { stored with
            status := cmd.status, updated := entry.index }).replicaIterateByShardID stored.id)
          entry.index = .ok next ∧
        result = { entry.result with value := 1 } := by
  unfold shardCmdStatusUpdate at applied
  cases found : state.shard cmd.id with
  | none =>
    simp only [found] at applied
    obtain ⟨rfl, rfl⟩ := reject_eq_ok_iff.mp applied
    exact .inl ⟨rfl, rfl, rfl⟩
  | some stored =>
    simp only [found, bind_eq_ok_iff] at applied
    obtain ⟨last, touched, applied⟩ := applied
    obtain ⟨rfl, rfl⟩ := accept_eq_ok_iff.mp applied
    exact .inr ⟨stored, rfl, touched, rfl⟩

theorem shardCmdLeaderSet_cases {cmd : Shard}
    (applied : shardCmdLeaderSet state entry cmd = .ok (next, result)) :
    (state.shard cmd.id = none ∧ next = state ∧ result = entry.result) ∨
      ∃ stored, state.shard cmd.id = some stored ∧
        next = state.shardPut
          { stored with leader := cmd.leader, term := cmd.term, updated := entry.index } ∧
        result = { entry.result with value := 1 } := by
  unfold shardCmdLeaderSet at applied
  cases found : state.shard cmd.id with
  | none =>
    simp only [found] at applied
    obtain ⟨rfl, rfl⟩ := reject_eq_ok_iff.mp applied
    exact .inl ⟨rfl, rfl, rfl⟩
  | some stored =>
    simp only [found] at applied
    obtain ⟨rfl, rfl⟩ := accept_eq_ok_iff.mp applied
    exact .inr ⟨stored, rfl, rfl, rfl⟩

/-- A shard delete drops the replicas of a stored shard, announcing each to its host, then the
shard. -/
theorem shardCmdDel_cases {cmd : Shard}
    (applied : shardCmdDel state entry cmd = .ok (next, result)) :
    (state.shard cmd.id = none ∧ next = state ∧ result = entry.result) ∨
      ∃ stored middle, state.shard cmd.id = some stored ∧
        (state.replicaIterateByShardID stored.id).foldlM (fun state replica =>
          (state.replicaDelete replica).hostTouch replica.hostID entry.index) state = .ok middle ∧
        next = middle.shardDelete stored ∧ result = { entry.result with value := 1 } := by
  unfold shardCmdDel at applied
  cases found : state.shard cmd.id with
  | none =>
    simp only [found] at applied
    obtain ⟨rfl, rfl⟩ := reject_eq_ok_iff.mp applied
    exact .inl ⟨rfl, rfl, rfl⟩
  | some stored =>
    simp only [found, bind_eq_ok_iff] at applied
    obtain ⟨middle, dropped, applied⟩ := applied
    obtain ⟨rfl, rfl⟩ := accept_eq_ok_iff.mp applied
    exact .inr ⟨stored, middle, rfl, dropped, rfl, rfl⟩

theorem shardTagAction_cases {fn : TagFn} {cmd : Shard}
    (applied : shardTagAction fn state entry cmd = .ok (next, result)) :
    (next = state ∧ result = { entry.result with value := 0 }) ∨
      ∃ stored tags middle, state.shard cmd.id = some stored ∧
        fn stored.tags cmd.tags = .ok (tags, true) ∧
        touchHosts state (state.replicaIterateByShardID cmd.id) entry.index = .ok middle ∧
        next = middle.shardPut { stored with tags } ∧
        result = { entry.result with value := 1 } := by
  unfold shardTagAction at applied
  cases found : state.shard cmd.id with
  | none =>
    simp only [found] at applied
    exact .inl (accept_eq_ok_iff.mp applied)
  | some stored =>
    simp only [found, bind_eq_ok_iff] at applied
    obtain ⟨⟨tags, written⟩, changed, applied⟩ := applied
    cases written with
    | false => exact .inl (accept_eq_ok_iff.mp applied)
    | true =>
      simp only [↓reduceIte, bind_eq_ok_iff] at applied
      obtain ⟨middle, touched, applied⟩ := applied
      obtain ⟨rfl, rfl⟩ := accept_eq_ok_iff.mp applied
      exact .inr ⟨stored, tags, middle, rfl, changed, touched, rfl, rfl⟩

end Shard

section Replica

/-- A post writes the command's record under the next identifier and announces it. -/
theorem replicaCmdPost_cases {replica : Replica}
    (applied : replicaCmdPost state entry replica = .ok (next, result)) :
    ∃ written middle, written.id = state.replicaIncr.1 ∧
      written = { replica with
        id := state.replicaIncr.1, created := entry.index, updated := entry.index,
        status := written.status } ∧
      (written.status = .bootstrapping ↔
        replica.isNonVoting = false ∧ (state.shardMembers replica.shardID).size < 3) ∧
      (written.status = .bootstrapping ∨ written.status = .joining) ∧
      state.replicaIncr.2.replicaPut written = .ok middle ∧
      touchOwners middle replica entry.index = .ok next ∧
      result = { entry.result with value := state.replicaIncr.1 } := by
  simp only [replicaCmdPost, bind_eq_ok_iff] at applied
  obtain ⟨middle, stored, last, touched, applied⟩ := applied
  obtain ⟨rfl, rfl⟩ := accept_eq_ok_iff.mp applied
  refine ⟨_, middle, rfl, rfl, ?_, ?_, stored, touched, rfl⟩
  · have members : state.replicaIncr.2.shardMembers replica.shardID =
        state.shardMembers replica.shardID := rfl
    simp [members]
  · dsimp only
    split
    · exact .inl rfl
    · exact .inr rfl

theorem replicaCmdStatusUpdate_cases {cmd : Replica}
    (applied : replicaCmdStatusUpdate state entry cmd = .ok (next, result)) :
    (state.replica cmd.id = none ∧ next = state ∧ result = entry.result) ∨
      ∃ stored middle, state.replica cmd.id = some stored ∧
        state.replicaPut { stored with status := cmd.status } = .ok middle ∧
        touchOwners middle stored entry.index = .ok next ∧
        result = { entry.result with value := 1 } := by
  unfold replicaCmdStatusUpdate at applied
  cases found : state.replica cmd.id with
  | none =>
    simp only [found] at applied
    obtain ⟨rfl, rfl⟩ := reject_eq_ok_iff.mp applied
    exact .inl ⟨rfl, rfl, rfl⟩
  | some stored =>
    simp only [found, bind_eq_ok_iff] at applied
    obtain ⟨middle, put, last, touched, applied⟩ := applied
    obtain ⟨rfl, rfl⟩ := accept_eq_ok_iff.mp applied
    exact .inr ⟨stored, middle, rfl, put, touched, rfl⟩

theorem replicaCmdPut_cases {replica : Replica}
    (applied : replicaCmdPut state entry replica = .ok (next, result)) :
    (state.replica replica.id = none ∧ next = state ∧ result = entry.result) ∨
      ∃ old tags changed middle, state.replica replica.id = some old ∧
        tagsSetNX replica.tags old.tags = .ok (tags, changed) ∧
        state.replicaPut { replica with
          created := old.created, tags, updated := entry.index } = .ok middle ∧
        touchOwners middle replica entry.index = .ok next ∧
        result = { entry.result with value := 1 } := by
  unfold replicaCmdPut at applied
  cases found : state.replica replica.id with
  | none =>
    simp only [found] at applied
    obtain ⟨rfl, rfl⟩ := reject_eq_ok_iff.mp applied
    exact .inl ⟨rfl, rfl, rfl⟩
  | some old =>
    simp only [found, bind_eq_ok_iff] at applied
    obtain ⟨⟨tags, changed⟩, merged, middle, put, last, touched, applied⟩ := applied
    obtain ⟨rfl, rfl⟩ := accept_eq_ok_iff.mp applied
    exact .inr ⟨old, tags, changed, middle, rfl, merged, put, touched, rfl⟩

theorem replicaCmdDel_cases {cmd : Replica}
    (applied : replicaCmdDel state entry cmd = .ok (next, result)) :
    (state.replica cmd.id = none ∧ next = state ∧ result = entry.result) ∨
      ∃ stored middle, state.replica cmd.id = some stored ∧
        touchOwners state stored entry.index = .ok middle ∧
        next = middle.replicaDelete stored ∧ result = { entry.result with value := 1 } := by
  unfold replicaCmdDel at applied
  cases found : state.replica cmd.id with
  | none =>
    simp only [found] at applied
    obtain ⟨rfl, rfl⟩ := reject_eq_ok_iff.mp applied
    exact .inl ⟨rfl, rfl, rfl⟩
  | some stored =>
    simp only [found, bind_eq_ok_iff] at applied
    obtain ⟨middle, touched, applied⟩ := applied
    obtain ⟨rfl, rfl⟩ := accept_eq_ok_iff.mp applied
    exact .inr ⟨stored, middle, rfl, touched, rfl, rfl⟩

theorem replicaTagAction_cases {fn : TagFn} {cmd : Replica}
    (applied : replicaTagAction fn state entry cmd = .ok (next, result)) :
    (next = state ∧ result = { entry.result with value := 0 }) ∨
      ∃ stored tags middle, state.replica cmd.id = some stored ∧
        fn stored.tags cmd.tags = .ok (tags, true) ∧
        touchOwners state stored entry.index = .ok middle ∧
        middle.replicaPut { stored with tags } = .ok next ∧
        result = { entry.result with value := 1 } := by
  unfold replicaTagAction at applied
  cases found : state.replica cmd.id with
  | none =>
    simp only [found] at applied
    exact .inl (accept_eq_ok_iff.mp applied)
  | some stored =>
    simp only [found, bind_eq_ok_iff] at applied
    obtain ⟨⟨tags, written⟩, changed, applied⟩ := applied
    cases written with
    | false => exact .inl (accept_eq_ok_iff.mp applied)
    | true =>
      simp only [↓reduceIte, bind_eq_ok_iff] at applied
      obtain ⟨middle, touched, last, put, applied⟩ := applied
      obtain ⟨rfl, rfl⟩ := accept_eq_ok_iff.mp applied
      exact .inr ⟨stored, tags, middle, rfl, changed, touched, put, rfl⟩

end Replica

/-- An entry that decodes applies its command and then moves the index. -/
theorem update_cases (applied : update state entry = .ok (next, result)) :
    (entry.cmd = .invalid ∧ next = state ∧ result = entry.result) ∨
      ∃ middle, apply state entry = .ok (middle, result) ∧
        next = middle.metaSetIndex entry.index ∧ entry.cmd ≠ .invalid := by
  unfold update at applied
  split at applied
  · next invalid =>
    obtain ⟨rfl, rfl⟩ := reject_eq_ok_iff.mp applied
    exact .inl ⟨invalid, rfl, rfl⟩
  · next valid =>
    obtain ⟨⟨middle, value⟩, ran, moved⟩ := bind_eq_ok_iff.mp applied
    obtain ⟨rfl, rfl⟩ := Prod.mk.inj (pure_eq_ok_iff.mp moved)
    exact .inr ⟨middle, ran, rfl, valid⟩

end Zongzi.Fsm
