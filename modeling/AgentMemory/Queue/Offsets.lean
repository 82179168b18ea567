import AgentMemory.Queue.Jobs

/-!
# The job queue on Kafka

`internal/adapters/queue/kafka/queue.go`: readers of one consumer group handle the messages of a topic, and commit the
offset of a message once its handler has succeeded. A message whose handler fails is left uncommitted, to be delivered
again; but an offset stands for all messages before it. `redelivered_iff_commits_in_order` says when no message is left
out.
-/

namespace AgentMemory

open Runs

/-- The message that a reader has fetched, and whether its handler has succeeded. -/
structure Fetched where
  partition : Nat
  offset : Nat
  handled : Bool
  deriving DecidableEq

/-- A topic with one consumer group. The owner of a partition is the reader it is assigned to, with the offset that this
reader fetches next. `accepted` and `refused` list the partition and offset of each message for which a handler has
returned. -/
structure KafkaTopic where
  log : Nat → List QueueMessage
  committed : Nat → Nat
  owner : Nat → Option (Nat × Nat)
  handling : Nat → Option Fetched
  accepted : List (Nat × Nat)
  refused : List (Nat × Nat)

/-- What can happen next. -/
inductive KafkaAction where
  /-- `Publish`. -/
  | publish (msg : QueueMessage)
  /-- The group gives a partition to a reader, which goes on from the committed offset. -/
  | assign (reader partition : Nat)
  /-- `reader.FetchMessage`. -/
  | fetch (reader partition : Nat)
  /-- The handler returns. Where it fails the loop continues. -/
  | handle (reader : Nat) (handled : Bool)
  /-- `reader.CommitMessages`. Where it fails, `Subscribe` returns: with the error, or since the context has ended. -/
  | commit (reader : Nat) (done : Bool)
  /-- `Subscribe` returns, or its process ends. -/
  | leave (reader : Nat)

namespace KafkaTopic

def initial : KafkaTopic := ⟨fun _ => [], fun _ => 0, fun _ => none, fun _ => none, [], []⟩

def append (s : KafkaTopic) (partition : Nat) (msg : QueueMessage) : KafkaTopic :=
  { s with log := fun p => if p = partition then s.log p ++ [msg] else s.log p }

def setOwner (s : KafkaTopic) (partition : Nat) (owner : Nat × Nat) : KafkaTopic :=
  { s with owner := fun p => if p = partition then some owner else s.owner p }

def setHandling (s : KafkaTopic) (reader : Nat) (fetched : Option Fetched) : KafkaTopic :=
  { s with handling := fun r => if r = reader then fetched else s.handling r }

def setCommitted (s : KafkaTopic) (partition offset : Nat) : KafkaTopic :=
  { s with committed := fun p => if p = partition then offset else s.committed p }

/-- The handler has returned for the message that the reader holds. -/
def returned (s : KafkaTopic) (reader partition offset : Nat) (handled : Bool) : KafkaTopic :=
  if handled then
    { s.setHandling reader (some ⟨partition, offset, true⟩) with accepted := (partition, offset) :: s.accepted }
  else { s.setHandling reader none with refused := (partition, offset) :: s.refused }

/-- The partitions of a reader that leaves are free. -/
def without (s : KafkaTopic) (reader : Nat) : KafkaTopic :=
  { s.setHandling reader none with owner := fun p => (s.owner p).filter fun owner => owner.1 ≠ reader }

/-- One step. The balancer picks the partition by the key (`kafkago.Hash`). -/
def step (balance : String → Nat) (s : KafkaTopic) : KafkaAction → Option KafkaTopic
  | .publish msg => some (s.append (balance msg.key) msg)
  | .assign reader partition => some (s.setOwner partition (reader, s.committed partition))
  | .fetch reader partition =>
    match s.handling reader, s.owner partition with
    | none, some (owner, offset) =>
      if owner = reader ∧ offset < (s.log partition).length then
        some ((s.setOwner partition (reader, offset + 1)).setHandling reader (some ⟨partition, offset, false⟩))
      else none
    | _, _ => none
  | .handle reader handled =>
    match s.handling reader with
    | some ⟨partition, offset, false⟩ => some (s.returned reader partition offset handled)
    | _ => none
  | .commit reader done =>
    match s.handling reader with
    | some ⟨partition, offset, true⟩ =>
      if done then some ((s.setCommitted partition (offset + 1)).setHandling reader none) else some (s.without reader)
    | _ => none
  | .leave reader => some (s.without reader)

/-- Everything that a step can do. -/
inductive Stepped (balance : String → Nat) (s : KafkaTopic) : KafkaAction → KafkaTopic → Prop where
  | publish (msg : QueueMessage) : Stepped balance s (.publish msg) (s.append (balance msg.key) msg)
  | assign (reader partition : Nat) :
      Stepped balance s (.assign reader partition) (s.setOwner partition (reader, s.committed partition))
  | fetch {reader partition offset : Nat} (hidle : s.handling reader = none)
      (howner : s.owner partition = some (reader, offset)) (hlog : offset < (s.log partition).length) :
      Stepped balance s (.fetch reader partition)
        ((s.setOwner partition (reader, offset + 1)).setHandling reader (some ⟨partition, offset, false⟩))
  | handle {reader partition offset : Nat} (handled : Bool)
      (hfetched : s.handling reader = some ⟨partition, offset, false⟩) :
      Stepped balance s (.handle reader handled) (s.returned reader partition offset handled)
  | commit {reader partition offset : Nat} (hfetched : s.handling reader = some ⟨partition, offset, true⟩) :
      Stepped balance s (.commit reader true) ((s.setCommitted partition (offset + 1)).setHandling reader none)
  | uncommitted (reader : Nat) : Stepped balance s (.commit reader false) (s.without reader)
  | leave (reader : Nat) : Stepped balance s (.leave reader) (s.without reader)

section Steps

variable {balance : String → Nat}

theorem step_cases {s s' : KafkaTopic} {a : KafkaAction} (h : s.step balance a = some s') : s.Stepped balance a s' := by
  cases a with
  | publish msg =>
    obtain rfl := Option.some.inj h
    exact .publish msg
  | assign reader partition =>
    obtain rfl := Option.some.inj h
    exact .assign reader partition
  | fetch reader partition =>
    simp only [step] at h
    split at h
    · next offset hidle howner =>
      obtain ⟨⟨rfl, hlog⟩, h⟩ := Option.ite_none_right_eq_some.mp h
      obtain rfl := Option.some.inj h
      exact .fetch hidle howner hlog
    · cases h
  | handle reader handled =>
    simp only [step] at h
    split at h
    · next hfetched =>
      obtain rfl := Option.some.inj h
      exact .handle handled hfetched
    · cases h
  | commit reader done =>
    simp only [step] at h
    split at h
    · next hfetched =>
      cases done with
      | true =>
        obtain rfl := Option.some.inj h
        exact .commit hfetched
      | false =>
        obtain rfl := Option.some.inj h
        exact .uncommitted reader
    · cases h
  | leave reader =>
    obtain rfl := Option.some.inj h
    exact .leave reader

/-! ## What has been passed over -/

/-- A handler has returned for the message. -/
def Passed (s : KafkaTopic) (partition offset : Nat) : Prop :=
  (partition, offset) ∈ s.accepted ∨ (partition, offset) ∈ s.refused

/-- The handlers have returned for what is before the offset that the reader fetches next, but for the message that it
holds. -/
def OwnersTracked (s : KafkaTopic) : Prop :=
  ∀ p r pos, s.owner p = some (r, pos) → ∀ o < pos, s.Passed p o ∨ ∃ done, s.handling r = some ⟨p, o, done⟩

/-- They have returned for what is before the message that a reader holds. -/
structure Holds (s : KafkaTopic) (f : Fetched) : Prop where
  published : f.offset < (s.log f.partition).length
  before : ∀ o < f.offset, s.Passed f.partition o
  accepted : f.handled = true → (f.partition, f.offset) ∈ s.accepted

theorem Holds.of_eq {s s' : KafkaTopic} {f : Fetched} (h : s.Holds f) (hlog : s'.log = s.log)
    (haccepted : s'.accepted = s.accepted) (hrefused : s'.refused = s.refused) : s'.Holds f := by
  refine ⟨by rw [hlog]; exact h.published, fun o ho => ?_, fun hf => by rw [haccepted]; exact h.accepted hf⟩
  rw [Passed, haccepted, hrefused]
  exact h.before o ho

/-- Where a reader or the group has got to, the handlers have returned for what is before. -/
structure Tracked (s : KafkaTopic) : Prop where
  owners : s.OwnersTracked
  handling : ∀ r f, s.handling r = some f → s.Holds f
  committed : ∀ p o, o < s.committed p → s.Passed p o
  idle : ∃ n, ∀ r, n ≤ r → s.handling r = none

theorem tracked_initial : initial.Tracked where
  owners p r pos h := by cases h
  handling r f h := by cases h
  committed p o h := absurd h (Nat.not_lt_zero o)
  idle := ⟨0, fun _ _ => rfl⟩

theorem Passed.returned {s : KafkaTopic} {p o : Nat} (h : s.Passed p o) (reader partition offset : Nat)
    (handled : Bool) : (s.returned reader partition offset handled).Passed p o := by
  unfold KafkaTopic.returned
  split
  · exact h.imp (List.mem_cons_of_mem _) id
  · exact h.imp id (List.mem_cons_of_mem _)

theorem passed_returned (s : KafkaTopic) (reader partition offset : Nat) (handled : Bool) :
    (s.returned reader partition offset handled).Passed partition offset := by
  unfold KafkaTopic.returned
  split
  · exact .inl List.mem_cons_self
  · exact .inr List.mem_cons_self

theorem handling_returned (s : KafkaTopic) (reader partition offset r : Nat) (handled : Bool) :
    (s.returned reader partition offset handled).handling r =
      if r = reader then if handled then some ⟨partition, offset, true⟩ else none else s.handling r := by
  cases handled <;> rfl

theorem owner_returned (s : KafkaTopic) (reader partition offset p : Nat) (handled : Bool) :
    (s.returned reader partition offset handled).owner p = s.owner p := by
  cases handled <;> rfl

theorem log_returned (s : KafkaTopic) (reader partition offset p : Nat) (handled : Bool) :
    (s.returned reader partition offset handled).log p = s.log p := by
  cases handled <;> rfl

theorem committed_returned (s : KafkaTopic) (reader partition offset p : Nat) (handled : Bool) :
    (s.returned reader partition offset handled).committed p = s.committed p := by
  cases handled <;> rfl

theorem idle_setHandling {s : KafkaTopic} (h : ∃ n, ∀ r, n ≤ r → s.handling r = none) (reader : Nat)
    (f : Option Fetched) : ∃ n, ∀ r, n ≤ r → (s.setHandling reader f).handling r = none := by
  obtain ⟨n, hn⟩ := h
  refine ⟨max n (reader + 1), fun r hr => ?_⟩
  exact (if_neg (by omega)).trans (hn r (by omega))

theorem Tracked.append {s : KafkaTopic} (hs : s.Tracked) (partition : Nat) (msg : QueueMessage) :
    (s.append partition msg).Tracked := by
  refine ⟨hs.owners, fun r f hf => ?_, hs.committed, hs.idle⟩
  obtain ⟨hlog, hbefore, haccepted⟩ := hs.handling r f hf
  refine ⟨?_, hbefore, haccepted⟩
  change f.offset < (if f.partition = partition then _ else _ : List QueueMessage).length
  split
  · rw [List.length_append]
    omega
  · exact hlog

theorem Tracked.assign {s : KafkaTopic} (hs : s.Tracked) (reader partition : Nat) :
    (s.setOwner partition (reader, s.committed partition)).Tracked := by
  refine ⟨fun p r pos howner o ho => ?_, fun r f hf => (hs.handling r f hf).of_eq rfl rfl rfl, hs.committed, hs.idle⟩
  change (if p = partition then _ else _) = _ at howner
  split at howner
  · next hp =>
    obtain ⟨rfl, rfl⟩ := Prod.mk.inj (Option.some.inj howner)
    exact .inl (hs.committed p o (hp ▸ ho))
  · exact hs.owners p r pos howner o ho

theorem Tracked.fetch {s : KafkaTopic} (hs : s.Tracked) {reader partition offset : Nat}
    (hidle : s.handling reader = none) (howner : s.owner partition = some (reader, offset))
    (hlog : offset < (s.log partition).length) :
    ((s.setOwner partition (reader, offset + 1)).setHandling reader (some ⟨partition, offset, false⟩)).Tracked := by
  have hpassed : ∀ p pos, s.owner p = some (reader, pos) → ∀ o < pos, s.Passed p o := fun p pos hp o ho =>
    (hs.owners p reader pos hp o ho).resolve_right (by simp [hidle])
  refine ⟨fun p r pos hp o ho => ?_, fun r f hf => ?_, hs.committed, idle_setHandling hs.idle _ _⟩
  · change (if p = partition then _ else _) = _ at hp
    split at hp
    · next hpart =>
      obtain ⟨rfl, rfl⟩ := Prod.mk.inj (Option.some.inj hp)
      by_cases hlast : o = offset
      · exact .inr ⟨false, by rw [hpart, hlast]; exact if_pos rfl⟩
      · exact .inl (hpart ▸ hpassed partition offset howner o (by omega))
    · by_cases hr : r = reader
      · subst hr
        exact .inl (hpassed p pos hp o ho)
      · exact (hs.owners p r pos hp o ho).imp_right fun hdone => hdone.imp fun _ h => (if_neg hr).trans h
  · change (if r = reader then _ else _) = _ at hf
    split at hf
    · obtain rfl := Option.some.inj hf
      exact ⟨hlog, fun o ho => hpassed partition offset howner o ho, fun h => by cases h⟩
    · exact (hs.handling r f hf).of_eq rfl rfl rfl

theorem Tracked.returned {s : KafkaTopic} (hs : s.Tracked) {reader partition offset : Nat}
    (hfetched : s.handling reader = some ⟨partition, offset, false⟩) (handled : Bool) :
    (s.returned reader partition offset handled).Tracked := by
  refine ⟨fun p r pos hp o ho => ?_, fun r f hf => ?_, fun p o ho => ?_, ?_⟩
  · rw [owner_returned] at hp
    refine (hs.owners p r pos hp o ho).elim (fun hpassed => .inl (hpassed.returned _ _ _ _)) fun hdone => ?_
    by_cases hr : r = reader
    · obtain ⟨done, hdone⟩ := hdone
      rw [hr, hfetched] at hdone
      obtain ⟨rfl, rfl, -⟩ := Fetched.mk.inj (Option.some.inj hdone)
      exact .inl (passed_returned s reader partition offset handled)
    · exact .inr (hdone.imp fun _ h => by rw [handling_returned, if_neg hr, h])
  · rw [handling_returned] at hf
    split at hf
    · obtain ⟨rfl, hf⟩ := Option.ite_none_right_eq_some.mp hf
      obtain rfl := Option.some.inj hf
      obtain ⟨hlog, hbefore, -⟩ := hs.handling reader _ hfetched
      exact ⟨hlog, fun o ho => (hbefore o ho).returned _ _ _ _, fun _ => List.mem_cons_self⟩
    · obtain ⟨hlog, hbefore, haccepted⟩ := hs.handling r f hf
      refine ⟨by rwa [log_returned], fun o ho => (hbefore o ho).returned _ _ _ _, fun h => ?_⟩
      cases handled with
      | true => exact List.mem_cons_of_mem _ (haccepted h)
      | false => exact haccepted h
  · rw [committed_returned] at ho
    exact (hs.committed p o ho).returned _ _ _ _
  · cases handled <;> exact idle_setHandling hs.idle _ _

theorem Tracked.commit {s : KafkaTopic} (hs : s.Tracked) {reader partition offset : Nat}
    (hfetched : s.handling reader = some ⟨partition, offset, true⟩) :
    ((s.setCommitted partition (offset + 1)).setHandling reader none).Tracked := by
  obtain ⟨-, hbefore, haccepted⟩ := hs.handling reader _ hfetched
  have hlast : s.Passed partition offset := .inl (haccepted rfl)
  refine ⟨fun p r pos hp o ho => ?_, fun r f hf => ?_, fun p o ho => ?_, idle_setHandling hs.idle _ _⟩
  · refine (hs.owners p r pos hp o ho).elim .inl fun hdone => ?_
    by_cases hr : r = reader
    · obtain ⟨done, hdone⟩ := hdone
      rw [hr, hfetched] at hdone
      obtain ⟨rfl, rfl, -⟩ := Fetched.mk.inj (Option.some.inj hdone)
      exact .inl hlast
    · exact .inr (hdone.imp fun _ h => (if_neg hr).trans h)
  · change (if r = reader then _ else _) = _ at hf
    split at hf
    · cases hf
    · exact (hs.handling r f hf).of_eq rfl rfl rfl
  · change o < (if p = partition then _ else _) at ho
    split at ho
    · next hp =>
      subst hp
      by_cases hoffset : o = offset
      · exact hoffset ▸ hlast
      · exact hbefore o (by change o < offset; omega)
    · exact hs.committed p o ho

theorem Tracked.without {s : KafkaTopic} (hs : s.Tracked) (reader : Nat) : (s.without reader).Tracked := by
  refine ⟨fun p r pos hp o ho => ?_, fun r f hf => ?_, hs.committed, idle_setHandling hs.idle _ _⟩
  · obtain ⟨howner, hne⟩ := Option.filter_eq_some_iff.mp hp
    have hr : r ≠ reader := by simpa using hne
    exact (hs.owners p r pos howner o ho).imp_right fun hdone => hdone.imp fun _ h => (if_neg hr).trans h
  · change (if r = reader then _ else _) = _ at hf
    split at hf
    · cases hf
    · exact (hs.handling r f hf).of_eq rfl rfl rfl

theorem tracked_step {s s' : KafkaTopic} {a : KafkaAction} (hs : s.Tracked) (h : s.step balance a = some s') :
    s'.Tracked := by
  cases step_cases h with
  | publish msg => exact hs.append _ msg
  | assign reader partition => exact hs.assign reader partition
  | fetch hidle howner hlog => exact hs.fetch hidle howner hlog
  | handle handled hfetched => exact hs.returned hfetched handled
  | commit hfetched => exact hs.commit hfetched
  | uncommitted reader => exact hs.without reader
  | leave reader => exact hs.without reader

/-! ## What a new reader is handed -/

/-- One turn of the loop in `Subscribe`. -/
def turn (reader partition : Nat) (handled : Bool) : List KafkaAction :=
  [.fetch reader partition, .handle reader handled] ++ if handled then [.commit reader true] else []

/-- A reader gets the partition, and fetches a message after these turns. -/
def session (reader partition : Nat) (outcomes : List Bool) : List KafkaAction :=
  .assign reader partition :: (outcomes.flatMap (turn reader partition) ++ [.fetch reader partition])

/-- The message is given to a handler again, if the reader gets the partition. -/
def HandedTo (balance : String → Nat) (s : KafkaTopic) (reader partition offset : Nat) : Prop :=
  ∃ n, ∀ outcomes : List Bool, outcomes.length = n →
    ∃ s', run (step balance) s (session reader partition outcomes) = some s' ∧
      s'.handling reader = some ⟨partition, offset, false⟩

theorem step_fetch {s : KafkaTopic} {r p pos : Nat} (hidle : s.handling r = none) (howner : s.owner p = some (r, pos)) :
    s.step balance (.fetch r p) = if pos < (s.log p).length then
      some ((s.setOwner p (r, pos + 1)).setHandling r (some ⟨p, pos, false⟩)) else none := by
  simp [step, hidle, howner]

theorem run_turn {s : KafkaTopic} {r p pos : Nat} (hidle : s.handling r = none) (howner : s.owner p = some (r, pos))
    (hlog : pos < (s.log p).length) (handled : Bool) :
    ∃ s', run (step balance) s (turn r p handled) = some s' ∧ s'.handling r = none ∧
      s'.owner p = some (r, pos + 1) ∧ s'.log p = s.log p := by
  cases handled <;> simp [turn, run, step, hidle, howner, hlog, setHandling, setOwner, setCommitted, returned]

theorem run_turns {s : KafkaTopic} {r p pos : Nat} (hidle : s.handling r = none) (howner : s.owner p = some (r, pos))
    (outcomes : List Bool) (o : Nat) :
    (∃ s', run (step balance) s (outcomes.flatMap (turn r p) ++ [.fetch r p]) = some s' ∧
        s'.handling r = some ⟨p, o, false⟩) ↔ o = pos + outcomes.length ∧ o < (s.log p).length := by
  induction outcomes generalizing s pos with
  | nil =>
    rw [List.flatMap_nil, List.nil_append, List.length_nil, Nat.add_zero]
    by_cases hlog : pos < (s.log p).length
    · simp [run, step_fetch hidle howner, hlog, setHandling]
      omega
    · simp [run, step_fetch hidle howner, hlog]
      omega
  | cons handled outcomes ih =>
    rw [List.flatMap_cons, List.append_assoc, List.length_cons]
    by_cases hlog : pos < (s.log p).length
    · obtain ⟨mid, hmid, hidle', howner', hlog'⟩ := run_turn hidle howner hlog handled
      have hrest := ih hidle' howner'
      rw [hlog'] at hrest
      rw [show pos + (outcomes.length + 1) = pos + 1 + outcomes.length by omega, ← hrest]
      refine exists_congr fun s' => and_congr_left fun _ => ?_
      rw [run_append]
      exact ⟨fun h => by obtain ⟨_, hsome, h⟩ := h; cases hmid.symm.trans hsome; exact h, fun h => ⟨mid, hmid, h⟩⟩
    · refine iff_of_false (fun h => ?_) (by omega)
      obtain ⟨s', hrun, -⟩ := h
      simp [turn, run, step_fetch hidle howner, hlog] at hrun

/-- A new reader is handed what is from the committed offset on. -/
theorem handedTo_iff {s : KafkaTopic} {r : Nat} (hidle : s.handling r = none) (p o : Nat) :
    s.HandedTo balance r p o ↔ s.committed p ≤ o ∧ o < (s.log p).length := by
  have hsession : ∀ outcomes, (∃ s', run (step balance) s (session r p outcomes) = some s' ∧
      s'.handling r = some ⟨p, o, false⟩) ↔ o = s.committed p + outcomes.length ∧ o < (s.log p).length :=
    fun outcomes => run_turns (s := s.setOwner p (r, s.committed p)) hidle (if_pos rfl) outcomes o
  constructor
  · intro h
    obtain ⟨n, hn⟩ := h
    have hlast := (hsession (List.replicate n false)).mp (hn _ List.length_replicate)
    omega
  · intro h
    refine ⟨o - s.committed p, fun outcomes hlength => (hsession outcomes).mpr ⟨by omega, h.2⟩⟩

/-! ## When no message is left out -/

/-- No offset is committed before the handlers have succeeded for what was refused below it. -/
def CommitsInOrder (s : KafkaTopic) : KafkaAction → Prop
  | .commit reader true => ∀ p offset, s.handling reader = some ⟨p, offset, true⟩ →
      ∀ o < offset, (p, o) ∈ s.refused → (p, o) ∈ s.accepted
  | _ => True

/-- Each message that no handler has accepted will be handed to one. -/
def Redelivers (balance : String → Nat) (s : KafkaTopic) : Prop :=
  ∀ p o, o < (s.log p).length → (p, o) ∉ s.accepted → ∀ r, s.handling r = none → s.HandedTo balance r p o

/-- What has been committed has been accepted. -/
def Complete (s : KafkaTopic) : Prop := ∀ p o, o < s.committed p → (p, o) ∈ s.accepted

theorem Complete.redelivers {s : KafkaTopic} (hs : s.Complete) : s.Redelivers balance := by
  intro p o hlog haccepted r hidle
  refine (handedTo_iff hidle p o).mpr ⟨?_, hlog⟩
  exact Nat.le_of_not_lt fun ho => haccepted (hs p o ho)

theorem complete_step {s s' : KafkaTopic} {a : KafkaAction} (ht : s.Tracked) (hs : s.Complete)
    (ha : s.CommitsInOrder a) (h : s.step balance a = some s') : s'.Complete := by
  cases step_cases h with
  | handle handled hfetched =>
    intro p o ho
    rw [committed_returned] at ho
    cases handled with
    | true => exact List.mem_cons_of_mem _ (hs p o ho)
    | false => exact hs p o ho
  | commit hfetched =>
    rename_i reader partition offset
    intro p o ho
    change o < (if p = partition then _ else _) at ho
    split at ho
    · next hp =>
      subst hp
      obtain ⟨-, hbefore, haccepted⟩ := ht.handling reader _ hfetched
      by_cases hlast : o = offset
      · exact hlast ▸ haccepted rfl
      · have ho' : o < offset := by omega
        exact (hbefore o ho').elim id (ha p offset hfetched o ho')
    · exact hs p o ho
  | _ => exact hs

theorem inOrder_of_redelivers {s s' : KafkaTopic} {a : KafkaAction} (ht : s.Tracked)
    (h : s.step balance a = some s') (hs' : s'.Redelivers balance) : s.CommitsInOrder a := by
  have htracked := tracked_step ht h
  cases step_cases h with
  | commit hfetched =>
    rename_i reader partition offset
    intro p offset' hf o ho hrefused
    obtain ⟨rfl, rfl, -⟩ := Fetched.mk.inj (Option.some.inj (hf.symm.trans hfetched))
    by_contra haccepted
    obtain ⟨n, hn⟩ := htracked.idle
    have hlog : o < (s.log p).length := Nat.lt_trans ho (ht.handling reader _ hfetched).published
    have hhanded := hs' p o hlog haccepted n (hn n (Nat.le_refl n))
    have hle := ((handedTo_iff (hn n (Nat.le_refl n)) p o).mp hhanded).1
    change (if p = p then _ else _) ≤ o at hle
    rw [if_pos rfl] at hle
    omega
  | _ => trivial

/-- In every state of a run each message is accepted, or will be handed to a new reader, exactly if no commit of the run
passes over a message that was refused and not accepted since. -/
theorem redelivered_iff_commits_in_order (balance : String → Nat) (acts : List KafkaAction) :
    (∀ before after s, acts = before ++ after → run (step balance) initial before = some s → s.Redelivers balance) ↔
      Guarded (step balance) CommitsInOrder initial acts := by
  refine forall_holds_iff_guarded_of_none (I := fun s => s.Tracked ∧ s.Complete) (fun s a _ hnone => ?_)
    (fun s hs => hs.2.redelivers)
    (fun s a s' hs ha hstep => ⟨tracked_step hs.1 hstep, complete_step hs.1 hs.2 ha hstep⟩)
    (fun s a s' hs hstep hs' => inOrder_of_redelivers hs.1 hstep hs')
    ⟨tracked_initial, fun p o ho => absurd ho (Nat.not_lt_zero o)⟩ acts
  cases a with
  | commit reader done =>
    cases done with
    | true =>
      intro p offset hfetched
      simp [step, hfetched] at hnone
    | false => trivial
  | _ => trivial

/-- Whatever is committed, a message that no handler has refused is accepted, or will be handed to a new reader. -/
theorem redelivered_of_not_refused {balance : String → Nat} {acts : List KafkaAction} {s : KafkaTopic}
    (h : run (step balance) initial acts = some s) {p o : Nat} (hlog : o < (s.log p).length)
    (hrefused : (p, o) ∉ s.refused) (haccepted : (p, o) ∉ s.accepted) {r : Nat} (hidle : s.handling r = none) :
    s.HandedTo balance r p o := by
  have htracked : s.Tracked := run_invariant (P := fun _ _ => True)
    (fun _ _ _ ht _ hstep => tracked_step ht hstep) tracked_initial (guarded_true _ _) h
  refine (handedTo_iff hidle p o).mpr ⟨Nat.le_of_not_lt fun ho => ?_, hlog⟩
  exact (htracked.committed p o ho).elim haccepted hrefused

/-- A message fetched by a reader that leaves. -/
def fetchedOnce : List KafkaAction :=
  [.publish ⟨"memory.events.ingest", "e1", []⟩, .assign 0 0, .fetch 0 0, .leave 0]

theorem redelivered_of_not_refused_fetchedOnce :
    ∃ s, run (step fun _ => 0) initial fetchedOnce = some s ∧ s.HandedTo (fun _ => 0) 1 0 0 :=
  ⟨_, rfl, redelivered_of_not_refused (show run (step fun _ => 0) initial fetchedOnce = some _ from rfl)
    (by decide) (by decide) (by decide) rfl⟩

end Steps

end KafkaTopic

end AgentMemory
