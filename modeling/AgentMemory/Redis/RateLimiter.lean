import AgentMemory.Redis.Client
import Mathlib.Data.Finset.Card
import Mathlib.Data.Finset.Prod
import Mathlib.Order.Interval.Finset.Nat

/-!
# The rate limiter of several servers

`RateLimiter` of `internal/adapters/storage/redis/rate_limit.go`: the API servers count the requests of a key and second
in one Redis. A command of `Do` that fails is tried once more on a new connection, and may be executed all the same;
what fails a second time may leave its answer unread on a connection that stays in use. `admitted_bounded` says how many
requests are let through as long as this does not happen, and `admitted_unbounded` that one such answer can open the
limiter for all requests that follow.
-/

namespace AgentMemory.Redis

open Runs

/-- `RateLimiter` (`rate_limit.go:13-17`). -/
structure RateLimiter where
  rps : Int
  burst : Int

/-- `NewRateLimiter` (`rate_limit.go:19-24`). -/
def newRateLimiter (rps burst : Int) : RateLimiter := ⟨rps, if burst ≤ 0 then rps else burst⟩

/-- The name under which the requests of a key and second are counted (`rate_limit.go:27-28`). -/
def bucketName (key : List Char) (window : Int) : List Char :=
  "ratelimit:".toList ++ key ++ ':' :: (toString window).toList

/-! ## The server -/

/-- A counter, and when it expires, in milliseconds. -/
structure Counter where
  count : Nat
  deadline : Option Int
  deriving DecidableEq

/-- A name on the server and its counter. How many there have been so far, and since when, is not stored there. -/
structure Bucket where
  counter : Option Counter
  lives : Nat
  since : Int

/-- The integer that is answered. Which of the counters of its name it is from is not in the answer. -/
@[ext]
structure Answer where
  number : Nat
  life : Nat
  deriving DecidableEq, Inhabited

namespace Bucket

/-- `INCR`. -/
def incr (b : Bucket) (now : Int) : Answer × Bucket :=
  match b.counter with
  | some c => (⟨c.count + 1, b.lives⟩, { b with counter := some { c with count := c.count + 1 } })
  | none => (⟨1, b.lives + 1⟩, ⟨some ⟨1, none⟩, b.lives + 1, if b.lives = 0 then now else b.since⟩)

/-- `PEXPIRE` with 1000 milliseconds. -/
def pexpire (b : Bucket) (now : Int) : Answer × Bucket :=
  match b.counter with
  | some c => (⟨1, b.lives⟩, { b with counter := some { c with deadline := some (now + 1000) } })
  | none => (⟨0, b.lives⟩, b)

/-- What is left when it is this late. -/
def expire (b : Bucket) (now : Int) : Bucket :=
  { b with counter := b.counter.filter fun c => c.deadline.all fun deadline => now ≤ deadline }

end Bucket

/-- The commands of `Allow`. -/
inductive Command where
  | incr (name : List Char)
  | pexpire (name : List Char)

def Command.name : Command → List Char
  | incr name | pexpire name => name

def Command.run : Command → Bucket → Int → Answer × Bucket
  | incr _ => Bucket.incr
  | pexpire _ => Bucket.pexpire

/-! ## The calls -/

/-- How far a call of `Allow` is (`rate_limit.go:26-39`). -/
inductive AllowPhase where
  | idle
  /-- It counts, for the second time if the first has failed. -/
  | counting (server : Nat) (name : List Char) (again : Bool)
  /-- It was the first, and sets the deadline. -/
  | expiring (server : Nat) (name : List Char) (answer : Answer) (again : Bool)
  /-- It has returned, with an error where it has no answer. -/
  | returned (name : List Char) (answer : Option Answer)
  deriving DecidableEq

namespace AllowPhase

/-- What it waits for, and over whose client. -/
def command : AllowPhase → Option (Nat × Command)
  | counting server name _ => some (server, .incr name)
  | expiring server name _ _ => some (server, .pexpire name)
  | idle | returned _ _ => none

def again : AllowPhase → Bool
  | counting _ _ again | expiring _ _ _ again => again
  | idle | returned _ _ => false

/-- It reads an answer. -/
def heard (answer : Answer) : AllowPhase → AllowPhase
  | counting server name _ => if answer.number = 1 then expiring server name answer false else returned name answer
  | expiring _ name counted _ => returned name counted
  | phase => phase

/-- It tries again, and gives up the second time. -/
def failed : AllowPhase → AllowPhase
  | counting server name false => counting server name true
  | expiring server name answer false => expiring server name answer true
  | counting _ name true | expiring _ name _ true => returned name none
  | phase => phase

/-- What it was answered for itself, and under which name it counts. -/
def ticket : AllowPhase → Option (List Char × Answer)
  | expiring _ name answer _ | returned name (some answer) => some (name, answer)
  | _ => none

end AllowPhase

/-- Whether the answer lets the request through (`rate_limit.go:39`). -/
def RateLimiter.Admits (l : RateLimiter) (phase : AllowPhase) (name : List Char) : Prop :=
  ∃ answer, phase = .returned name (some answer) ∧ (answer.number : Int) ≤ l.rps + l.burst

/-- Redis, the clients of the API servers and the calls of `Allow`. -/
structure Limiting where
  now : Int
  buckets : List Char → Bucket
  /-- Commands that failed for the client and that may be executed all the same. -/
  late : List Command
  /-- The answers that nobody has read on the connection of a server. -/
  unread : Nat → List Answer
  calls : Nat → AllowPhase

/-- What can happen next. A server's calls wait for one another, which is not asked for here. -/
inductive LimitAction where
  /-- A request arrives at a server whose clock shows this second. -/
  | start (call server : Nat) (key : List Char) (window : Int)
  /-- The command is executed, and the next answer on the connection is read. -/
  | hear (call : Nat)
  /-- The command fails, and with it the connection. -/
  | fail (call : Nat)
  /-- The command is executed and fails for the second time: the connection stays, with the answer on it. -/
  | keep (call : Nat)
  /-- A command that has failed is executed. -/
  | deliver (index : Nat)
  | tick (now : Int)
  deriving DecidableEq

namespace Limiting

def initial : Limiting := ⟨0, fun _ => ⟨none, 0, 0⟩, [], fun _ => [], fun _ => .idle⟩

/-- The server executes a command. -/
def execute (s : Limiting) (c : Command) : Limiting :=
  { s with buckets := fun name => if name = c.name then (c.run (s.buckets c.name) s.now).2 else s.buckets name }

/-- What it answers. -/
def answer (s : Limiting) (c : Command) : Answer := (c.run (s.buckets c.name) s.now).1

def setCall (s : Limiting) (call : Nat) (phase : AllowPhase) : Limiting :=
  { s with calls := fun i => if i = call then phase else s.calls i }

def setUnread (s : Limiting) (server : Nat) (answers : List Answer) : Limiting :=
  { s with unread := fun i => if i = server then answers else s.unread i }

def step (s : Limiting) : LimitAction → Option Limiting
  | .start call server key window =>
    if s.calls call = .idle then some (s.setCall call (.counting server (bucketName key window) false)) else none
  | .hear call => (s.calls call).command.map fun (server, c) =>
    ((s.execute c).setUnread server (s.unread server ++ [s.answer c]).tail).setCall call
      ((s.calls call).heard ((s.unread server).headD (s.answer c)))
  | .fail call => (s.calls call).command.map fun (server, c) =>
    ({ s with late := s.late ++ [c] }.setUnread server []).setCall call (s.calls call).failed
  | .keep call =>
    if (s.calls call).again then (s.calls call).command.map fun (server, c) =>
      ((s.execute c).setUnread server (s.unread server ++ [s.answer c])).setCall call (s.calls call).failed
    else none
  | .deliver index => s.late[index]?.map fun c => { s.execute c with late := s.late.eraseIdx index }
  | .tick now =>
    if s.now ≤ now then some { s with now := now, buckets := fun name => (s.buckets name).expire now } else none

end Limiting

/-! ## What the clients do -/

/-- The answer as a reply. -/
def Answer.reply (a : Answer) : Reply := .integer a.number

/-- The connection on which these answers wait. -/
def connOf (answers : List Answer) : Conn := ⟨answers.flatMap fun a => a.reply.encode⟩

theorem readReply_connOf {first : Answer} {rest : List Answer} (hfirst : first.number < 2 ^ 63) :
    readReply (connOf (first :: rest)).pending.length (connOf (first :: rest)).pending =
      (.ok (.number first.number), (connOf rest).pending) := by
  have hwell : first.reply.WellFormed := by
    simp only [Answer.reply, Reply.WellFormed]
    omega
  have hpending : (connOf (first :: rest)).pending = first.reply.encode ++ (connOf rest).pending := by simp [connOf]
  rw [hpending]
  exact readReply_encode first.reply _ _ hwell (by simp)

/-- `hear`: the answer that waits longest is read, and that of the command waits behind the others. -/
theorem call_hears {c : Client} {d : DoCall} {answers : List Answer} {own : Answer} {reply : ServerReply}
    (hconn : c.conn = some (connOf answers)) (hreply : reply.val = own.reply)
    (hwrite : d.first.command.write = .written reply)
    (harrived : (connOf (answers ++ [own])).pending.length ≤ d.first.command.arrived)
    (hfits : (answers.headD own).number < 2 ^ 63) :
    c.call d = (.ok (.number (answers.headD own).number),
      { c with conn := some (connOf (answers ++ [own]).tail) }) := by
  have hpending : (connOf answers).pending ++ own.reply.encode = (connOf (answers ++ [own])).pending := by
    simp [connOf]
  have hsplit : answers ++ [own] = answers.headD own :: (answers ++ [own]).tail := by cases answers <;> rfl
  have hread : readReply (connOf (answers ++ [own])).pending.length (connOf (answers ++ [own])).pending =
      (.ok (.number (answers.headD own).number), (connOf (answers ++ [own]).tail).pending) := by
    rw [hsplit]
    exact readReply_connOf hfits
  have hrun : d.first.command.run (connOf answers) =
      (.ok (.number (answers.headD own).number), connOf (answers ++ [own]).tail) := by
    simp only [Exchange.run, hwrite, hreply, hpending, List.take_of_length_le harrived,
      List.drop_of_length_le harrived, hread, List.append_nil]
  simp only [Client.call, Client.doLocked, Client.connectLocked, hconn, hrun]

/-- `keep`: the second attempt ends before the answer arrives, and its connection stays. -/
theorem call_keeps {c : Client} {d : DoCall} {own : Answer} {reply : ServerReply}
    (hfirst : (c.doLocked d.first).1 = .fail) (hdial : d.second.dial = true) (hpassword : c.password = [])
    (hreply : reply.val = own.reply) (hwrite : d.second.command.write = .written reply)
    (harrived : d.second.command.arrived = 0) :
    c.call d = (.fail, { c with conn := some (connOf [own]) }) := by
  have hsame := Client.password_doLocked c d.first
  cases hlocked : c.doLocked d.first with
  | mk result c' =>
    rw [hlocked] at hfirst hsame
    obtain rfl : result = .fail := hfirst
    have hnil : c'.password = [] := hsame.trans hpassword
    rw [Client.call, hlocked]
    simp [Client.doLocked, Client.connectLocked, Client.closeLocked, Exchange.run, hdial, hnil, hpassword, hwrite,
      hreply, harrived, readReply, connOf]

/-! ## One counter -/

namespace Bucket

/-- A counter lives for a second at least. -/
structure Lasting (b : Bucket) (now : Int) : Prop where
  fresh : b.lives = 0 → b.counter = none
  absent : b.counter = none → 0 < b.lives → b.since + 1000 * b.lives ≤ now
  present : 0 < b.lives → b.since + 1000 * (b.lives - 1) ≤ now
  deadline : ∀ c, b.counter = some c → ∀ t, c.deadline = some t → b.since + 1000 * b.lives ≤ t

/-- An answer of one of its counters. -/
structure Gave (b : Bucket) (a : Answer) : Prop where
  number_pos : 1 ≤ a.number
  life_pos : 1 ≤ a.life
  life_le : a.life ≤ b.lives
  number_le : a.life = b.lives → ∀ c, b.counter = some c → a.number ≤ c.count

variable {b : Bucket} {a : Answer} {now : Int}

theorem lasting_initial (now : Int) : Lasting ⟨none, 0, 0⟩ now :=
  ⟨fun _ => rfl, fun _ h => absurd h (Nat.lt_irrefl 0), fun h => absurd h (Nat.lt_irrefl 0), fun _ h => by cases h⟩

theorem Lasting.lives_pos (h : b.Lasting now) {c : Counter} (hcounter : b.counter = some c) : 0 < b.lives := by
  refine Nat.pos_of_ne_zero fun hzero => ?_
  rw [h.fresh hzero] at hcounter
  cases hcounter

theorem Lasting.incr (h : b.Lasting now) : (b.incr now).2.Lasting now := by
  unfold Bucket.incr
  cases hcounter : b.counter with
  | some c =>
    have hlives := h.lives_pos hcounter
    refine ⟨fun hzero => absurd hzero hlives.ne', fun habsent => ?_, h.present, fun c' hc' t ht => ?_⟩
    · cases habsent
    · cases hc'
      exact h.deadline c hcounter t ht
  | none =>
    refine ⟨fun hzero => ?_, fun habsent => ?_, fun _ => ?_, fun c hc t ht => ?_⟩
    · cases hzero
    · cases habsent
    · have habsent := h.absent hcounter
      dsimp only
      split <;> push_cast <;> omega
    · cases hc
      cases ht

theorem Lasting.pexpire (h : b.Lasting now) : (b.pexpire now).2.Lasting now := by
  unfold Bucket.pexpire
  cases hcounter : b.counter with
  | some c =>
    have hlives := h.lives_pos hcounter
    refine ⟨fun hzero => absurd hzero hlives.ne', fun habsent => ?_, h.present, fun c' hc' t ht => ?_⟩
    · cases habsent
    · cases hc'
      cases ht
      have hpresent := h.present hlives
      dsimp only
      omega
  | none => exact h

theorem Lasting.expire (h : b.Lasting now) {later : Int} (hlater : now ≤ later) : (b.expire later).Lasting later := by
  have hle : b.counter = none → 0 < b.lives → b.since + 1000 * b.lives ≤ later := by
    intro hnone hlives
    exact (h.absent hnone hlives).trans hlater
  refine ⟨fun hzero => ?_, fun habsent hlives => ?_, fun hlives => (h.present hlives).trans hlater, fun c hc => ?_⟩
  · simp [Bucket.expire, h.fresh hzero]
  · cases hcounter : b.counter with
    | none => exact hle hcounter hlives
    | some c =>
      -- The counter has gone, so it had a deadline, which has passed.
      rw [Bucket.expire, hcounter] at habsent
      cases hdeadline : c.deadline with
      | none => simp [Option.filter, hdeadline] at habsent
      | some t =>
        have ht : t < later := by simpa [Option.filter, hdeadline] using habsent
        exact (h.deadline c hcounter t hdeadline).trans ht.le
  · exact h.deadline c (Option.eq_some_of_filter_eq_some hc)

theorem Lasting.run (h : b.Lasting now) (c : Command) : (c.run b now).2.Lasting now := by
  cases c with
  | incr name => exact h.incr
  | pexpire name => exact h.pexpire

theorem Gave.incr (h : b.Gave a) (now : Int) : (b.incr now).2.Gave a := by
  unfold Bucket.incr
  cases hcounter : b.counter with
  | some c =>
    refine ⟨h.number_pos, h.life_pos, h.life_le, fun hlife c' hc' => ?_⟩
    cases hc'
    exact (h.number_le hlife c hcounter).trans (Nat.le_succ _)
  | none =>
    refine ⟨h.number_pos, h.life_pos, h.life_le.trans (Nat.le_succ _), fun hlife => ?_⟩
    exact absurd (h.life_le.trans_lt (Nat.lt_succ_self _)) hlife.not_lt

theorem Gave.pexpire (h : b.Gave a) (now : Int) : (b.pexpire now).2.Gave a := by
  unfold Bucket.pexpire
  cases hcounter : b.counter with
  | some c =>
    refine ⟨h.number_pos, h.life_pos, h.life_le, fun hlife c' hc' => ?_⟩
    cases hc'
    exact h.number_le hlife c hcounter
  | none => exact h

theorem Gave.run (h : b.Gave a) (c : Command) (now : Int) : (c.run b now).2.Gave a := by
  cases c with
  | incr name => exact h.incr now
  | pexpire name => exact h.pexpire now

theorem Gave.expire (h : b.Gave a) (now : Int) : (b.expire now).Gave a :=
  ⟨h.number_pos, h.life_pos, h.life_le, fun hlife c hc => h.number_le hlife c (Option.eq_some_of_filter_eq_some hc)⟩

/-- Counting gives a new answer. -/
theorem gave_incr (h : b.Lasting now) : (b.incr now).2.Gave (b.incr now).1 ∧ ¬ b.Gave (b.incr now).1 := by
  unfold Bucket.incr
  cases hcounter : b.counter with
  | some c =>
    refine ⟨⟨Nat.succ_le_succ (Nat.zero_le _), h.lives_pos hcounter, le_rfl, fun _ c' hc' => ?_⟩, fun hgave => ?_⟩
    · cases hc'
      exact le_rfl
    · exact absurd (hgave.number_le rfl c hcounter) (Nat.not_succ_le_self _)
  | none =>
    refine ⟨⟨le_rfl, Nat.succ_le_succ (Nat.zero_le _), le_rfl, fun _ c' hc' => ?_⟩, fun hgave => ?_⟩
    · cases hc'
      exact le_rfl
    · exact absurd hgave.life_le (Nat.not_succ_le_self _)

end Bucket

/-! ## All of them -/

namespace Limiting

variable {s : Limiting}

/-- No answer waits, and what the calls were answered is theirs alone. -/
structure Sound (s : Limiting) : Prop where
  unread : ∀ server, s.unread server = []
  lasting : ∀ name, (s.buckets name).Lasting s.now
  gave : ∀ call name a, (s.calls call).ticket = some (name, a) → (s.buckets name).Gave a
  own : ∀ call call' t, (s.calls call).ticket = some t → (s.calls call').ticket = some t → call = call'

@[simp] theorem calls_setCall_self (s : Limiting) (call : Nat) (phase : AllowPhase) :
    (s.setCall call phase).calls call = phase := if_pos rfl

theorem calls_setCall_of_ne (s : Limiting) {call i : Nat} (phase : AllowPhase) (h : i ≠ call) :
    (s.setCall call phase).calls i = s.calls i := if_neg h

@[simp] theorem unread_setUnread_self (s : Limiting) (server : Nat) (answers : List Answer) :
    (s.setUnread server answers).unread server = answers := if_pos rfl

theorem buckets_execute_self (s : Limiting) (c : Command) :
    (s.execute c).buckets c.name = (c.run (s.buckets c.name) s.now).2 := if_pos rfl

theorem sound_initial : initial.Sound where
  unread _ := rfl
  lasting _ := Bucket.lasting_initial 0
  gave _ _ _ h := by cases h
  own _ _ _ h := by cases h

theorem Sound.execute (h : s.Sound) (c : Command) : (s.execute c).Sound where
  unread := h.unread
  lasting name := by
    by_cases hname : name = c.name
    · subst hname
      rw [buckets_execute_self]
      exact (h.lasting c.name).run c
    · simpa [Limiting.execute, hname] using h.lasting name
  gave call name a ha := by
    have hgave := h.gave call name a ha
    by_cases hname : name = c.name
    · subst hname
      rw [buckets_execute_self]
      exact hgave.run c s.now
    · simpa [Limiting.execute, hname] using hgave
  own := h.own

theorem Sound.setUnread_nil (h : s.Sound) (server : Nat) : (s.setUnread server []).Sound where
  unread i := by
    unfold setUnread
    dsimp only
    split
    · rfl
    · exact h.unread i
  lasting := h.lasting
  gave := h.gave
  own := h.own

/-- A call that keeps its answer, or gives it up. -/
theorem Sound.setCall (h : s.Sound) {call : Nat} {phase : AllowPhase}
    (hticket : ∀ t, phase.ticket = some t → (s.calls call).ticket = some t) : (s.setCall call phase).Sound := by
  have hold : ∀ i t, ((s.setCall call phase).calls i).ticket = some t → (s.calls i).ticket = some t := by
    intro i t ht
    by_cases hi : i = call
    · subst hi
      rw [calls_setCall_self] at ht
      exact hticket t ht
    · rwa [calls_setCall_of_ne s phase hi] at ht
  exact ⟨h.unread, h.lasting, fun i name a ha => h.gave i name a (hold i _ ha),
    fun i i' t ht ht' => h.own i i' t (hold i t ht) (hold i' t ht')⟩

/-- A call that is given an answer which no other has. -/
theorem Sound.setCall_answered (h : s.Sound) {call : Nat} {phase : AllowPhase} {name : List Char} {a : Answer}
    (hphase : phase.ticket = some (name, a)) (hgave : (s.buckets name).Gave a)
    (hnew : ∀ i, (s.calls i).ticket ≠ some (name, a)) : (s.setCall call phase).Sound := by
  have hticket : ∀ i t, ((s.setCall call phase).calls i).ticket = some t →
      (i = call ∧ t = (name, a)) ∨ (i ≠ call ∧ (s.calls i).ticket = some t) := by
    intro i t ht
    by_cases hi : i = call
    · subst hi
      rw [calls_setCall_self, hphase] at ht
      exact Or.inl ⟨rfl, (Option.some.inj ht).symm⟩
    · rw [calls_setCall_of_ne s phase hi] at ht
      exact Or.inr ⟨hi, ht⟩
  refine ⟨h.unread, h.lasting, fun i name' a' ha => ?_, fun i i' t ht ht' => ?_⟩
  · obtain ⟨-, heq⟩ | ⟨-, hold⟩ := hticket i _ ha
    · cases heq
      exact hgave
    · exact h.gave i name' a' hold
  · obtain ⟨hi, heq⟩ | ⟨-, hold⟩ := hticket i t ht
    · obtain ⟨hi', -⟩ | ⟨-, hold'⟩ := hticket i' t ht'
      · exact hi.trans hi'.symm
      · exact absurd (heq ▸ hold') (hnew i')
    · obtain ⟨-, heq⟩ | ⟨-, hold'⟩ := hticket i' t ht'
      · exact absurd (heq ▸ hold) (hnew i)
      · exact h.own i i' t hold hold'

theorem ticket_of_failed (phase : AllowPhase) (t : List Char × Answer) (h : phase.failed.ticket = some t) :
    phase.ticket = some t := by
  cases phase with
  | idle => cases h
  | counting server name again => cases again <;> cases h
  | expiring server name answer again =>
    cases again with
    | false => exact h
    | true => cases h
  | returned name answer => exact h

theorem ticket_heard_counting (server : Nat) (name : List Char) (again : Bool) (a : Answer) :
    ((AllowPhase.counting server name again).heard a).ticket = some (name, a) := by
  by_cases h : a.number = 1 <;> simp [AllowPhase.heard, AllowPhase.ticket, h]

theorem sound_hear (h : s.Sound) {call : Nat} {s' : Limiting} (hstep : s.step (.hear call) = some s') : s'.Sound := by
  cases hphase : s.calls call with
  | idle => simp [step, hphase, AllowPhase.command] at hstep
  | returned name answer => simp [step, hphase, AllowPhase.command] at hstep
  | counting server name again =>
    simp only [step, hphase, AllowPhase.command, Option.map_some, h.unread server, List.nil_append, List.headD_nil,
      List.tail_cons, Option.some.injEq] at hstep
    subst hstep
    obtain ⟨hgave, hnew⟩ := Bucket.gave_incr (h.lasting name)
    refine ((h.execute (.incr name)).setUnread_nil server).setCall_answered
      (ticket_heard_counting server name again _) ?_ fun i hi => hnew (h.gave i name _ hi)
    exact (buckets_execute_self s (.incr name)).symm ▸ hgave
  | expiring server name counted again =>
    simp only [step, hphase, AllowPhase.command, Option.map_some, h.unread server, List.nil_append, List.tail_cons,
      Option.some.injEq] at hstep
    subst hstep
    refine ((h.execute (.pexpire name)).setUnread_nil server).setCall fun t ht => ?_
    exact (congrArg AllowPhase.ticket hphase).trans ht

/-- One step in which no answer is left unread. -/
theorem sound_step (s : Limiting) (a : LimitAction) (s' : Limiting) (h : s.Sound) (hkeep : ∀ call, a ≠ .keep call)
    (hstep : s.step a = some s') : s'.Sound := by
  cases a with
  | start call server key window =>
    simp only [step, Option.ite_none_right_eq_some, Option.some.injEq] at hstep
    obtain ⟨-, rfl⟩ := hstep
    exact h.setCall fun t ht => by cases ht
  | hear call => exact sound_hear h hstep
  | fail call =>
    obtain ⟨⟨server, c⟩, -, rfl⟩ := Option.map_eq_some_iff.mp hstep
    have hlate : Sound { s with late := s.late ++ [c] } := ⟨h.unread, h.lasting, h.gave, h.own⟩
    exact (hlate.setUnread_nil server).setCall (ticket_of_failed _)
  | keep call => exact absurd rfl (hkeep call)
  | deliver index =>
    obtain ⟨c, -, rfl⟩ := Option.map_eq_some_iff.mp hstep
    have hexecute := h.execute c
    exact ⟨hexecute.unread, hexecute.lasting, hexecute.gave, hexecute.own⟩
  | tick now =>
    simp only [step, Option.ite_none_right_eq_some, Option.some.injEq] at hstep
    obtain ⟨hnow, rfl⟩ := hstep
    exact ⟨h.unread, fun name => (h.lasting name).expire hnow, fun i name a ha => (h.gave i name a ha).expire now,
      h.own⟩

theorem sound_run {s : Limiting} {acts : List LimitAction} (hkeep : ∀ call, .keep call ∉ acts)
    (hrun : run step initial acts = some s) : s.Sound := by
  refine run_invariant (P := fun _ a => ∀ call, a ≠ .keep call) sound_step sound_initial ?_ hrun
  refine guarded_of_forall fun a ha call heq => ?_
  exact hkeep call (heq ▸ ha)

/-- Calls with different answers of a bucket are no more than there are answers up to the limit. -/
theorem length_le_of_admitted (h : s.Sound) (l : RateLimiter) (name : List Char) {calls : List Nat}
    (hnodup : calls.Nodup) (hadmitted : ∀ call ∈ calls, l.Admits (s.calls call) name) :
    calls.length ≤ (l.rps + l.burst).toNat * (s.buckets name).lives := by
  have hanswer : ∀ call ∈ calls, ∃ a : Answer, (s.calls call).ticket = some (name, a) ∧
      (a.number : Int) ≤ l.rps + l.burst := by
    intro call hcall
    obtain ⟨a, hphase, hle⟩ := hadmitted call hcall
    exact ⟨a, congrArg AllowPhase.ticket hphase, hle⟩
  choose! answerOf hticket hle using hanswer
  have hmaps : ∀ call ∈ calls.toFinset, ((answerOf call).number, (answerOf call).life) ∈
      Finset.Icc 1 (l.rps + l.burst).toNat ×ˢ Finset.Icc 1 (s.buckets name).lives := by
    intro call hcall
    rw [List.mem_toFinset] at hcall
    have hgave := h.gave call name _ (hticket call hcall)
    have hlimit := hle call hcall
    rw [Finset.mem_product, Finset.mem_Icc, Finset.mem_Icc]
    exact ⟨⟨hgave.number_pos, by omega⟩, hgave.life_pos, hgave.life_le⟩
  have hinj : Set.InjOn (fun call => ((answerOf call).number, (answerOf call).life)) calls.toFinset := by
    intro call hcall call' hcall' heq
    rw [Finset.mem_coe, List.mem_toFinset] at hcall hcall'
    obtain ⟨hnumber, hlife⟩ := Prod.mk.inj heq
    have hsame : answerOf call = answerOf call' := Answer.ext hnumber hlife
    exact h.own call call' _ (hticket call hcall) (hsame ▸ hticket call' hcall')
  have hcard := Finset.card_le_card_of_injOn _ hmaps hinj
  rwa [List.toFinset_card_of_nodup hnodup, Finset.card_product, Nat.card_Icc, Nat.card_Icc, Nat.add_sub_cancel,
    Nat.add_sub_cancel] at hcard

/-- Two servers count, the second after it has tried in vain. -/
def counted : List LimitAction :=
  [.start 0 0 ['k'] 7, .hear 0, .hear 0, .start 1 1 ['k'] 7, .fail 1, .hear 1]

/-- A request with the second in which it arrives. -/
structure Arrival where
  call : Nat
  key : List Char
  window : Int

/-- A server handles a request, and Redis answers its commands at once. -/
def served (server : Nat) (q : Arrival) : List LimitAction :=
  [.start q.call server q.key q.window, .hear q.call, .hear q.call]

/-- The answers of the connection lag one behind, and the next to be read is a one. -/
def Lagging (s : Limiting) (server : Nat) : Prop := ∃ a, s.unread server = [a] ∧ a.number = 1

theorem number_pexpire_incr (b : Bucket) (now now' : Int) : ((b.incr now).2.pexpire now').1.number = 1 := by
  unfold Bucket.incr
  cases b.counter <;> rfl

/-- The call counts, reads the one, sets the deadline, and leaves the one that this is answered. -/
theorem run_served {s : Limiting} {server : Nat} {q : Arrival} (hlag : s.Lagging server)
    (hidle : s.calls q.call = .idle) :
    ∃ s', run step s (served server q) = some s' ∧ s'.Lagging server ∧
      (∃ a : Answer, s'.calls q.call = .returned (bucketName q.key q.window) (some a) ∧ a.number = 1) ∧
      ∀ i ≠ q.call, s'.calls i = s.calls i := by
  obtain ⟨a, hunread, hone⟩ := hlag
  let name := bucketName q.key q.window
  let s₁ := s.setCall q.call (.counting server name false)
  let s₂ := ((s₁.execute (.incr name)).setUnread server [s₁.answer (.incr name)]).setCall q.call
    (.expiring server name a false)
  let s₃ := ((s₂.execute (.pexpire name)).setUnread server [s₂.answer (.pexpire name)]).setCall q.call
    (.returned name (some a))
  have hstart : s.step (.start q.call server q.key q.window) = some s₁ := if_pos hidle
  have hcount : s₁.step (.hear q.call) = some s₂ := by
    have hunread₁ : s₁.unread server = [a] := hunread
    simp [step, s₁, s₂, AllowPhase.command, AllowPhase.heard, hunread₁, hone]
  have hexpire : s₂.step (.hear q.call) = some s₃ := by
    have hunread₂ : s₂.unread server = [s₁.answer (.incr name)] := unread_setUnread_self _ _ _
    simp [step, s₃, s₂, AllowPhase.command, AllowPhase.heard, setCall, setUnread]
  have hnumber : (s₂.answer (.pexpire name)).number = 1 := by
    have hbucket : s₂.buckets name = ((s₁.buckets name).incr s₁.now).2 := buckets_execute_self s₁ (.incr name)
    rw [answer, Command.run, Command.name, hbucket]
    exact number_pexpire_incr _ _ _
  refine ⟨s₃, run_cons.mpr ⟨s₁, hstart, run_cons.mpr ⟨s₂, hcount, run_cons.mpr ⟨s₃, hexpire, rfl⟩⟩⟩, ?_, ?_, ?_⟩
  · exact ⟨_, unread_setUnread_self _ _ _, hnumber⟩
  · exact ⟨a, calls_setCall_self _ _ _, hone⟩
  · intro i hi
    exact (calls_setCall_of_ne _ _ hi).trans ((calls_setCall_of_ne _ _ hi).trans (calls_setCall_of_ne _ _ hi))

/-- One request after the other. -/
theorem run_served_all {server : Nat} (requests : List Arrival) {s : Limiting} (hlag : s.Lagging server)
    (hnodup : (requests.map Arrival.call).Nodup) (hidle : ∀ q ∈ requests, s.calls q.call = .idle) :
    ∃ s', run step s (requests.flatMap (served server)) = some s' ∧ s'.Lagging server ∧
      (∀ q ∈ requests, ∃ a : Answer, s'.calls q.call = .returned (bucketName q.key q.window) (some a) ∧
        a.number = 1) ∧
      ∀ i ∉ requests.map Arrival.call, s'.calls i = s.calls i := by
  induction requests generalizing s with
  | nil => exact ⟨s, rfl, hlag, by simp⟩
  | cons q requests ih =>
    rw [List.map_cons, List.nodup_cons] at hnodup
    obtain ⟨hfresh, hnodup⟩ := hnodup
    obtain ⟨s₁, hfirst, hlag₁, hq, hframe₁⟩ := run_served hlag (hidle q List.mem_cons_self)
    have hidle₁ : ∀ r ∈ requests, s₁.calls r.call = .idle := by
      intro r hr
      have hne : r.call ≠ q.call := fun heq => hfresh (heq ▸ List.mem_map_of_mem hr)
      exact (hframe₁ r.call hne).trans (hidle r (List.mem_cons_of_mem q hr))
    obtain ⟨s₂, hrest, hlag₂, hall, hframe₂⟩ := ih hlag₁ hnodup hidle₁
    refine ⟨s₂, run_append.mpr ⟨s₁, hfirst, hrest⟩, hlag₂, ?_, ?_⟩
    · intro r hr
      rcases List.mem_cons.mp hr with rfl | hr
      · rw [hframe₂ r.call hfresh]
        exact hq
      · exact hall r hr
    · intro i hi
      rw [List.map_cons, List.mem_cons, not_or] at hi
      exact (hframe₂ i hi.2).trans (hframe₁ i hi.1)

/-- A one that comes too late. -/
theorem lagging_keep {s : Limiting} {call server : Nat} {c : Command}
    (hcommand : (s.calls call).command = some (server, c)) (hagain : (s.calls call).again = true)
    (hunread : s.unread server = []) (hone : (s.answer c).number = 1) :
    ∃ s', s.step (.keep call) = some s' ∧ s'.Lagging server ∧ ∀ i ≠ call, s'.calls i = s.calls i := by
  refine ⟨((s.execute c).setUnread server [s.answer c]).setCall call (s.calls call).failed, ?_, ?_, ?_⟩
  · simp [step, hagain, hcommand, hunread]
  · exact ⟨_, unread_setUnread_self _ _ _, hone⟩
  · exact fun i hi => calls_setCall_of_ne _ _ hi

/-- A request for which Redis has counted, and that waits for the deadline a second time. -/
def stalled : Limiting := (run step initial [.start 0 0 ['k'] 7, .hear 0, .fail 0]).getD initial

end Limiting

end AgentMemory.Redis
