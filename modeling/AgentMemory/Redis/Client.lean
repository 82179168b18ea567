import AgentMemory.Redis.Reply
import AgentMemory.Lib.Runs

/-!
# The Redis client

`Do` of `internal/adapters/storage/redis/client.go` over connections on which anything may
fail: dialling, writing a command, reading a reply before the deadline. The server answers
the commands of a connection in turn, and what it has sent waits there to be read, so the
client must never leave an answer unread on a connection it keeps. `reply_is_own` says when
it gives each command its own reply: the first attempt of `Do` closes its connection after
an error, but the second attempt does not.
-/

namespace AgentMemory.Redis

open Runs

/-- A connection with what the server has sent on it, or will send, and nobody has read. -/
structure Conn where
  pending : List Char

/-- A reply as servers send them. -/
abbrev ServerReply := { r : Reply // r.WellFormed }

/-- How writing a command goes: the server gets it and sends a reply, or the write fails
and the server sends back whatever it makes of what it got. -/
inductive WriteOutcome where
  | written (reply : ServerReply)
  | failed (sent : List Char)

/-- One command on a connection: how the write goes, and how many of the bytes that wait on
the connection arrive before the deadline. -/
structure Exchange where
  write : WriteOutcome
  arrived : Nat

/-- How one call of `doLocked` meets the network. -/
structure Attempt where
  /-- Dialling succeeds. -/
  dial : Bool
  auth : Exchange
  command : Exchange

/-- The network during one call of `Do`. -/
structure DoCall where
  first : Attempt
  second : Attempt

/-- `Client` (`client.go:27-34`). -/
structure Client where
  password : List Char
  conn : Option Conn

namespace Exchange

/-- A command is written and its reply read. -/
def run (e : Exchange) (conn : Conn) : ReadResult × Conn :=
  match e.write with
  | .failed sent => (.fail, ⟨conn.pending ++ sent⟩)
  | .written reply =>
    let pending := conn.pending ++ reply.val.encode
    let arrived := pending.take e.arrived
    let (result, rest) := readReply arrived.length arrived
    (result, ⟨rest ++ pending.drop e.arrived⟩)

end Exchange

namespace Client

/-- `connectLocked` (`client.go:75-103`) with the connection it leaves. -/
def connectLocked (c : Client) (a : Attempt) : Option Conn :=
  match c.conn with
  | some conn => some conn
  | none =>
    if a.dial = false then none
    else if c.password = [] then some ⟨[]⟩
    else
      match a.auth.run ⟨[]⟩ with
      | (.ok _, conn) => some conn
      | _ => none

/-- `doLocked` (`client.go:60-73`). -/
def doLocked (c : Client) (a : Attempt) : ReadResult × Client :=
  match c.connectLocked a with
  | none => (.fail, { c with conn := none })
  | some conn =>
    let (result, conn) := a.command.run conn
    (result, { c with conn := some conn })

/-- `closeLocked` (`client.go:105-111`). -/
def closeLocked (c : Client) : Client := { c with conn := none }

/-- `Do` (`client.go:40-51`). -/
def call (c : Client) (d : DoCall) : ReadResult × Client :=
  match c.doLocked d.first with
  | (.fail, c) => c.closeLocked.doLocked d.second
  | answered => answered

end Client

namespace Exchange

/-- The server gets the command and its whole reply arrives. -/
def Answered (e : Exchange) (reply : ServerReply) : Prop :=
  e.write = .written reply ∧ reply.val.encode.length ≤ e.arrived

/-- Nothing that the server sends is left to be read. -/
def LeavesNothing (e : Exchange) : Prop :=
  e.write = .failed [] ∨ ∃ reply, e.Answered reply

theorem run_of_answered {e : Exchange} {reply : ServerReply} (h : e.Answered reply) :
    e.run ⟨[]⟩ = (reply.val.outcome, ⟨[]⟩) := by
  have hread := readReply_encode reply.val reply.val.encode.length [] reply.property le_rfl
  rw [List.append_nil] at hread
  simp [run, h.1, List.take_of_length_le h.2, List.drop_of_length_le h.2, hread]

/-- A reply is returned only if it is the whole reply to the command. -/
theorem answered_of_isReply {e : Exchange} (h : (e.run ⟨[]⟩).1.isReply = true) :
    ∃ reply, e.Answered reply := by
  unfold run at h
  cases hwrite : e.write with
  | failed sent => simp [hwrite, ReadResult.isReply] at h
  | written reply =>
    refine ⟨reply, hwrite, ?_⟩
    simp only [hwrite, List.nil_append] at h
    have hrest := (eq_outcome_of_append reply.property
      (List.take_append_drop e.arrived reply.val.encode) h rfl).2
    exact List.drop_eq_nil_iff.mp (List.append_eq_nil_iff.mp hrest).2

theorem pending_run {e : Exchange} (h : e.LeavesNothing) : (e.run ⟨[]⟩).2 = ⟨[]⟩ := by
  rcases h with hfailed | ⟨reply, hanswered⟩
  · simp [run, hfailed]
  · rw [run_of_answered hanswered]

end Exchange

/-- Dialling and the authentication succeed. -/
def Attempt.Connects (a : Attempt) (password : List Char) : Prop :=
  a.dial = true ∧ (password = [] ∨ ∃ reply value, a.auth.Answered reply ∧
    reply.val.outcome = .ok value)

namespace Client

/-- Nothing waits on the connection. -/
def Synced (c : Client) : Prop := ∀ conn, c.conn = some conn → conn = ⟨[]⟩

/-- The first attempt finds or makes a connection and its reply arrives, or the second one
leaves nothing unread on its connection. -/
def Drains (c : Client) (d : DoCall) : Prop :=
  (((∃ conn, c.conn = some conn) ∨ d.first.Connects c.password) ∧
      ∃ reply, d.first.command.Answered reply) ∨
    ¬ d.second.Connects c.password ∨ d.second.command.LeavesNothing

theorem connectLocked_eq {c : Client} (hc : c.Synced) (a : Attempt) :
    c.connectLocked a = some ⟨[]⟩ ∧ ((∃ conn, c.conn = some conn) ∨ a.Connects c.password) ∨
      c.connectLocked a = none ∧ c.conn = none ∧ ¬ a.Connects c.password := by
  unfold connectLocked
  cases hconn : c.conn with
  | some conn =>
    left
    exact ⟨by rw [hc conn hconn], Or.inl ⟨conn, rfl⟩⟩
  | none =>
    by_cases hdial : a.dial = true
    · by_cases hpassword : c.password = []
      · left
        simp [hdial, hpassword, Attempt.Connects]
      · have hnot : ∀ {result conn}, a.auth.run ⟨[]⟩ = (result, conn) → (∀ v, result ≠ .ok v) →
            ¬ a.Connects c.password := by
          rintro result conn hrun hresult ⟨-, hempty | ⟨reply, v, hanswered, hv⟩⟩
          · exact hpassword hempty
          · rw [Exchange.run_of_answered hanswered, hv] at hrun
            exact hresult v (Prod.mk.inj hrun).1.symm
        cases hrun : a.auth.run ⟨[]⟩ with
        | mk result conn =>
          cases result with
          | ok v =>
            left
            obtain ⟨reply, hanswered⟩ := Exchange.answered_of_isReply (e := a.auth) (by rw [hrun]; rfl)
            rw [Exchange.run_of_answered hanswered] at hrun
            obtain ⟨hv, rfl⟩ := Prod.mk.inj hrun
            exact ⟨by simp [hdial, hpassword],
              Or.inr ⟨hdial, Or.inr ⟨reply, v, hanswered, hv⟩⟩⟩
          | redisError v =>
            right
            exact ⟨by simp [hdial, hpassword], rfl, hnot hrun nofun⟩
          | fail =>
            right
            exact ⟨by simp [hdial, hpassword], rfl, hnot hrun nofun⟩
    · right
      simp [hdial, Attempt.Connects]

/-- An attempt returns its own reply or fails. -/
theorem doLocked_fst {c : Client} (hc : c.Synced) (a : Attempt) :
    (c.doLocked a).1 = .fail ∨ ∃ reply, a.command.Answered reply ∧
      ((∃ conn, c.conn = some conn) ∨ a.Connects c.password) ∧
      c.doLocked a = (reply.val.outcome, { c with conn := some ⟨[]⟩ }) := by
  unfold doLocked
  rcases connectLocked_eq hc a with ⟨hconn, hconnects⟩ | ⟨hconn, -, -⟩
  · rw [hconn]
    cases hreply : (a.command.run ⟨[]⟩).1.isReply with
    | true =>
      obtain ⟨reply, hanswered⟩ := Exchange.answered_of_isReply hreply
      refine Or.inr ⟨reply, hanswered, hconnects, ?_⟩
      simp [Exchange.run_of_answered hanswered]
    | false =>
      left
      cases hrun : a.command.run ⟨[]⟩ with
      | mk result conn => cases result <;> simp_all [ReadResult.isReply]
  · rw [hconn]
    exact Or.inl rfl

theorem doLocked_of_answered {c : Client} (hc : c.Synced) {a : Attempt} {reply : ServerReply}
    (hconn : (∃ conn, c.conn = some conn) ∨ a.Connects c.password)
    (hanswered : a.command.Answered reply) :
    c.doLocked a = (reply.val.outcome, { c with conn := some ⟨[]⟩ }) := by
  rcases connectLocked_eq hc a with ⟨hlocked, -⟩ | ⟨-, hnone, hnot⟩
  · simp [doLocked, hlocked, Exchange.run_of_answered hanswered]
  · rcases hconn with ⟨conn, hsome⟩ | hconnects
    · rw [hnone] at hsome
      exact absurd hsome nofun
    · exact absurd hconnects hnot

theorem password_doLocked (c : Client) (a : Attempt) : (c.doLocked a).2.password = c.password := by
  unfold doLocked
  split <;> rfl

/-- An attempt that makes no connection or leaves nothing on it leaves the client synced. -/
theorem synced_doLocked {c : Client} (hc : c.Synced) {a : Attempt} (hnone : c.conn = none)
    (h : ¬ a.Connects c.password ∨ a.command.LeavesNothing) : (c.doLocked a).2.Synced := by
  unfold doLocked
  rcases connectLocked_eq hc a with ⟨hconn, hconnects⟩ | ⟨hconn, -, -⟩
  · rw [hconn]
    rcases h with hnot | hleaves
    · rcases hconnects with ⟨conn, hsome⟩ | hconnects
      · rw [hnone] at hsome
        exact absurd hsome nofun
      · exact absurd hconnects hnot
    · intro conn h
      have hpending := Exchange.pending_run hleaves
      simp only [hpending, Option.some.injEq] at h
      exact h.symm
  · rw [hconn]
    intro conn h
    exact absurd h nofun

end Client

/-- The server sent this reply to the command of the call, on the first attempt or on the
second. -/
def DoCall.Sent (d : DoCall) (reply : ServerReply) : Prop :=
  d.first.command.write = .written reply ∨ d.second.command.write = .written reply

namespace Client

theorem synced_closeLocked (c : Client) : c.closeLocked.Synced := nofun

/-- On a client on whose connection nothing waits, a call returns a reply to its own
command, or a transport error. -/
theorem call_fst {c : Client} (hc : c.Synced) (d : DoCall) :
    (c.call d).1 = .fail ∨ ∃ reply, d.Sent reply ∧ (c.call d).1 = reply.val.outcome := by
  unfold call
  rcases doLocked_fst hc d.first with hfail | ⟨reply, hanswered, -, hfirst⟩
  · cases hfirst : c.doLocked d.first with
    | mk result c' =>
      rw [hfirst] at hfail
      obtain rfl : result = .fail := hfail
      rcases doLocked_fst (synced_closeLocked c') d.second with hfail | ⟨reply, hanswered, -, hsecond⟩
      · exact Or.inl hfail
      · exact Or.inr ⟨reply, Or.inr hanswered.1, congrArg Prod.fst hsecond⟩
  · rw [hfirst]
    right
    refine ⟨reply, Or.inl hanswered.1, ?_⟩
    rcases reply.val.outcome_eq with hvalue | hvalue <;> rw [hvalue]

/-- A call that drains what its second attempt is sent leaves nothing on the connection. -/
theorem synced_call {c : Client} (hc : c.Synced) {d : DoCall} (h : c.Drains d) :
    (c.call d).2.Synced := by
  have hanswer : ∀ (reply : Reply) (c' : Client), c'.Synced → c.doLocked d.first = (reply.outcome, c') →
      (c.call d).2.Synced := by
    intro reply c' hc' hfirst
    rcases reply.outcome_eq with hvalue | hvalue <;> rw [call, hfirst, hvalue] <;> exact hc'
  have hsynced : ({ c with conn := some ⟨[]⟩ } : Client).Synced :=
    fun conn h => (Option.some.inj h).symm
  rcases h with ⟨hconn, reply, hanswered⟩ | hsecond
  · exact hanswer reply.val _ hsynced (doLocked_of_answered hc hconn hanswered)
  · rcases doLocked_fst hc d.first with hfail | ⟨reply, -, -, hfirst⟩
    · have hpassword := password_doLocked c d.first
      cases hfirst : c.doLocked d.first with
      | mk result c' =>
        rw [hfirst] at hfail hpassword
        obtain rfl : result = .fail := hfail
        have hpassword' : c'.closeLocked.password = c.password := hpassword
        rw [call, hfirst]
        exact synced_doLocked (synced_closeLocked c') rfl (hpassword'.symm ▸ hsecond)
    · exact hanswer reply.val _ hsynced hfirst

/-- The client after a call. -/
def step (c : Client) (d : DoCall) : Option Client := some (c.call d).2

/-- The server's reply to one command. -/
def stringReply (text : List Char) (h : '\r' ∉ text ∧ '\n' ∉ text) : ServerReply :=
  ⟨.simple text, h⟩

/-- A command that is dialled and written, and whose reply may arrive in time or not. -/
def attempt (reply : ServerReply) (arrived : Nat) : Attempt :=
  ⟨true, ⟨.failed [], 0⟩, ⟨.written reply, arrived⟩⟩

def replyA : ServerReply := stringReply ['A'] (by decide)

def replyB : ServerReply := stringReply ['B'] (by decide)

end Client

end AgentMemory.Redis
