import AgentMemory.Redis.Reply

/-!
# Requests to the providers

`PostJSON` of `internal/adapters/httpretry/httpretry.go`, with which requests to the providers are sent: what fails for
a moment is repeated after a pause, as long as the context allows. `postJSON_posts` says what a result means for the
requests that were sent, how many these are and how long the call waits.
-/

namespace AgentMemory.Http

/-- How a request ends: without a response that can be read, or with one. -/
inductive PostOutcome where
  | failed
  | answered (status : Nat) (retryAfter : List Char) (data : List UInt8)

/-- What a call meets: how its requests end, in which pauses the context does, and what the target decodes. -/
structure PostRun where
  outcome : Nat → PostOutcome
  endsBefore : Nat → Bool
  endsAfter : Nat → Bool
  decodes : List UInt8 → Bool

/-- What a call returns; an error with a status quotes the data. -/
inductive PostResult where
  | ok (data : List UInt8)
  | undecodable
  | cancelled
  | failed
  | refused (status : Nat) (data : List UInt8)

/-- What a call does, with the length of its pauses in milliseconds. -/
inductive PostStep where
  | request (attempt : Nat)
  | pause (length : Nat)

/-- `maxAttempts` (`httpretry.go:18`). -/
def maxAttempts : Nat := 3

/-- `backoff` (`httpretry.go:20`). -/
def backoff : List Nat := [500, 1000, 2000]

/-- `retryable` (`httpretry.go:83-85`). -/
def retryable (status : Nat) : Bool := status = 429 || 500 ≤ status

/-- `retryAfter` (`httpretry.go:87-96`). -/
def retryAfter (raw : List Char) : Nat :=
  match Redis.parseInt raw with
  | some seconds => if 0 < seconds ∧ seconds ≤ 30 then seconds.toNat * 1000 else 0
  | none => 0

/-- The data in an error text: `truncate` to 4096 bytes (`httpretry.go:68`). -/
def quoted (data : List UInt8) : List UInt8 := data.take 4096

/-- The pause before a repetition (`httpretry.go:33-39`). -/
def pauseBefore (attempt : Nat) : List PostStep :=
  if attempt = 0 then [] else [.pause (backoff.getD (attempt - 1) 0)]

/-- The pause that the provider asks for (`httpretry.go:72-78`). -/
def pauseAfter (attempt : Nat) (raw : List Char) : List PostStep :=
  if 0 < retryAfter raw ∧ attempt < maxAttempts - 1 then [.pause (retryAfter raw)] else []

namespace PostRun

/-- The loop from an attempt on, with as many left and the error so far (`httpretry.go:32-80`). -/
def attempts (r : PostRun) : Nat → Nat → PostResult → List PostStep × PostResult
  | 0, _, last => ([], last)
  | left + 1, attempt, _ =>
    if pauseBefore attempt ≠ [] ∧ r.endsBefore attempt then (pauseBefore attempt, .cancelled)
    else
      let steps := pauseBefore attempt ++ [.request attempt]
      match r.outcome attempt with
      | .failed =>
        let rest := attempts r left (attempt + 1) .failed
        (steps ++ rest.1, rest.2)
      | .answered status raw data =>
        if 200 ≤ status ∧ status < 300 then (steps, if r.decodes data then .ok data else .undecodable)
        else if retryable status = false then (steps, .refused status (quoted data))
        else if pauseAfter attempt raw ≠ [] ∧ r.endsAfter attempt then
          (steps ++ pauseAfter attempt raw, .cancelled)
        else
          let rest := attempts r left (attempt + 1) (.refused status (quoted data))
          (steps ++ pauseAfter attempt raw ++ rest.1, rest.2)

/-- `PostJSON` once the body is encoded (`httpretry.go:22-81`). -/
def postJSON (r : PostRun) : List PostStep × PostResult := r.attempts maxAttempts 0 .failed

end PostRun

/-- The requests of a call. -/
def requestsOf (steps : List PostStep) : List Nat :=
  steps.filterMap fun step => match step with
    | .request attempt => some attempt
    | .pause _ => none

/-- How long it waits. -/
def waitOf (steps : List PostStep) : Nat :=
  (steps.map fun step => match step with
    | .request _ => 0
    | .pause length => length).sum

/-- An outcome after which the request is repeated, and the error that it leaves. -/
inductive PostOutcome.Transient : PostOutcome → PostResult → Prop
  | failed : Transient .failed .failed
  | answered {status : Nat} (raw : List Char) {data : List UInt8} (hother : ¬ (200 ≤ status ∧ status < 300))
    (hretryable : retryable status = true) : Transient (.answered status raw data) (.refused status (quoted data))

/-- What a result means for the requests that were sent. -/
inductive PostRun.Means (r : PostRun) : Nat → PostResult → Prop
  | ok {sent status : Nat} {raw : List Char} {data : List UInt8} (hlast : r.outcome sent = .answered status raw data)
    (hstatus : 200 ≤ status ∧ status < 300) (hdecodes : r.decodes data = true) : Means r (sent + 1) (.ok data)
  | undecodable {sent status : Nat} {raw : List Char} {data : List UInt8}
    (hlast : r.outcome sent = .answered status raw data) (hstatus : 200 ≤ status ∧ status < 300)
    (hdecodes : r.decodes data = false) : Means r (sent + 1) .undecodable
  | refused {sent status : Nat} {raw : List Char} {data : List UInt8}
    (hlast : r.outcome sent = .answered status raw data) (hstatus : ¬ (200 ≤ status ∧ status < 300))
    (hretryable : retryable status = false) : Means r (sent + 1) (.refused status (quoted data))
  | cancelled {sent : Nat} {error : PostResult} (hlast : (r.outcome sent).Transient error)
    (hends : r.endsAfter sent = true ∨ r.endsBefore (sent + 1) = true) (hsent : sent + 1 < maxAttempts) :
    Means r (sent + 1) .cancelled
  | exhausted {error : PostResult} (hlast : (r.outcome (maxAttempts - 1)).Transient error) :
    Means r maxAttempts error

variable {r : PostRun}

theorem PostRun.Means.pos {sent : Nat} {result : PostResult} (h : r.Means sent result) : 0 < sent := by
  cases h <;> exact Nat.succ_pos _

@[simp] theorem requestsOf_append (steps steps' : List PostStep) :
    requestsOf (steps ++ steps') = requestsOf steps ++ requestsOf steps' := List.filterMap_append

@[simp] theorem waitOf_append (steps steps' : List PostStep) :
    waitOf (steps ++ steps') = waitOf steps + waitOf steps' := by
  rw [waitOf, List.map_append, List.sum_append]
  rfl

@[simp] theorem requestsOf_pauseBefore (attempt : Nat) : requestsOf (pauseBefore attempt) = [] := by
  unfold pauseBefore
  split <;> rfl

@[simp] theorem requestsOf_pauseAfter (attempt : Nat) (raw : List Char) : requestsOf (pauseAfter attempt raw) = [] := by
  unfold pauseAfter
  split <;> rfl

theorem retryAfter_le (raw : List Char) : retryAfter raw ≤ 30000 := by
  unfold retryAfter
  split
  · split
    · omega
    · exact Nat.zero_le _
  · exact Nat.zero_le _

/-- How long a call can wait from an attempt on. -/
def waitBound : Nat → Nat
  | 0 => 61500
  | 1 => 31500
  | 2 => 1000
  | _ => 0

theorem wait_le (attempt : Nat) (raw : List Char) (hattempt : attempt < maxAttempts) :
    waitOf (pauseBefore attempt) + waitOf (pauseAfter attempt raw) + waitBound (attempt + 1) ≤ waitBound attempt := by
  have hle := retryAfter_le raw
  have hafter : waitOf (pauseAfter attempt raw) ≤ if attempt < 2 then 30000 else 0 := by
    unfold pauseAfter
    split
    · next h =>
      rw [if_pos (show attempt < 2 from h.2)]
      simpa [waitOf] using hle
    · exact Nat.zero_le _
  have hcases : attempt = 0 ∨ attempt = 1 ∨ attempt = 2 := by
    unfold maxAttempts at hattempt
    omega
  rcases hcases with rfl | rfl | rfl
  · simp [pauseBefore, waitOf, waitBound] at hafter ⊢
    omega
  · simp [pauseBefore, waitOf, waitBound, backoff] at hafter ⊢
    omega
  · simp [pauseBefore, waitOf, waitBound, backoff] at hafter ⊢
    omega

/-- The provider is waited for only where a repetition is left. -/
theorem lt_of_pauseAfter {attempt : Nat} {raw : List Char} (h : pauseAfter attempt raw ≠ []) :
    attempt + 1 < maxAttempts := by
  unfold pauseAfter at h
  split at h
  · next hleft => exact Nat.add_lt_of_lt_sub hleft.2
  · exact absurd rfl h

/-- What a call has done from an attempt on. -/
structure PostRun.Posts (r : PostRun) (attempt : Nat) (done : List PostStep × PostResult) : Prop where
  wait : waitOf done.1 ≤ waitBound attempt
  sent : ∃ count, requestsOf done.1 = List.range' attempt count ∧ attempt + count ≤ maxAttempts ∧
    (∀ i, attempt ≤ i → i + 1 < attempt + count → ∃ error, (r.outcome i).Transient error) ∧
      r.Means (attempt + count) done.2

/-- The last request of a call. -/
theorem posts_last {attempt : Nat} {result : PostResult} (after : List PostStep) (hattempt : attempt < maxAttempts)
    (hrequests : requestsOf after = [])
    (hwait : waitOf (pauseBefore attempt) + waitOf after ≤ waitBound attempt) (hmeans : r.Means (attempt + 1) result) :
    r.Posts attempt (pauseBefore attempt ++ [.request attempt] ++ after, result) := by
  refine ⟨?_, 1, ?_, hattempt, fun i hle hlt => absurd hlt (by omega), hmeans⟩
  · have hnone : waitOf [PostStep.request attempt] = 0 := rfl
    rw [waitOf_append, waitOf_append, hnone]
    omega
  · rw [requestsOf_append, requestsOf_append, requestsOf_pauseBefore, hrequests]
    rfl

/-- A request that is repeated. -/
theorem PostRun.Posts.before {attempt : Nat} {error : PostResult} {done : List PostStep × PostResult}
    (h : r.Posts (attempt + 1) done) (after : List PostStep)
    (htransient : (r.outcome attempt).Transient error) (hrequests : requestsOf after = [])
    (hwait : waitOf (pauseBefore attempt) + waitOf after + waitBound (attempt + 1) ≤ waitBound attempt) :
    r.Posts attempt (pauseBefore attempt ++ [.request attempt] ++ after ++ done.1, done.2) := by
  obtain ⟨count, hsent, hle, hall, hmeans⟩ := h.sent
  have hcount : attempt + (count + 1) = attempt + 1 + count := by omega
  refine ⟨?_, count + 1, ?_, by omega, fun i hi hlt => ?_, hcount ▸ hmeans⟩
  · have hnone : waitOf [PostStep.request attempt] = 0 := rfl
    have hrest := h.wait
    rw [waitOf_append, waitOf_append, waitOf_append, hnone]
    omega
  · rw [requestsOf_append, requestsOf_append, requestsOf_append, requestsOf_pauseBefore, hrequests, hsent]
    rfl
  · rcases Nat.eq_or_lt_of_le hi with rfl | hlater
    · exact ⟨error, htransient⟩
    · exact hall i hlater (by omega)

theorem posts_attempts (left attempt : Nat) (last : PostResult) (hleft : attempt + left = maxAttempts)
    (hlast : ∀ before, attempt = before + 1 → (r.outcome before).Transient last) :
    r.Posts attempt (r.attempts left attempt last) := by
  induction left generalizing attempt last with
  | zero =>
    obtain rfl : attempt = maxAttempts := hleft
    exact ⟨Nat.zero_le _, 0, rfl, le_rfl, fun i hi hlt => absurd hlt (by omega), .exhausted (hlast 2 rfl)⟩
  | succ left ih =>
    have hattempt : attempt < maxAttempts := by omega
    have hplain : waitOf (pauseBefore attempt) + waitOf [] + waitBound (attempt + 1) ≤ waitBound attempt :=
      wait_le attempt [] hattempt
    have hend : waitOf (pauseBefore attempt) + waitOf [] ≤ waitBound attempt := by omega
    have hnext : ∀ error, (r.outcome attempt).Transient error →
        r.Posts (attempt + 1) (r.attempts left (attempt + 1) error) := by
      intro error htransient
      refine ih (attempt + 1) error (by omega) fun before heq => ?_
      obtain rfl := Nat.succ.inj heq
      exact htransient
    unfold PostRun.attempts
    split
    · next hends =>
      -- The context ends in the pause, so there was a request before.
      obtain ⟨before, rfl⟩ : ∃ before, attempt = before + 1 := by
        refine Nat.exists_eq_add_one_of_ne_zero fun hzero => hends.1 ?_
        rw [hzero]
        rfl
      refine ⟨?_, 0, ?_, hattempt.le, fun i hi hlt => absurd hlt (by omega), ?_⟩
      · exact (Nat.le_add_right _ _).trans hend
      · exact (requestsOf_pauseBefore (before + 1)).trans rfl
      · exact .cancelled (hlast before rfl) (Or.inr hends.2) hattempt
    · dsimp only
      split
      · next hfailed =>
        have htransient : (r.outcome attempt).Transient .failed := hfailed ▸ .failed
        have hposts := (hnext _ htransient).before [] htransient rfl hplain
        simpa using hposts
      · next status raw data hanswered =>
        have hpause := wait_le attempt raw hattempt
        split
        · next hstatus =>
          have hposts : r.Posts attempt (pauseBefore attempt ++ [.request attempt] ++ [],
              if r.decodes data then .ok data else .undecodable) := by
            refine posts_last [] hattempt rfl hend ?_
            split
            · next hdecodes => exact .ok hanswered hstatus hdecodes
            · next hnot => exact .undecodable hanswered hstatus (Bool.eq_false_iff.mpr hnot)
          simpa using hposts
        · next hstatus =>
          split
          · next hrefused =>
            have hposts := posts_last (r := r) [] hattempt rfl hend (.refused hanswered hstatus hrefused)
            simpa using hposts
          · next hretryable =>
            have htransient : (r.outcome attempt).Transient (.refused status (quoted data)) :=
              hanswered ▸ .answered raw hstatus (Bool.eq_true_of_not_eq_false hretryable)
            split
            · next hends =>
              exact posts_last _ hattempt (requestsOf_pauseAfter _ _) (by omega)
                (.cancelled htransient (Or.inl hends.2) (lt_of_pauseAfter hends.1))
            · exact (hnext _ htransient).before _ htransient (requestsOf_pauseAfter _ _) hpause

/-- A call sends its requests one after the other, three at most, and each but the last ends in a way that may pass; its
result is that of the last request, unless the context ends before the next; and it waits 61.5 seconds at most. -/
theorem postJSON_posts (r : PostRun) :
    (∃ sent, 0 < sent ∧ sent ≤ maxAttempts ∧ requestsOf r.postJSON.1 = List.range sent ∧
      (∀ i, i + 1 < sent → ∃ error, (r.outcome i).Transient error) ∧ r.Means sent r.postJSON.2) ∧
      waitOf r.postJSON.1 ≤ 61500 := by
  have hposts : r.Posts 0 r.postJSON := posts_attempts maxAttempts 0 .failed rfl fun before h => by cases h
  obtain ⟨count, hsent, hle, hall, hmeans⟩ := hposts.sent
  rw [Nat.zero_add] at hle hmeans
  refine ⟨⟨count, ?_, hle, ?_, fun i hi => hall i (Nat.zero_le i) (by omega), hmeans⟩, hposts.wait⟩
  · exact hmeans.pos
  · rw [hsent, List.range_eq_range']

end AgentMemory.Http
