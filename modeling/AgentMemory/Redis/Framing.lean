import AgentMemory.Redis.Reply

/-!
# Commands, and the lengths a peer declares

`encodeCommand` of `internal/adapters/storage/redis/client.go`, whose frames `readReply` reads
back whatever bytes the arguments hold, and `readReply` with what Go's `make` does with the
lengths it is given: these come from the peer before any of the bytes they announce, and
`readReply_returns_iff` says on which streams none of them makes the program panic.
-/

namespace AgentMemory.Redis

open JsonText PyText

/-- The arguments of a command; lengths are `int`s. -/
structure Args where
  args : List (List Char)
  length_lt : args.length < 2 ^ 63
  lengths_lt : ∀ arg ∈ args, arg.length < 2 ^ 63

/-- `encodeCommand` (`client.go:113-120`). -/
def encodeCommand (args : List (List Char)) : List Char :=
  replyLine '*' (decimal args.length) ++
    args.flatMap fun arg => replyLine '$' (decimal arg.length) ++ arg ++ ['\r', '\n']

/-! ## Commands are read back -/

open Reply

theorem encodeItems_bulk (args : List (List Char)) : encodeItems (args.map .bulk) =
    args.flatMap fun arg => replyLine '$' (decimal arg.length) ++ arg ++ ['\r', '\n'] := by
  induction args with
  | nil => rfl
  | cons arg args ih => rw [List.map_cons, encodeItems, ih, encode, List.flatMap_cons]

theorem encodeCommand_eq (args : List (List Char)) :
    encodeCommand args = (Reply.array (args.map .bulk)).encode := by
  rw [encodeCommand, encode, encodeItems_bulk, List.length_map]

theorem valueItems_bulk (args : List (List Char)) :
    valueItems (args.map .bulk) = args.map (Value.line '$') := by
  induction args with
  | nil => rfl
  | cons arg args ih => rw [List.map_cons, valueItems, ih, value, List.map_cons]

theorem nestingItems_bulk (args : List (List Char)) : nestingItems (args.map .bulk) ≤ 1 := by
  induction args with
  | nil => exact Nat.zero_le _
  | cons arg args ih =>
    have hbulk : (Reply.bulk arg).nesting = 1 := rfl
    rw [List.map_cons, nestingItems, hbulk]
    omega

theorem wellFormedItems_bulk {args : List (List Char)} (h : ∀ arg ∈ args, arg.length < 2 ^ 63) :
    WellFormedItems (args.map .bulk) := by
  induction args with
  | nil => trivial
  | cons arg args ih =>
    obtain ⟨harg, hargs⟩ := List.forall_mem_cons.mp h
    exact ⟨harg, ih hargs⟩

/-- A command is read back as the array of its arguments, and what follows it is left unread. -/
theorem readReply_encodeCommand (a : Args) (depth : Nat) (rest : List Char) :
    readReply (depth + 2) (encodeCommand a.args ++ rest) =
      (.ok (.mk '*' [] 0 false (a.args.map (Value.line '$'))), rest) := by
  have hformed : (Reply.array (a.args.map .bulk)).WellFormed :=
    ⟨by rw [List.length_map]; exact a.length_lt, wellFormedItems_bulk a.lengths_lt⟩
  have hnesting : (Reply.array (a.args.map .bulk)).nesting ≤ depth + 2 := by
    have hitems := nestingItems_bulk a.args
    rw [nesting]
    omega
  have houtcome : (Reply.array (a.args.map .bulk)).outcome =
      .ok (.mk '*' [] 0 false (valueItems (a.args.map .bulk))) := rfl
  rw [encodeCommand_eq, readReply_encode_of_nesting _ _ _ hformed hnesting, houtcome,
    valueItems_bulk]

/-! ## What `make` does with a length -/

/-- A Go `int` after an operation that may overflow. -/
def wrapInt (n : Int) : Int := n.bmod (2 ^ 64)

/-- `make` of a slice with elements of this size panics unless the allocator may grant it. -/
def granted (maxAlloc elemSize : Nat) (n : Int) : Bool := 0 ≤ n && n.toNat * elemSize ≤ maxAlloc

/-- The bytes of a `Value`. -/
def valueSize : Nat := 64

namespace Checked

/-- What the first line of a reply, with the bytes of a bulk string, makes of a reader. -/
inductive Header where
  | panic
  | done (result : ReadResult) (rest : List Char)
  | items (count : Nat) (rest : List Char)

/-- `readReply` up to the loop over the items (`client.go:131-172`). -/
def readHeader (maxAlloc : Nat) (input : List Char) : Header :=
  match readLine input with
  | (none, rest) => .done .fail rest
  | (some [], rest) => .done .fail rest
  | (some (kind :: text), rest) =>
    if kind = '+' then .done (.ok (.line kind text)) rest
    else if kind = '-' then .done (.redisError (.line kind text)) rest
    else if kind = ':' then
      match parseInt text with
      | some n => .done (.ok (.number n)) rest
      | none => .done .fail rest
    else if kind = '$' then
      match parseInt text with
      | some size =>
        if size < 0 then .done (.ok (.missing kind)) rest
        else
          let length := wrapInt (size + 2)
          if granted maxAlloc 1 length = false then .panic
          else if rest.length < length.toNat then .done .fail []
          -- `buf[:size]`
          else if length < size then .panic
          else .done (.ok (.line kind (rest.take size.toNat))) (rest.drop length.toNat)
      | none => .done .fail rest
    else if kind = '*' then
      match parseInt text with
      | some count =>
        if count < 0 then .done (.ok (.missing kind)) rest
        else if granted maxAlloc valueSize count = false then .panic
        else .items count.toNat rest
      | none => .done .fail rest
    else .done .fail rest

mutual
/-- `readReply` (`client.go:131-184`) on replies that nest at most so deep; `none` is a panic. -/
def readReply (maxAlloc : Nat) : Nat → List Char → Option (ReadResult × List Char)
  | 0, input => some (.fail, input)
  | depth + 1, input =>
    match readHeader maxAlloc input with
    | .panic => none
    | .done result rest => some (result, rest)
    | .items count rest => do
      match ← readItems maxAlloc depth count rest with
      | (some items, rest) => some (.ok (.mk '*' [] 0 false items), rest)
      | (none, rest) => some (.fail, rest)
/-- The loop over the items of an array. -/
def readItems (maxAlloc : Nat) : Nat → Nat → List Char → Option (Option (List Value) × List Char)
  | _, 0, input => some (some [], input)
  | depth, count + 1, input => do
    match ← readReply maxAlloc depth input with
    | (.ok item, rest) | (.redisError item, rest) =>
      match ← readItems maxAlloc depth count rest with
      | (some items, rest) => some (some (item :: items), rest)
      | (none, rest) => some (none, rest)
    | (.fail, rest) => some (none, rest)
end

end Checked

/-! ## The headers a stream declares -/

/-- The line declares a length that `make` panics on. -/
def Oversized (maxAlloc : Nat) (line : List Char) : Prop :=
  ∃ (text : List Char) (n : Nat), parseInt text = some (n : Int) ∧
    ((line = '$' :: text ∧ (2 ^ 63 ≤ n + 2 ∨ maxAlloc < n + 2)) ∨
      (line = '*' :: text ∧ maxAlloc < n * valueSize))

/-- The replies that a reader has to read after a line and its bulk string before the reply is
complete, and where they begin; none where the line ends the reading. -/
def frame (input : List Char) : Option (Nat × List Char) :=
  match readLine input with
  | (some (kind :: text), rest) =>
    if kind = '+' ∨ kind = '-' then some (0, rest)
    else
      match parseInt text with
      | some n =>
        if kind = ':' then some (0, rest)
        else if kind = '$' then
          if n < 0 then some (0, rest)
          else if n.toNat + 2 ≤ rest.length then some (0, rest.drop (n.toNat + 2))
          else none
        else if kind = '*' then some (n.toNat, rest)
        else none
      | none => none
  | _ => none

/-- While so many replies are due, the stream comes to a line that declares such a length. -/
inductive Demands (maxAlloc : Nat) : Nat → List Char → Prop where
  | here {due : Nat} {input line rest : List Char} (hline : readLine input = (some line, rest))
    (hsize : Oversized maxAlloc line) : Demands maxAlloc (due + 1) input
  | next {due more : Nat} {input rest : List Char} (hframe : frame input = some (more, rest))
    (hrest : Demands maxAlloc (due + more) rest) : Demands maxAlloc (due + 1) input

section Facts

variable {maxAlloc : Nat} {input rest : List Char}

theorem range_of_parseInt {text : List Char} {n : Int} (h : parseInt text = some n) :
    -2 ^ 63 ≤ n ∧ n < 2 ^ 63 := by
  unfold parseInt at h
  simp only [Option.ite_none_right_eq_some, Option.some.injEq] at h
  obtain ⟨⟨-, -, hle, hlt⟩, rfl⟩ := h
  exact ⟨hle, hlt⟩

theorem granted_iff {elemSize : Nat} {n : Int} :
    granted maxAlloc elemSize n = true ↔ 0 ≤ n ∧ n.toNat * elemSize ≤ maxAlloc := by
  simp [granted]

/-- The buffer of a bulk string is granted where its length fits an `int` and the allocator. -/
theorem granted_wrapInt {size : Int} (hle : 0 ≤ size) (hlt : size < 2 ^ 63) :
    granted maxAlloc 1 (wrapInt (size + 2)) = true ↔ size.toNat + 2 < 2 ^ 63 ∧ size.toNat + 2 ≤ maxAlloc := by
  rw [granted_iff, wrapInt, Int.bmod]
  split <;> omega

theorem wrapInt_of_granted {size : Int} (hle : 0 ≤ size)
    (h : granted maxAlloc 1 (wrapInt (size + 2)) = true) (hlt : size < 2 ^ 63) :
    wrapInt (size + 2) = size + 2 := by
  have hfits := ((granted_wrapInt hle hlt).mp h).1
  simp only [wrapInt, Int.bmod]
  split <;> omega

theorem length_lt_of_readLine {line : List Char} (h : readLine input = (some line, rest)) :
    rest.length < input.length := by
  unfold readLine at h
  split at h
  · exact absurd h nofun
  · next c tail hdrop =>
    obtain ⟨-, rfl⟩ := Prod.mk.inj h
    have hboth := congrArg List.length (List.takeWhile_append_dropWhile (p := notNewline) (l := input))
    simp only [List.length_append, hdrop, List.length_cons] at hboth
    omega

/-- What comes next decides whether the stream demands too much. -/
theorem demands_succ {due : Nat} : Demands maxAlloc (due + 1) input ↔
    (∃ line rest, readLine input = (some line, rest) ∧ Oversized maxAlloc line) ∨
      ∃ more rest, frame input = some (more, rest) ∧ Demands maxAlloc (due + more) rest := by
  constructor
  · intro h
    cases h with
    | here hline hsize => exact Or.inl ⟨_, _, hline, hsize⟩
    | next hframe hrest => exact Or.inr ⟨_, _, hframe, hrest⟩
  · rintro (⟨line, rest, hline, hsize⟩ | ⟨more, rest, hframe, hrest⟩)
    · exact .here hline hsize
    · exact .next hframe hrest

/-- What a reader of so many replies does is what the stream says: it panics where the stream
demands too much, whatever is read afterwards, and where it reads its replies the stream
demands too much exactly if the rest does. -/
def Foretold (maxAlloc count : Nat) (input : List Char) : Option (Option (List Char)) → Prop
  | none => ∀ due, Demands maxAlloc (due + count) input
  | some none => ∀ due, ¬ Demands maxAlloc (due + count) input
  | some (some rest) => rest.length ≤ input.length ∧
      ∀ due, (Demands maxAlloc (due + count) input ↔ Demands maxAlloc due rest)

/-- The rest after an answer. -/
def ReadResult.restOf : ReadResult × List Char → Option (List Char)
  | (result, rest) => if result.isReply = true then some rest else none

theorem Foretold.cons {count : Nat} {outcome : Option (Option (List Char))}
    (hfirst : Foretold maxAlloc 1 input (some (some rest)))
    (hrest : Foretold maxAlloc count rest outcome) : Foretold maxAlloc (count + 1) input outcome := by
  obtain ⟨hlength, hiff⟩ := hfirst
  have hstep : ∀ due, Demands maxAlloc (due + (count + 1)) input ↔ Demands maxAlloc (due + count) rest :=
    fun due => hiff (due + count)
  rcases outcome with _ | _ | rest'
  · exact fun due => (hstep due).mpr (hrest due)
  · exact fun due h => hrest due ((hstep due).mp h)
  · exact ⟨hrest.1.trans hlength, fun due => (hstep due).trans (hrest.2 due)⟩

/-- A header that ends the reading or begins an array, where it demands nothing too large. -/
theorem demands_of_line {line : List Char} (hline : readLine input = (some line, rest))
    (hsize : ¬ Oversized maxAlloc line) {due : Nat} : Demands maxAlloc (due + 1) input ↔
      ∃ more rest, frame input = some (more, rest) ∧ Demands maxAlloc (due + more) rest := by
  rw [demands_succ, or_iff_right]
  rintro ⟨line', rest', hline', hsize'⟩
  obtain ⟨hsame, -⟩ := Prod.mk.inj (hline.symm.trans hline')
  exact hsize (Option.some.inj hsame ▸ hsize')

theorem foretold_done {line rest' : List Char} (hline : readLine input = (some line, rest))
    (hsize : ¬ Oversized maxAlloc line) (hframe : frame input = some (0, rest'))
    (hlength : rest'.length ≤ rest.length) :
    Foretold maxAlloc 1 input (some (some rest')) := by
  have hshorter := length_lt_of_readLine hline
  refine ⟨by omega, fun due => ?_⟩
  rw [demands_of_line hline hsize, hframe]
  simp

theorem foretold_fail (hframe : frame input = none)
    (hsize : ∀ line rest, readLine input = (some line, rest) → ¬ Oversized maxAlloc line) :
    Foretold maxAlloc 1 input (some none) := by
  intro due h
  rcases demands_succ.mp h with ⟨line, rest, hline, hover⟩ | ⟨more, rest, hmore, -⟩
  · exact hsize line rest hline hover
  · rw [hframe] at hmore
    exact absurd hmore nofun

theorem oversized_cons {kind : Char} {text : List Char} : Oversized maxAlloc (kind :: text) ↔
    ∃ n : Nat, parseInt text = some (n : Int) ∧
      ((kind = '$' ∧ (2 ^ 63 ≤ n + 2 ∨ maxAlloc < n + 2)) ∨
        (kind = '*' ∧ maxAlloc < n * valueSize)) := by
  constructor
  · rintro ⟨text', n, hn, ⟨hline, hsize⟩ | ⟨hline, hsize⟩⟩ <;>
      obtain ⟨rfl, rfl⟩ := List.cons.inj hline
    · exact ⟨n, hn, Or.inl ⟨rfl, hsize⟩⟩
    · exact ⟨n, hn, Or.inr ⟨rfl, hsize⟩⟩
  · rintro ⟨n, hn, ⟨rfl, hsize⟩ | ⟨rfl, hsize⟩⟩
    · exact ⟨text, n, hn, Or.inl ⟨rfl, hsize⟩⟩
    · exact ⟨text, n, hn, Or.inr ⟨rfl, hsize⟩⟩

theorem not_oversized_of_kind {kind : Char} {text : List Char} (hbulk : kind ≠ '$')
    (harray : kind ≠ '*') : ¬ Oversized maxAlloc (kind :: text) := by
  rw [oversized_cons]
  rintro ⟨n, -, ⟨h, -⟩ | ⟨h, -⟩⟩
  · exact hbulk h
  · exact harray h

theorem not_oversized_of_none {kind : Char} {text : List Char} (h : parseInt text = none) :
    ¬ Oversized maxAlloc (kind :: text) := by
  rw [oversized_cons]
  rintro ⟨n, hn, -⟩
  rw [h] at hn
  exact absurd hn nofun

theorem not_oversized_of_neg {kind : Char} {text : List Char} {size : Int}
    (h : parseInt text = some size) (hneg : size < 0) : ¬ Oversized maxAlloc (kind :: text) := by
  rw [oversized_cons]
  rintro ⟨n, hn, -⟩
  rw [h, Option.some.injEq] at hn
  omega

theorem oversized_bulk {text : List Char} {size : Int} (h : parseInt text = some size)
    (hle : 0 ≤ size) :
    Oversized maxAlloc ('$' :: text) ↔ granted maxAlloc 1 (wrapInt (size + 2)) = false := by
  obtain ⟨n, rfl⟩ := Int.eq_ofNat_of_zero_le hle
  rw [oversized_cons, ← Bool.not_eq_true, granted_wrapInt hle (range_of_parseInt h).2, h]
  constructor
  · rintro ⟨n', hn', ⟨-, hsize⟩ | ⟨hkind, -⟩⟩
    · rw [Option.some.injEq] at hn'
      omega
    · exact absurd hkind (by decide)
  · intro hsize
    exact ⟨n, rfl, Or.inl ⟨rfl, by omega⟩⟩

theorem oversized_array {text : List Char} {count : Int} (h : parseInt text = some count)
    (hle : 0 ≤ count) :
    Oversized maxAlloc ('*' :: text) ↔ granted maxAlloc valueSize count = false := by
  obtain ⟨n, rfl⟩ := Int.eq_ofNat_of_zero_le hle
  rw [oversized_cons, ← Bool.not_eq_true, granted_iff, h]
  constructor
  · rintro ⟨n', hn', ⟨hkind, -⟩ | ⟨-, hsize⟩⟩
    · exact absurd hkind (by decide)
    · rw [Option.some.injEq] at hn'
      obtain rfl : n = n' := by omega
      exact fun hgranted => absurd hgranted.2 (by simpa using hsize)
  · intro hsize
    exact ⟨n, rfl, Or.inr ⟨rfl, by simpa using hsize⟩⟩

namespace Checked

/-- What a header does is what the stream says. -/
def Header.Foretold (maxAlloc : Nat) (input : List Char) : Header → Prop
  | .panic => Redis.Foretold maxAlloc 1 input none
  | .done result rest => Redis.Foretold maxAlloc 1 input (some (ReadResult.restOf (result, rest)))
  | .items count rest => rest.length < input.length ∧
      ∀ due, (Demands maxAlloc (due + 1) input ↔ Demands maxAlloc (due + count) rest)

theorem foretold_readHeader (maxAlloc : Nat) (input : List Char) :
    (readHeader maxAlloc input).Foretold maxAlloc input := by
  unfold readHeader
  cases hline : readLine input with
  | mk line rest =>
    have hnone : frame input = none → ¬ (∃ l, line = some l ∧ Oversized maxAlloc l) →
        Redis.Foretold maxAlloc 1 input (some none) := by
      intro hframe hsize
      refine foretold_fail hframe fun l r hl hover => hsize ⟨l, ?_, hover⟩
      exact (Prod.mk.inj (hline.symm.trans hl)).1
    rcases line with _ | _ | ⟨kind, text⟩
    · exact hnone (by simp [frame, hline]) (by simp)
    · exact hnone (by simp [frame, hline]) (by simp [Oversized])
    · have hfail : frame input = none → ¬ Oversized maxAlloc (kind :: text) →
          Redis.Foretold maxAlloc 1 input (some none) := by
        intro hframe hsize
        refine hnone hframe ?_
        rintro ⟨l, hl, hover⟩
        exact hsize (Option.some.inj hl ▸ hover)
      simp only
      by_cases hplus : kind = '+'
      · rw [if_pos hplus]
        exact foretold_done hline (not_oversized_of_kind (by simp [hplus]) (by simp [hplus]))
          (by simp [frame, hline, hplus]) le_rfl
      rw [if_neg hplus]
      by_cases hminus : kind = '-'
      · rw [if_pos hminus]
        exact foretold_done hline (not_oversized_of_kind (by simp [hminus]) (by simp [hminus]))
          (by simp [frame, hline, hminus]) le_rfl
      rw [if_neg hminus]
      have hsigns : ¬ (kind = '+' ∨ kind = '-') := fun h => h.elim hplus hminus
      cases hnumber : parseInt text with
      | none =>
        have hframe := hfail (by simp [frame, hline, hsigns, hnumber]) (not_oversized_of_none hnumber)
        simp only
        split_ifs <;> exact hframe
      | some n =>
        simp only
        by_cases hcolon : kind = ':'
        · rw [if_pos hcolon]
          exact foretold_done hline (not_oversized_of_kind (by simp [hcolon]) (by simp [hcolon]))
            (by simp [frame, hline, hcolon, hnumber]) le_rfl
        rw [if_neg hcolon]
        by_cases hbulk : kind = '$'
        · rw [if_pos hbulk]
          subst hbulk
          by_cases hneg : n < 0
          · rw [if_pos hneg]
            exact foretold_done hline (not_oversized_of_neg hnumber hneg)
              (by simp [frame, hline, hnumber, hneg]) le_rfl
          rw [if_neg hneg]
          have hover := @oversized_bulk maxAlloc text n hnumber (by omega)
          cases hgranted : granted maxAlloc 1 (wrapInt (n + 2)) with
          | false =>
            rw [if_pos rfl]
            exact fun due => .here hline (hover.mpr hgranted)
          | true =>
            have hsize : ¬ Oversized maxAlloc ('$' :: text) := by
              rw [hover, hgranted]
              decide
            have hwrap := wrapInt_of_granted (by omega) hgranted (range_of_parseInt hnumber).2
            have hlength : (n + 2).toNat = n.toNat + 2 := by omega
            rw [if_neg (by decide), hwrap, hlength]
            by_cases hshort : rest.length < n.toNat + 2
            · rw [if_pos hshort]
              exact hfail (by simp [frame, hline, hnumber, hneg]; omega) hsize
            · rw [if_neg hshort, if_neg (by omega)]
              refine foretold_done hline hsize ?_ (by simp)
              simp only [frame, hline, hnumber, hneg, hsigns, if_false, if_true]
              rw [if_neg (by decide), if_pos (by omega)]
        rw [if_neg hbulk]
        by_cases harray : kind = '*'
        · rw [if_pos harray]
          subst harray
          by_cases hneg : n < 0
          · rw [if_pos hneg]
            have hzero : n.toNat = 0 := by omega
            exact foretold_done hline (not_oversized_of_neg hnumber hneg)
              (by simp [frame, hline, hnumber, hzero]) le_rfl
          rw [if_neg hneg]
          have hover := @oversized_array maxAlloc text n hnumber (by omega)
          cases hgranted : granted maxAlloc valueSize n with
          | false =>
            rw [if_pos rfl]
            exact fun due => .here hline (hover.mpr hgranted)
          | true =>
            rw [if_neg (by decide)]
            refine ⟨length_lt_of_readLine hline, fun due => ?_⟩
            have hframe : frame input = some (n.toNat, rest) := by simp [frame, hline, hnumber]
            rw [demands_of_line hline (by rw [hover, hgranted]; decide), hframe]
            simp
        · rw [if_neg harray]
          exact hfail (by simp [frame, hline, hsigns, hnumber, hcolon, hbulk, harray])
            (not_oversized_of_kind hbulk harray)

/-- The rest after the items of an array. -/
def itemsRest : Option (List Value) × List Char → Option (List Char)
  | (items, rest) => items.map fun _ => rest

theorem foretold_readItems {depth : Nat}
    (hread : ∀ input, input.length ≤ depth →
      Redis.Foretold maxAlloc 1 input ((readReply maxAlloc depth input).map ReadResult.restOf))
    {count : Nat} {input : List Char} (h : input.length ≤ depth) :
    Redis.Foretold maxAlloc count input ((readItems maxAlloc depth count input).map itemsRest) := by
  induction count generalizing input with
  | zero =>
    rw [readItems]
    exact ⟨le_rfl, fun due => Iff.rfl⟩
  | succ count ih =>
    have hfirst := hread input h
    rw [readItems]
    rcases hreply : readReply maxAlloc depth input with _ | ⟨result, rest⟩
    · rw [hreply] at hfirst
      exact fun due => hfirst (due + count)
    · rw [hreply] at hfirst
      cases result with
      | fail => exact fun due => hfirst (due + count)
      | ok item | redisError item =>
        have hlength : rest.length ≤ depth := le_trans hfirst.1 h
        have hrest := ih hlength
        simp only [Option.bind_eq_bind, Option.bind_some]
        rcases hitems : readItems maxAlloc depth count rest with _ | ⟨_ | items, rest'⟩ <;>
          rw [hitems] at hrest <;> exact Redis.Foretold.cons hfirst hrest

/-- What a reader does is what the stream says. -/
theorem foretold_readReply {depth : Nat} {input : List Char} (h : input.length ≤ depth) :
    Redis.Foretold maxAlloc 1 input ((readReply maxAlloc depth input).map ReadResult.restOf) := by
  induction depth generalizing input with
  | zero =>
    obtain rfl := List.length_eq_zero_iff.mp (Nat.le_zero.mp h)
    rw [readReply]
    exact foretold_fail rfl nofun
  | succ depth ih =>
    have hheader := foretold_readHeader maxAlloc input
    rw [readReply]
    cases hcase : readHeader maxAlloc input with
    | panic =>
      rw [hcase] at hheader
      exact hheader
    | done result rest =>
      rw [hcase] at hheader
      exact hheader
    | items count rest =>
      rw [hcase] at hheader
      obtain ⟨hlength, hiff⟩ := hheader
      have hitems := @foretold_readItems maxAlloc depth (fun _ h => ih h) count rest (by omega)
      simp only [Option.bind_eq_bind]
      rcases hread : readItems maxAlloc depth count rest with _ | ⟨_ | items, rest'⟩ <;>
        rw [hread] at hitems
      · exact fun due => (hiff due).mpr (hitems due)
      · exact fun due h => hitems due ((hiff due).mp h)
      · exact ⟨hitems.1.trans hlength.le, fun due => (hiff due).trans (hitems.2 due)⟩

/-- What the header leaves to do is what the unchecked reader does. -/
def Header.Agrees (depth : Nat) (input : List Char) : Header → Prop
  | .panic => True
  | .done result rest => Redis.readReply (depth + 1) input = (result, rest)
  | .items count rest => Redis.readReply (depth + 1) input =
      match Redis.readItems depth count rest with
      | (some values, rest) => (.ok (.mk '*' [] 0 false values), rest)
      | (none, rest) => (.fail, rest)

theorem agrees_readHeader (maxAlloc depth : Nat) (input : List Char) :
    (readHeader maxAlloc input).Agrees depth input := by
  unfold readHeader
  rcases hline : readLine input with ⟨_ | _ | ⟨kind, text⟩, rest⟩
  · simp [Header.Agrees, Redis.readReply, hline]
  · simp [Header.Agrees, Redis.readReply, hline]
  · by_cases hline' : kind = '+' ∨ kind = '-'
    · rcases hline' with rfl | rfl <;> simp [Header.Agrees, Redis.readReply, hline]
    obtain ⟨hplus, hminus⟩ := not_or.mp hline'
    simp only [if_neg hplus, if_neg hminus]
    cases hnumber : parseInt text with
    | none =>
      have hfail : Redis.readReply (depth + 1) input = (.fail, rest) := by
        simp [Redis.readReply, hline, hplus, hminus, hnumber]
      split_ifs <;> exact hfail
    | some n =>
      simp only
      by_cases hcolon : kind = ':'
      · simp [Header.Agrees, Redis.readReply, hline, hcolon, hnumber]
      rw [if_neg hcolon]
      by_cases hbulk : kind = '$'
      · rw [if_pos hbulk]
        subst hbulk
        by_cases hneg : n < 0
        · simp [Header.Agrees, Redis.readReply, hline, hnumber, hneg]
        rw [if_neg hneg]
        cases hgranted : granted maxAlloc 1 (wrapInt (n + 2)) with
        | false => trivial
        | true =>
          have hwrap := wrapInt_of_granted (by omega) hgranted (range_of_parseInt hnumber).2
          have hlength : (n + 2).toNat = n.toNat + 2 := by omega
          rw [if_neg (by decide), hwrap, hlength]
          by_cases hshort : rest.length < n.toNat + 2
          · have hnot : ¬ n.toNat + 2 ≤ rest.length := by omega
            simp [Header.Agrees, Redis.readReply, hline, hnumber, hneg, hshort, hnot]
          · have hle : n.toNat + 2 ≤ rest.length := by omega
            rw [if_neg hshort, if_neg (by omega)]
            simp [Header.Agrees, Redis.readReply, hline, hnumber, hneg, hle]
      rw [if_neg hbulk]
      by_cases harray : kind = '*'
      · rw [if_pos harray]
        subst harray
        by_cases hneg : n < 0
        · simp [Header.Agrees, Redis.readReply, hline, hnumber, hneg]
        rw [if_neg hneg]
        cases hgranted : granted maxAlloc valueSize n with
        | false => trivial
        | true =>
          simp only [Bool.true_eq_false, if_false, Header.Agrees, Redis.readReply, hline, hnumber, hneg]
          rcases Redis.readItems depth n.toNat rest with ⟨_ | _, _⟩ <;> rfl
      · simp [Header.Agrees, Redis.readReply, hline, hplus, hminus, hcolon, hbulk, harray]

theorem readItems_eq {depth : Nat}
    (hread : ∀ input answer, readReply maxAlloc depth input = some answer →
      Redis.readReply depth input = answer) {count : Nat} {input : List Char}
    {answer : Option (List Value) × List Char}
    (h : readItems maxAlloc depth count input = some answer) :
    Redis.readItems depth count input = answer := by
  induction count generalizing input answer with
  | zero =>
    rw [readItems, Option.some.injEq] at h
    rw [Redis.readItems, h]
  | succ count ih =>
    rw [readItems] at h
    rcases hreply : readReply maxAlloc depth input with _ | ⟨result, rest⟩
    · rw [hreply] at h
      cases h
    · rw [hreply] at h
      rw [Redis.readItems, hread _ _ hreply]
      cases result with
      | fail => exact Option.some.inj h
      | ok item | redisError item =>
        simp only [Option.bind_eq_bind, Option.bind_some] at h ⊢
        rcases hitems : readItems maxAlloc depth count rest with _ | ⟨items, rest'⟩
        · rw [hitems] at h
          cases h
        · rw [hitems] at h
          rw [ih hitems]
          cases items <;> exact Option.some.inj h

/-- Where the checked reader does not panic it is the unchecked one. -/
theorem readReply_eq {depth : Nat} {input : List Char} {answer : ReadResult × List Char}
    (h : readReply maxAlloc depth input = some answer) : Redis.readReply depth input = answer := by
  induction depth generalizing input answer with
  | zero =>
    rw [readReply, Option.some.injEq] at h
    rw [Redis.readReply, h]
  | succ depth ih =>
    have hagrees := agrees_readHeader maxAlloc depth input
    rw [readReply] at h
    cases hheader : readHeader maxAlloc input with
    | panic =>
      rw [hheader] at h
      exact absurd h nofun
    | done result rest =>
      rw [hheader] at h hagrees
      exact hagrees.trans (Option.some.inj h)
    | items count rest =>
      rw [hheader] at h hagrees
      refine hagrees.trans ?_
      simp only [Option.bind_eq_bind] at h
      rcases hitems : readItems maxAlloc depth count rest with _ | ⟨items, rest'⟩
      · rw [hitems] at h
        exact absurd h nofun
      · rw [hitems] at h
        rw [readItems_eq (fun _ _ hread => ih hread) hitems]
        cases items <;> exact Option.some.inj h

end Checked

end Facts

theorem not_demands_zero {maxAlloc : Nat} {input : List Char} : ¬ Demands maxAlloc 0 input := nofun

/-- Reading a stream returns a value or an error exactly if the stream demands too large a
length nowhere. -/
theorem readReply_returns_iff (maxAlloc : Nat) (input : List Char) :
    (Checked.readReply maxAlloc input.length input).isSome = true ↔ ¬ Demands maxAlloc 1 input := by
  have hforetold := @Checked.foretold_readReply maxAlloc input.length input le_rfl
  rcases hread : Checked.readReply maxAlloc input.length input with _ | ⟨result, rest⟩
  · rw [hread] at hforetold
    simpa using hforetold 0
  · rw [hread] at hforetold
    refine iff_of_true rfl fun hdemands => ?_
    simp only [Option.map_some, ReadResult.restOf] at hforetold
    split at hforetold
    · exact not_demands_zero ((hforetold.2 0).mp hdemands)
    · exact hforetold 0 hdemands

/-- A bulk string of the longest length there is. -/
def longestBulk : List Char := replyLine '$' (decimal (2 ^ 63 - 1))

/-- The length of its buffer overflows. -/
theorem longest_bulk_panics :
    ¬ ∀ input, (Checked.readReply (2 ^ 48) input.length input).isSome = true := by
  intro h
  have hline := @readLine_replyLine '$' _ (by decide)
    (fun _ => @inline_decimal (2 ^ 63 - 1) _) []
  have hnumber := @parseInt_decimal (2 ^ 63 - 1) (by decide) (by decide)
  have hgranted : granted (2 ^ 48) 1 (wrapInt (2 ^ 63 - 1 + 2)) = false := by decide
  rw [List.append_nil] at hline
  have hpanic : Checked.readHeader (2 ^ 48) longestBulk = .panic := by
    unfold Checked.readHeader
    rw [longestBulk, hline]
    simp only [hnumber, hgranted]
    rfl
  have hreturns := h longestBulk
  rw [longestBulk, length_replyLine, Checked.readReply, ← longestBulk, hpanic] at hreturns
  exact absurd hreturns (by decide)

end AgentMemory.Redis
